import Mathlib.Data.Fintype.EquivFin
import Mathlib.Data.Fintype.Pigeonhole
import Mathlib.Logic.Relation

/-!
# Loops with fuel

A `while` loop is iterated by a step that either goes on with a new state or leaves with a
result. `loop step n s` runs at most `n` steps, and `none` means that the loop has not been
left yet. More fuel never changes a result, and on a finite state space as many steps as
there are states decide whether the loop ends at all.
-/

namespace SBoy28.Lib

variable {σ ρ : Type*}

/-- At most `n` iterations of a loop. -/
def loop (step : σ → σ ⊕ ρ) : ℕ → σ → Option ρ
  | 0, _ => none
  | n + 1, s =>
    match step s with
    | .inl s' => loop step n s'
    | .inr r => some r

variable {step : σ → σ ⊕ ρ}

@[simp] lemma loop_zero (s : σ) : loop step 0 s = none := rfl

lemma loop_succ_inl {n : ℕ} {s s' : σ} (h : step s = .inl s') :
    loop step (n + 1) s = loop step n s' := by
  simp only [loop, h]

lemma loop_succ_inr {n : ℕ} {s : σ} {r : ρ} (h : step s = .inr r) :
    loop step (n + 1) s = some r := by
  simp only [loop, h]

/-- More fuel keeps the result. -/
theorem loop_mono {n m : ℕ} {s : σ} {r : ρ} (h : loop step n s = some r) (hnm : n ≤ m) :
    loop step m s = some r := by
  induction n generalizing m s with
  | zero => exact absurd h (by simp)
  | succ n ih =>
    obtain ⟨m, rfl⟩ : ∃ k, m = k + 1 := ⟨m - 1, by omega⟩
    cases hs : step s with
    | inl s' =>
      rw [loop_succ_inl hs] at h ⊢
      exact ih h (by omega)
    | inr r' =>
      rw [loop_succ_inr hs] at h ⊢
      exact h

/-- A loop after which something is done with its result. -/
theorem loop_map {ρ' : Type*} {step' : σ → σ ⊕ ρ'} (φ : ρ → ρ') (h : ∀ s, step' s = (step s).map id φ) (n : ℕ)
    (s : σ) : loop step' n s = (loop step n s).map φ := by
  induction n generalizing s with
  | zero => rfl
  | succ n ih =>
    cases hs : step s with
    | inl s' =>
      have hs' : step' s = .inl s' := by rw [h, hs]; rfl
      rw [loop_succ_inl hs, loop_succ_inl hs', ih]
    | inr r =>
      have hs' : step' s = .inr (φ r) := by rw [h, hs]; rfl
      rw [loop_succ_inr hs, loop_succ_inr hs']
      rfl

section Runs

variable {f : ℕ → σ} {n : ℕ}

/-- The states `f 0`, ..., `f n` are gone through one after the other. -/
theorem loop_run (h : ∀ i < n, step (f i) = .inl (f (i + 1))) (m : ℕ) :
    loop step (n + m) (f 0) = loop step m (f n) := by
  induction n generalizing m with
  | zero => rw [Nat.zero_add]
  | succ n ih =>
    have hlast := h n (by omega)
    rw [Nat.add_right_comm, Nat.add_assoc, ih (fun i hi => h i (by omega)) (m + 1), loop_succ_inl hlast]

theorem loop_endless (h : ∀ i, step (f i) = .inl (f (i + 1))) (n : ℕ) : loop step n (f 0) = none :=
  loop_run (fun i _ => h i) 0

end Runs

section Cycles

/-- One iteration that stays in the loop. -/
def Goes (step : σ → σ ⊕ ρ) (s s' : σ) : Prop := step s = .inl s'

/-- The loop comes back to a state in which it has been before. -/
def Cyclic (step : σ → σ ⊕ ρ) (s : σ) : Prop :=
  ∃ s', Relation.ReflTransGen (Goes step) s s' ∧ Relation.TransGen (Goes step) s' s'

lemma Cyclic.next {s : σ} (h : Cyclic step s) : ∃ s', step s = .inl s' ∧ Cyclic step s' := by
  obtain ⟨t, hst, htt⟩ := h
  obtain ⟨u, htu, hut⟩ := Relation.TransGen.head'_iff.mp htt
  cases Relation.ReflTransGen.cases_head hst with
  | inl hs =>
    subst hs
    exact ⟨u, htu, s, hut, htt⟩
  | inr hs =>
    obtain ⟨v, hsv, hvt⟩ := hs
    exact ⟨v, hsv, t, hvt, htt⟩

/-- A loop that comes back to a state never ends. -/
theorem Cyclic.loop_none {s : σ} (h : Cyclic step s) (n : ℕ) : loop step n s = none := by
  induction n generalizing s with
  | zero => rfl
  | succ n ih =>
    obtain ⟨s', hs, hc⟩ := h.next
    rw [loop_succ_inl hs]
    exact ih hc

/-- The state after `n` iterations, or the one in which the loop is left. -/
def orbit (step : σ → σ ⊕ ρ) (s : σ) : ℕ → σ
  | 0 => s
  | n + 1 =>
    match step (orbit step s n) with
    | .inl s' => s'
    | .inr _ => orbit step s n

lemma goes_of_endless {s : σ} (h : ∀ n, loop step n s = none) :
    ∃ s', Goes step s s' ∧ ∀ n, loop step n s' = none := by
  cases hs : step s with
  | inl s' =>
    refine ⟨s', hs, ?_⟩
    intro n
    rw [← loop_succ_inl hs]
    exact h (n + 1)
  | inr r =>
    have hone := h 1
    rw [loop_succ_inr hs] at hone
    cases hone

lemma orbit_goes {s : σ} (h : ∀ n, loop step n s = none) (i : ℕ) :
    Goes step (orbit step s i) (orbit step s (i + 1)) ∧
      ∀ n, loop step n (orbit step s i) = none := by
  induction i with
  | zero =>
    obtain ⟨s', hs, -⟩ := goes_of_endless h
    have hs' : step s = .inl s' := hs
    refine ⟨?_, h⟩
    simp only [Goes, orbit, hs']
  | succ i ih =>
    obtain ⟨s', hs, hend⟩ := goes_of_endless ih.2
    have heq : orbit step s (i + 1) = s' := Sum.inl.inj (ih.1.symm.trans hs)
    rw [← heq] at hend
    obtain ⟨s'', hs'', -⟩ := goes_of_endless hend
    have hs₂ : step (orbit step s (i + 1)) = .inl s'' := hs''
    refine ⟨?_, hend⟩
    rw [Goes, hs₂, orbit, hs₂]

/-- An endless loop takes some value of a finite observation twice. -/
theorem exists_repeat {K : Type*} [Finite K] (κ : σ → K) {s : σ}
    (h : ∀ n, loop step n s = none) :
    ∃ a b, Relation.ReflTransGen (Goes step) s a ∧ Relation.TransGen (Goes step) a b ∧
      κ a = κ b := by
  have hreach : ∀ i, Relation.ReflTransGen (Goes step) s (orbit step s i) := by
    intro i
    induction i with
    | zero => exact Relation.ReflTransGen.refl
    | succ i ih => exact ih.tail (orbit_goes h i).1
  have hahead : ∀ i k, Relation.TransGen (Goes step) (orbit step s i) (orbit step s (i + k + 1)) := by
    intro i k
    induction k with
    | zero => exact Relation.TransGen.single (orbit_goes h i).1
    | succ k ih => exact ih.tail (orbit_goes h (i + k + 1)).1
  obtain ⟨i, j, hij, he⟩ := Finite.exists_ne_map_eq_of_infinite (fun i => κ (orbit step s i))
  rcases Nat.lt_or_gt_of_ne hij with hlt | hlt
  · obtain ⟨k, rfl⟩ := Nat.exists_eq_add_of_lt hlt
    exact ⟨_, _, hreach i, hahead i k, he⟩
  · obtain ⟨k, rfl⟩ := Nat.exists_eq_add_of_lt hlt
    exact ⟨_, _, hreach j, hahead j k, he.symm⟩

/-- On finitely many states a loop ends unless it comes back to one of them. -/
theorem loop_ends_iff [Finite σ] {s : σ} : (∃ n, loop step n s ≠ none) ↔ ¬Cyclic step s := by
  constructor
  · rintro ⟨n, hn⟩ hc
    exact hn (hc.loop_none n)
  · intro hc
    by_contra hend
    simp only [ne_eq, not_exists, not_not] at hend
    obtain ⟨a, b, ha, hab, rfl⟩ := exists_repeat id hend
    exact hc ⟨a, ha, hab⟩

end Cycles

section Countdown

/-- `for (i = n - 1; i >= 0; i--)`. -/
def forDown (round : ℕ → σ → σ) : ℕ → σ → σ
  | 0, s => s
  | n + 1, s => forDown round n (round n s)

/-- The rounds of such a loop, each with the state in which it begins. -/
def roundsDown (round : ℕ → σ → σ) : ℕ → σ → List (ℕ × σ)
  | 0, _ => []
  | n + 1, s => (n, s) :: roundsDown round n (round n s)

theorem forDown_inv {round : ℕ → σ → σ} {inv : ℕ → σ → Prop}
    (hround : ∀ n s, inv (n + 1) s → inv n (round n s)) {n : ℕ} {s : σ} (h : inv n s) :
    inv 0 (forDown round n s) ∧ ∀ t ∈ roundsDown round n s, inv (t.1 + 1) t.2 := by
  induction n generalizing s with
  | zero => exact ⟨h, fun t ht => absurd ht List.not_mem_nil⟩
  | succ n ih =>
    have hnext := ih (hround n s h)
    refine ⟨hnext.1, ?_⟩
    intro t ht
    cases List.mem_cons.mp ht with
    | inl ht =>
      rw [ht]
      exact h
    | inr ht => exact hnext.2 t ht

end Countdown

end SBoy28.Lib
