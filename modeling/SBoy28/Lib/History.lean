import Mathlib.Data.List.Induction
import Mathlib.Data.Nat.Notation

/-!
# What a history leaves behind

Some of the events of a history give a value to a register, which then holds the value of the last one that
did. An edge detector fires where a signal goes up.
-/

namespace SBoy28.Lib

variable {α β : Type*} {f g : α → Option β} {b c : β} {l : List α} {a : α}

section Registers

/-- The last value that the history gives, or the one from before. -/
def latest (f : α → Option β) (b : β) (l : List α) : β := (l.filterMap f).getLast?.getD b

@[simp] lemma latest_nil (f : α → Option β) (b : β) : latest f b [] = b := rfl

lemma latest_concat (f : α → Option β) (b : β) (l : List α) (a : α) :
    latest f b (l ++ [a]) = (f a).getD (latest f b l) := by
  unfold latest
  cases h : f a with
  | none => simp [h]
  | some c => simp [h]

/-- A register that every event gives its value or leaves alone. -/
theorem foldl_latest {σ : Type*} {step : σ → α → σ} (read : σ → β) {s : σ}
    (h : ∀ s a, read (step s a) = (f a).getD (read s)) (l : List α) :
    read (l.foldl step s) = latest f (read s) l := by
  induction l using List.reverseRecOn with
  | nil => rfl
  | append_singleton l a ih => rw [List.foldl_append, List.foldl_cons, List.foldl_nil, h, ih, latest_concat]

/-- The events may be spread over a longer history. -/
lemma latest_filterMap {γ : Type*} (e : γ → Option α) (f : α → Option β) (b : β) (l : List γ) :
    latest f b (l.filterMap e) = latest (fun a => (e a).bind f) b l := by
  rw [latest, latest, List.filterMap_filterMap]

/-- A latch that every event sets shows the value of the last event just if that is not `false`. -/
theorem latch_iff (f : α → Option Bool) (l : List α) :
    latest (fun a => (f a).map fun _ => true) false l = latest f false l ↔ (l.filterMap f).getLast? ≠ some false := by
  have hmap : l.filterMap (fun a => (f a).map fun _ => true) = (l.filterMap f).map fun _ => true := by
    rw [List.map_filterMap]
  rw [latest, latest, hmap, List.getLast?_map]
  rcases (l.filterMap f).getLast? with _ | _ | _ <;> simp

end Registers

section Edges

variable {s : List Bool} {p : Bool} {i : ℕ}

/-- The signal is up at `i` and was not right before. -/
def Rises (s : List Bool) (i : ℕ) : Prop := s[i]? = some true ∧ ∀ j, i = j + 1 → s[j]? ≠ some true

lemma not_rises_nil : ¬Rises [] i := fun h => by simp [Rises] at h

lemma Rises.lt (h : Rises s i) : i < s.length := (List.getElem?_eq_some_iff.mp h.1).1

/-- A new sample does not change the edges before it. -/
theorem rises_concat : Rises (s ++ [p]) i ↔ Rises s i ∨ i = s.length ∧ p = true ∧ s.getLast? ≠ some true := by
  unfold Rises
  rcases Nat.lt_trichotomy i s.length with hlt | heq | hgt
  · have hne : i ≠ s.length := Nat.ne_of_lt hlt
    have hbefore : ∀ j, i = j + 1 → (s ++ [p])[j]? = s[j]? := by
      intro j hj
      exact List.getElem?_append_left (by omega)
    rw [List.getElem?_append_left hlt]
    constructor
    · rintro ⟨hi, hj⟩
      exact Or.inl ⟨hi, fun j hij => hbefore j hij ▸ hj j hij⟩
    · rintro (⟨hi, hj⟩ | ⟨he, -⟩)
      · exact ⟨hi, fun j hij => hbefore j hij ▸ hj j hij⟩
      · exact absurd he hne
  · subst heq
    have hout : s[s.length]? = none := List.getElem?_eq_none_iff.mpr (Nat.le_refl _)
    have hlast : (∀ j, s.length = j + 1 → (s ++ [p])[j]? ≠ some true) ↔ s.getLast? ≠ some true := by
      rw [List.getLast?_eq_getElem?]
      constructor
      · intro h he
        obtain ⟨hlt, -⟩ := List.getElem?_eq_some_iff.mp he
        refine h (s.length - 1) (by omega) ?_
        rw [List.getElem?_append_left hlt, he]
      · intro h j hj
        rw [List.getElem?_append_left (by omega)]
        have hj' : s.length - 1 = j := by omega
        rwa [hj'] at h
    have hp : (s ++ [p])[s.length]? = some p := by simp
    rw [hp, hout, hlast]
    simp
  · have hout : s[i]? = none := List.getElem?_eq_none_iff.mpr (by omega)
    have hout' : (s ++ [p])[i]? = none := List.getElem?_eq_none_iff.mpr (by simp; omega)
    rw [hout, hout']
    simp [Nat.ne_of_gt hgt]

/-- Whether there was an edge since sample `k`. -/
lemma exists_rises_concat {k : ℕ} (hk : k ≤ s.length) : (∃ i, k ≤ i ∧ Rises (s ++ [p]) i) ↔
    (∃ i, k ≤ i ∧ Rises s i) ∨ p = true ∧ s.getLast? ≠ some true := by
  constructor
  · rintro ⟨i, hi, hrises⟩
    rcases rises_concat.mp hrises with hrises | ⟨-, hnew⟩
    · exact Or.inl ⟨i, hi, hrises⟩
    · exact Or.inr hnew
  · rintro (⟨i, hi, hrises⟩ | hnew)
    · exact ⟨i, hi, rises_concat.mpr (Or.inl hrises)⟩
    · exact ⟨s.length, hk, rises_concat.mpr (Or.inr ⟨rfl, hnew⟩)⟩

end Edges

end SBoy28.Lib
