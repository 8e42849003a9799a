import SBoy28.Lib.Linked
import SBoy28.Lib.Loop
import Mathlib.Data.List.Infix

/-!
# Tables of linked allocation units

A table says of every unit whether it is free, the last of a chain or linked to another unit.
Chains that share no unit are a family of lists over such a table; a chain grows by a free
unit, and that keeps every other chain of the family.
-/

namespace SBoy28.Lib

variable {α ι : Type*}

inductive Link (α : Type*) where
  | free
  | last
  | next (a : α)
  deriving DecidableEq

def Link.succ : Link α → Option α
  | .next a => some a
  | _ => none

/-- `l` is a whole chain of the table, from its first unit to its last. -/
def IsChain (t : α → Link α) (l : List α) : Prop :=
  Linked (fun a => (t a).succ) l.head? l ∧ ∀ a ∈ l, t a ≠ .free

/-- Every member of the family is a chain, and no two share a unit. -/
structure Chains (t : α → Link α) (chains : ι → List α) : Prop where
  chain : ∀ i, IsChain t (chains i)
  apart : ∀ i j a, a ∈ chains i → a ∈ chains j → i = j

section

variable {t t' : α → Link α} {l l' : List α} {a : α}

lemma isChain_nil : IsChain t ([] : List α) := ⟨rfl, by simp⟩

lemma IsChain.nodup (h : IsChain t l) : l.Nodup := h.1.nodup

lemma IsChain.congr (h : IsChain t l) (he : ∀ a ∈ l, t' a = t a) : IsChain t' l := by
  refine ⟨h.1.congr (fun a ha => by rw [he a ha]), ?_⟩
  intro a ha
  rw [he a ha]
  exact h.2 a ha

lemma IsChain.unique (h : IsChain t l) (h' : IsChain t l') (he : l.head? = l'.head?) : l = l' :=
  h.1.unique (he ▸ h'.1)

lemma IsChain.succ_getElem (h : IsChain t l) {i : ℕ} (hi : i < l.length) :
    (t l[i]).succ = l[i + 1]? := h.1.next_getElem i hi

lemma IsChain.last_iff (h : IsChain t l) {i : ℕ} (hi : i < l.length) :
    t l[i] = .last ↔ i + 1 = l.length := by
  have hs := h.succ_getElem hi
  have hf := h.2 l[i] (List.getElem_mem hi)
  constructor
  · intro hl
    rw [hl] at hs
    have hnone := List.getElem?_eq_none_iff.mp hs.symm
    omega
  · intro he
    rw [List.getElem?_eq_none (by omega)] at hs
    cases ht : t l[i] with
    | free => exact absurd ht hf
    | last => rfl
    | next b => simp [ht, Link.succ] at hs

lemma IsChain.next_of_lt (h : IsChain t l) {i : ℕ} (hi : i + 1 < l.length) :
    t l[i] = .next l[i + 1] := by
  have hs := h.succ_getElem (show i < l.length by omega)
  rw [List.getElem?_eq_getElem hi] at hs
  cases ht : t l[i] with
  | free => simp [ht, Link.succ] at hs
  | last => simp [ht, Link.succ] at hs
  | next b =>
    simp only [ht, Link.succ, Option.some.injEq] at hs
    rw [hs]

/-- A family of chains under other names. -/
lemma Chains.comp {κ : Type*} {chains : ι → List α} (h : Chains t chains) {f : κ → ι}
    (hf : Function.Injective f) : Chains t (fun k => chains (f k)) where
  chain k := h.chain (f k)
  apart _ _ a hi hj := hf (h.apart _ _ a hi hj)

variable [DecidableEq α]

/-- The table after the free unit `a` has been put behind the chain `l`. -/
def grow (t : α → Link α) (l : List α) (a : α) : α → Link α := fun c =>
  if c = a then .last else if l.getLast? = some c then .next a else t c

lemma grow_self (l : List α) : grow t l a a = .last := by simp [grow]

lemma grow_off {c : α} (hc : c ≠ a) (hl : l.getLast? ≠ some c) : grow t l a c = t c := by
  simp [grow, hc, hl]

lemma grow_nil (a : α) : grow t [] a = Function.update t a .last := by
  funext c
  by_cases hc : c = a <;> simp [grow, hc]

lemma grow_concat (l : List α) {b : α} (hb : b ≠ a) :
    grow t (l ++ [b]) a = Function.update (Function.update t a .last) b (.next a) := by
  funext c
  by_cases hca : c = a
  · subst hca
    simp [grow, Function.update_of_ne hb.symm]
  · by_cases hcb : c = b
    · subst hcb
      simp [grow, hca]
    · simp [grow, hca, hcb, Ne.symm hcb]

/-- The grown chain. -/
theorem IsChain.grow (h : IsChain t l) (ha : t a = .free) : IsChain (grow t l a) (l ++ [a]) := by
  have hal : a ∉ l := fun hm => h.2 a hm ha
  have hnd := h.nodup
  rcases List.eq_nil_or_concat l with rfl | ⟨l, b, rfl⟩
  · simp [IsChain, grow_self, Link.succ]
  · simp only [List.concat_eq_append] at h hal hnd ⊢
    have hba : b ≠ a := fun e => hal (by simp [e])
    have hbl : b ∉ l := by
      intro hm
      rw [List.nodup_append] at hnd
      exact hnd.2.2 b hm b (by simp) rfl
    have hb : Lib.grow t (l ++ [b]) a b = .next a := by simp [Lib.grow, hba]
    have hoff : ∀ c ∈ l, Lib.grow t (l ++ [b]) a c = t c := by
      intro c hc
      apply grow_off
      · exact fun e => hal (by simp [← e, hc])
      · simp only [List.getLast?_concat, ne_eq, Option.some.injEq]
        exact fun e => hbl (e ▸ hc)
    have hhead : (l ++ [b] ++ [a]).head? = (l ++ [b]).head? := by cases l <;> rfl
    refine ⟨?_, ?_⟩
    · rw [hhead, List.append_assoc]
      apply h.1.snoc
      · simp [grow_self, Link.succ]
      · simp [hb, Link.succ]
      · intro c hc
        rw [hoff c hc]
    · intro c hc
      by_cases hca : c = a
      · simp [hca, grow_self]
      · by_cases hcb : c = b
        · simp [hcb, hb]
        · have hcl : c ∈ l := by simpa [hca, hcb] using hc
          rw [hoff c hcl]
          exact h.2 c (by simp [hcl])

/-- A chain that shares no unit with the growing one stays as it is. -/
theorem IsChain.grow_other (h : IsChain t l') (ha : t a = .free) (hd : ∀ c ∈ l, c ∉ l') :
    IsChain (Lib.grow t l a) l' := by
  apply h.congr
  intro c hc
  apply grow_off
  · exact fun e => h.2 c hc (e ▸ ha)
  · intro he
    exact hd c (List.mem_of_getLast? he) hc

/-- Growing one chain of a family. -/
theorem Chains.grow [DecidableEq ι] {chains : ι → List α} (h : Chains t chains) (i : ι)
    (ha : t a = .free) :
    Chains (Lib.grow t (chains i) a) (Function.update chains i (chains i ++ [a])) := by
  have hnew : ∀ j, a ∉ chains j := fun j hm => (h.chain j).2 a hm ha
  refine ⟨?_, ?_⟩
  · intro j
    by_cases hj : j = i
    · subst hj
      rw [Function.update_self]
      exact (h.chain j).grow ha
    · rw [Function.update_of_ne hj]
      exact (h.chain j).grow_other ha (fun c hc hc' => hj (h.apart j i c hc' hc))
  · intro j k c hj hk
    by_cases hji : j = i
    · subst hji
      by_cases hki : k = j
      · exact hki.symm
      · rw [Function.update_self, List.mem_append, List.mem_singleton] at hj
        rw [Function.update_of_ne hki] at hk
        rcases hj with hj | rfl
        · exact h.apart _ _ c hj hk
        · exact absurd hk (hnew k)
    · rw [Function.update_of_ne hji] at hj
      by_cases hki : k = i
      · subst hki
        rw [Function.update_self, List.mem_append, List.mem_singleton] at hk
        rcases hk with hk | rfl
        · exact h.apart _ _ c hj hk
        · exact absurd hj (hnew j)
      · rw [Function.update_of_ne hki] at hk
        exact h.apart _ _ c hj hk

end

section Loops

variable {σ ρ τ : Type*} {t : α → Link α} {l : List α} {step : τ → τ ⊕ ρ}

/-- What a loop over the units of a list does, one turn for each unit, until it is left. -/
def alongChain (turn : α → σ → σ ⊕ ρ) (finish : σ → ρ) : List α → σ → ρ
  | [], s => finish s
  | a :: l, s =>
    match turn a s with
    | .inl s' => alongChain turn finish l s'
    | .inr r => r

lemma IsChain.tail {a : α} (h : IsChain t (a :: l)) : IsChain t l := by
  have hs : Linked (fun b => (t b).succ) (t a).succ l := h.1.2
  exact ⟨hs.head ▸ hs, fun b hb => h.2 b (by simp [hb])⟩

/-- A loop that goes from each unit to the one that the table links it to. -/
theorem IsChain.loop_eq (h : IsChain t l) (place : α → σ → τ) (value : α → α)
    (turn : α → σ → σ ⊕ ρ) (finish : σ → ρ)
    (hstep : ∀ a ∈ l, ∀ s, step (place a s) = (turn a s).map (place (value a)) id)
    (hnext : ∀ a ∈ l, ∀ b, t a = .next b → value a = b)
    (hlast : ∀ a ∈ l, t a = .last → ∀ s, step (place (value a) s) = .inr (finish s)) {n : ℕ}
    (hn : l.length < n) {a : α} (ha : l.head? = some a) (s : σ) :
    loop step n (place a s) = some (alongChain turn finish l s) := by
  induction l generalizing n a s with
  | nil => simp at ha
  | cons b l ih =>
    obtain rfl := Option.some.inj ha
    obtain ⟨n, rfl⟩ : ∃ k, n = k + 1 := ⟨n - 1, by omega⟩
    have hb := hstep b (by simp) s
    rw [alongChain]
    cases ht : turn b s with
    | inr r =>
      rw [ht] at hb
      exact loop_succ_inr hb
    | inl s' =>
      rw [ht] at hb
      rw [loop_succ_inl hb]
      cases l with
      | nil =>
        -- the loop is left behind the last unit
        have hend : t b = .last := (h.last_iff (i := 0) (by simp)).mpr rfl
        obtain ⟨n, rfl⟩ : ∃ k, n = k + 1 := ⟨n - 1, by simp at hn; omega⟩
        exact loop_succ_inr (hlast b (by simp) hend s')
      | cons c l =>
        have hlink : t b = .next c := h.next_of_lt (i := 0) (by simp)
        rw [hnext b (by simp) c hlink]
        exact ih h.tail (fun a ha => hstep a (by simp [ha])) (fun a ha => hnext a (by simp [ha]))
          (fun a ha => hlast a (by simp [ha])) (by simpa using hn) rfl s'

end Loops

end SBoy28.Lib
