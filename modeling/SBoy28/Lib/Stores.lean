import Mathlib.Data.List.Basic
import Mathlib.Data.List.GetD
import Mathlib.Data.List.Range
import Mathlib.Logic.Function.Basic

/-!
# Stores into an array

What a piece of code writes is a list of stores, each an index and a value. The list says where the code
writes, and applied in its order it says what is in the array afterwards.
-/

namespace SBoy28.Lib

variable {V : Type*} {m : ℕ → V} {l l' : List (ℕ × V)} {i n : ℕ}

def storeAll (m : ℕ → V) (l : List (ℕ × V)) : ℕ → V := l.foldl (fun m s => Function.update m s.1 s.2) m

/-- No store goes to an index from `n` on. -/
def Below (n : ℕ) (l : List (ℕ × V)) : Prop := ∀ s ∈ l, s.1 < n

/-- The values `v 0`, ..., `v (n - 1)` at consecutive indices. -/
def row (a n : ℕ) (v : ℕ → V) : List (ℕ × V) := (List.range n).map fun i => (a + i, v i)

/-- The values of a list at consecutive indices. -/
def rowOf (a : ℕ) : List V → List (ℕ × V)
  | [] => []
  | v :: s => (a, v) :: rowOf (a + 1) s

@[simp] lemma storeAll_nil : storeAll m [] = m := rfl

@[simp] lemma storeAll_cons (s : ℕ × V) : storeAll m (s :: l) = storeAll (Function.update m s.1 s.2) l := rfl

lemma storeAll_append : storeAll m (l ++ l') = storeAll (storeAll m l) l' := List.foldl_append

lemma storeAll_outside (h : ∀ s ∈ l, s.1 ≠ i) : storeAll m l i = m i := by
  induction l generalizing m with
  | nil => rfl
  | cons s l ih =>
    rw [storeAll_cons, ih fun s' hs' => h s' (List.mem_cons_of_mem _ hs')]
    exact Function.update_of_ne (h s List.mem_cons_self).symm _ _

lemma below_append : Below n (l ++ l') ↔ Below n l ∧ Below n l' := by
  simp only [Below, List.mem_append, or_imp, forall_and]

lemma row_succ (a n : ℕ) (v : ℕ → V) : row a (n + 1) v = row a n v ++ [(a + n, v n)] := by
  rw [row, List.range_succ, List.map_append]
  rfl

lemma row_cons (a n : ℕ) (v : ℕ → V) : row a (n + 1) v = (a, v 0) :: row (a + 1) n fun i => v (i + 1) := by
  simp only [row, List.range_succ_eq_map, List.map_cons, List.map_map, Nat.add_zero]
  congr 1
  refine List.map_congr_left fun i _ => ?_
  simp only [Function.comp_apply, Nat.succ_eq_add_one, Prod.mk.injEq, and_true]
  omega

lemma below_row (a n k : ℕ) (v : ℕ → V) : Below k (row a n v) ↔ n = 0 ∨ a + n ≤ k := by
  simp only [Below, row, List.mem_map, List.mem_range, forall_exists_index, and_imp, forall_apply_eq_imp_iff₂]
  constructor
  · intro h
    by_cases hn : n = 0
    · exact Or.inl hn
    · have hlast := h (n - 1) (by omega)
      exact Or.inr (by omega)
  · rintro (rfl | h) j hj <;> omega

lemma storeAll_row (m : ℕ → V) (a n : ℕ) (v : ℕ → V) (i : ℕ) :
    storeAll m (row a n v) i = if a ≤ i ∧ i < a + n then v (i - a) else m i := by
  induction n with
  | zero =>
    rw [if_neg (by omega)]
    rfl
  | succ n ih =>
    rw [row_succ, storeAll_append, storeAll_cons, storeAll_nil]
    by_cases hi : i = a + n
    · subst hi
      rw [Function.update_self, if_pos (by omega), Nat.add_sub_cancel_left]
    · rw [Function.update_of_ne hi, ih]
      by_cases hin : a ≤ i ∧ i < a + n
      · rw [if_pos hin, if_pos (by omega)]
      · rw [if_neg hin, if_neg (by omega)]

section Lists

variable {s t : List V}

lemma rowOf_append (a : ℕ) (s t : List V) : rowOf a (s ++ t) = rowOf a s ++ rowOf (a + s.length) t := by
  induction s generalizing a with
  | nil => rfl
  | cons v s ih => rw [List.cons_append, rowOf, ih, rowOf, List.length_cons, Nat.add_right_comm, Nat.add_assoc,
      List.cons_append]

lemma rowOf_eq_row (a : ℕ) (s : List V) (d : V) : rowOf a s = row a s.length fun i => s.getD i d := by
  induction s generalizing a with
  | nil => rfl
  | cons v s ih =>
    rw [rowOf, ih, List.length_cons, row_cons]
    rfl

lemma length_rowOf (a : ℕ) (s : List V) : (rowOf a s).length = s.length := by
  induction s generalizing a with
  | nil => rfl
  | cons v s ih => rw [rowOf, List.length_cons, ih, List.length_cons]

lemma below_rowOf {a k : ℕ} (h : a + s.length ≤ k) : Below k (rowOf a s) := by
  induction s generalizing a with
  | nil => exact fun t ht => absurd ht List.not_mem_nil
  | cons v s ih =>
    rw [List.length_cons] at h
    intro t ht
    cases List.mem_cons.mp ht with
    | inl ht =>
      rw [ht]
      change a < k
      omega
    | inr ht => exact ih (by omega) t ht

lemma storeAll_rowOf (m : ℕ → V) (a : ℕ) (s : List V) (d : V) (i : ℕ) :
    storeAll m (rowOf a s) i = if a ≤ i ∧ i < a + s.length then s.getD (i - a) d else m i := by
  rw [rowOf_eq_row a s d, storeAll_row]

end Lists

end SBoy28.Lib
