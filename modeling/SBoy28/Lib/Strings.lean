import Mathlib.Data.UInt
import Mathlib.Data.List.GetD
import Mathlib.Data.Nat.Notation
import Mathlib.Order.Lattice
import Mathlib.Tactic.Common

/-!
# Strings that end at a zero

An array holds the string of the characters before its first zero.
-/

namespace SBoy28.Lib

/-- A NUL-terminated string. -/
abbrev CString := {s : List UInt8 // (0 : UInt8) ∉ s}

variable {α : Type*} [Zero α] {a : ℕ → α} {s : List α} {i n : ℕ}

lemma getD_ne_zero (hs : (0 : α) ∉ s) (hi : i < s.length) : s.getD i 0 ≠ 0 := by
  rw [List.getD_eq_getElem _ _ hi]
  exact fun hzero => hs (hzero ▸ List.getElem_mem hi)

variable [DecidableEq α]

/-- The characters from index `i` on that are before a zero, and at most `n` of them. -/
def stringAt (a : ℕ → α) : ℕ → ℕ → List α
  | _, 0 => []
  | i, n + 1 => if a i = 0 then [] else a i :: stringAt a (i + 1) n

/-- The string that the first `n` elements hold. -/
def string (a : ℕ → α) (n : ℕ) : List α := stringAt a 0 n

lemma zero_notMem_stringAt (a : ℕ → α) (i n : ℕ) : (0 : α) ∉ stringAt a i n := by
  induction n generalizing i with
  | zero => simp [stringAt]
  | succ n ih =>
    unfold stringAt
    by_cases h : a i = 0
    · simp [h]
    · simp [h, ih, Ne.symm h]

lemma zero_notMem_string (a : ℕ → α) (n : ℕ) : (0 : α) ∉ string a n := zero_notMem_stringAt a 0 n

lemma getD_stringAt {j : ℕ} (hj : j < (stringAt a i n).length) : (stringAt a i n).getD j 0 = a (i + j) := by
  induction n generalizing i j with
  | zero => simp [stringAt] at hj
  | succ n ih =>
    by_cases h : a i = 0
    · simp [stringAt, h] at hj
    · rw [stringAt, if_neg h] at hj ⊢
      cases j with
      | zero => rfl
      | succ j =>
        rw [List.getD_cons_succ, ih (by simpa using hj)]
        congr 1
        omega

lemma stringAt_end (h : (stringAt a i n).length < n) : a (i + (stringAt a i n).length) = 0 := by
  induction n generalizing i with
  | zero => omega
  | succ n ih =>
    by_cases h0 : a i = 0
    · simp [stringAt, h0]
    · rw [stringAt, if_neg h0] at h ⊢
      have hnext : i + (a i :: stringAt a (i + 1) n).length = i + 1 + (stringAt a (i + 1) n).length := by
        rw [List.length_cons]
        omega
      rw [hnext]
      exact ih (by simpa using h)

/-- The string of an array that starts with the characters of `s` and ends there. -/
lemma stringAt_eq (hs : (0 : α) ∉ s) (hn : s.length ≤ n) (h : ∀ j < s.length, a (i + j) = s.getD j 0)
    (hend : s.length < n → a (i + s.length) = 0) : stringAt a i n = s := by
  induction s generalizing i n with
  | nil =>
    cases n with
    | zero => rfl
    | succ n => simpa [stringAt] using hend (by simp)
  | cons c s ih =>
    obtain ⟨n, rfl⟩ : ∃ m, n = m + 1 := ⟨n - 1, by rw [List.length_cons] at hn; omega⟩
    have hc : a i = c := by simpa using h 0 (by simp)
    have hne : c ≠ 0 := fun he => hs (by simp [he])
    rw [stringAt, hc, if_neg hne]
    have hshift : ∀ j, i + 1 + j = i + (j + 1) := fun j => by omega
    congr 1
    refine ih (fun hm => hs (List.mem_cons_of_mem c hm)) (by simpa using hn) ?_ ?_
    · intro j hj
      rw [hshift]
      simpa using h (j + 1) (by simpa using hj)
    · intro hlt
      rw [hshift]
      simpa using hend (by simpa using hlt)

theorem string_eq (hs : (0 : α) ∉ s) (hn : s.length ≤ n) (h : ∀ j < s.length, a j = s.getD j 0)
    (hend : s.length < n → a s.length = 0) : string a n = s :=
  stringAt_eq hs hn (by simpa using h) (by simpa using hend)

lemma string_end (h : ∃ j < n, a j = 0) :
    (∀ j < (string a n).length, (string a n).getD j 0 = a j) ∧
      (string a n).length < n ∧ a (string a n).length = 0 := by
  have hget : ∀ j < (string a n).length, (string a n).getD j 0 = a j := by
    intro j hj
    have hj' := getD_stringAt (a := a) (i := 0) hj
    rwa [Nat.zero_add] at hj'
  have hlt : (string a n).length < n := by
    obtain ⟨j, hj, hzero⟩ := h
    by_contra hle
    have hlt : j < (string a n).length := by omega
    exact getD_ne_zero (zero_notMem_string a n) hlt ((hget j hlt).trans hzero)
  have hend := stringAt_end (a := a) (i := 0) hlt
  rw [Nat.zero_add] at hend
  exact ⟨hget, hlt, hend⟩

end SBoy28.Lib
