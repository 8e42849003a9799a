import Mathlib.Data.Nat.Digits.Lemmas
import Mathlib.Tactic.Common

/-!
# Numerals

The numeral of a number is the characters of its digits, the highest first. No other string of digits
without a leading zero evaluates to the number.
-/

namespace SBoy28.Lib

variable {α : Type*} {glyph : ℕ → α} {value : α → ℕ} {b n k : ℕ} {s : List α}

def numeral (glyph : ℕ → α) (b n : ℕ) : List α :=
  if n = 0 then [glyph 0] else ((Nat.digits b n).map glyph).reverse

/-- The number that a string of digits stands for. -/
def evaluate (value : α → ℕ) (b : ℕ) (s : List α) : ℕ := s.foldl (fun n c => n * b + value c) 0

/-- A string of digits for `n` that starts with a zero only if it is nothing else. -/
structure IsNumeral (glyph : ℕ → α) (value : α → ℕ) (b n : ℕ) (s : List α) : Prop where
  digits : ∀ c ∈ s, ∃ d < b, c = glyph d
  nonempty : s ≠ []
  canonical : s.head? = some (glyph 0) → s = [glyph 0]
  evaluates : evaluate value b s = n

lemma numeral_of_ne_zero (hn : n ≠ 0) : numeral glyph b n = ((Nat.digits b n).map glyph).reverse := if_neg hn

lemma evaluate_append (value : α → ℕ) (b : ℕ) (s : List α) (c : α) :
    evaluate value b (s ++ [c]) = evaluate value b s * b + value c := by
  unfold evaluate
  rw [List.foldl_append]
  rfl

lemma evaluate_eq_ofDigits (value : α → ℕ) (b : ℕ) (s : List α) :
    evaluate value b s = Nat.ofDigits b (s.map value).reverse := by
  induction s using List.reverseRecOn with
  | nil => rfl
  | append_singleton s c ih =>
    rw [evaluate_append, ih, List.map_append, List.reverse_append]
    simp only [List.map_cons, List.map_nil, List.reverse_singleton, List.singleton_append, Nat.ofDigits_cons]
    ring

lemma length_numeral (hb : 1 < b) (hk : 0 < k) (hn : n < b ^ k) : (numeral glyph b n).length ≤ k := by
  unfold numeral
  by_cases h : n = 0
  · rw [if_pos h]
    exact hk
  · rw [if_neg h, List.length_reverse, List.length_map]
    exact (Nat.digits_length_le_iff hb n).mpr hn

section Values

variable (hvalue : ∀ d < b, value (glyph d) = d)
include hvalue

lemma glyph_inj {d d' : ℕ} (hd : d < b) (hd' : d' < b) (h : glyph d = glyph d') : d = d' := by
  rw [← hvalue d hd, h, hvalue d' hd']

lemma evaluate_numeral (hb : 1 < b) (n : ℕ) : evaluate value b (numeral glyph b n) = n := by
  rw [evaluate_eq_ofDigits]
  by_cases hn : n = 0
  · subst hn
    have hzero := hvalue 0 (by omega)
    simp [numeral, hzero]
  · have hsame : (Nat.digits b n).map (value ∘ glyph) = Nat.digits b n := by
      conv_rhs => rw [← List.map_id' (Nat.digits b n)]
      apply List.map_congr_left
      exact fun d hd => hvalue d (Nat.digits_lt_base hb hd)
    rw [numeral_of_ne_zero hn, List.map_reverse, List.reverse_reverse, List.map_map, hsame, Nat.ofDigits_digits]

theorem isNumeral_numeral (hb : 1 < b) (n : ℕ) : IsNumeral glyph value b n (numeral glyph b n) where
  digits := by
    intro c hc
    by_cases hn : n = 0
    · subst hn
      exact ⟨0, by omega, by simpa [numeral] using hc⟩
    · rw [numeral_of_ne_zero hn, List.mem_reverse] at hc
      obtain ⟨d, hd, rfl⟩ := List.mem_map.mp hc
      exact ⟨d, Nat.digits_lt_base hb hd, rfl⟩
  nonempty := by
    unfold numeral
    by_cases hn : n = 0
    · simp [hn]
    · simpa [hn] using Nat.digits_ne_nil_iff_ne_zero.mpr hn
  canonical := by
    intro hhead
    by_cases hn : n = 0
    · simp [numeral, hn]
    · have hne : Nat.digits b n ≠ [] := Nat.digits_ne_nil_iff_ne_zero.mpr hn
      rw [numeral_of_ne_zero hn, List.head?_reverse, List.getLast?_map, List.getLast?_eq_getLast_of_ne_nil hne]
        at hhead
      have hlast : (Nat.digits b n).getLast hne = 0 :=
        glyph_inj hvalue (Nat.digits_lt_base hb (List.getLast_mem hne)) (by omega) (by simpa using hhead)
      exact absurd hlast (Nat.getLast_digit_ne_zero b hn)
  evaluates := evaluate_numeral hvalue hb n

lemma IsNumeral.map_value (h : IsNumeral glyph value b n s) : (s.map value).map glyph = s := by
  rw [List.map_map]
  conv_rhs => rw [← List.map_id' s]
  apply List.map_congr_left
  intro c hc
  obtain ⟨d, hd, rfl⟩ := h.digits c hc
  simp [hvalue d hd]

/-- There is one numeral of a number. -/
theorem IsNumeral.eq (hb : 1 < b) (h : IsNumeral glyph value b n s) : s = numeral glyph b n := by
  have hback := h.map_value hvalue
  have hn := h.evaluates
  by_cases hzero : s.head? = some (glyph 0)
  · have hs := h.canonical hzero
    subst hs
    have hvanish : n = 0 := by
      rw [← hn]
      simpa [evaluate] using hvalue 0 (by omega)
    simp [numeral, hvanish]
  · rw [evaluate_eq_ofDigits] at hn
    have hlt : ∀ d ∈ (s.map value).reverse, d < b := by
      intro d hd
      obtain ⟨c, hc, rfl⟩ := List.mem_map.mp (List.mem_reverse.mp hd)
      obtain ⟨e, he, rfl⟩ := h.digits c hc
      rwa [hvalue e he]
    have hlast : ∀ hne : (s.map value).reverse ≠ [], (s.map value).reverse.getLast hne ≠ 0 := by
      intro hne hlast
      apply hzero
      obtain ⟨c, t, rfl⟩ := List.exists_cons_of_ne_nil h.nonempty
      have hc : value c = 0 := by simpa using hlast
      obtain ⟨d, hd, rfl⟩ := h.digits c List.mem_cons_self
      rw [hvalue d hd] at hc
      rw [hc, List.head?_cons]
    have hdigits := Nat.digits_ofDigits b hb _ hlt hlast
    rw [hn] at hdigits
    have hpos : n ≠ 0 := by
      rintro rfl
      rw [Nat.digits_zero] at hdigits
      exact h.nonempty (by simpa using hdigits.symm)
    rw [numeral_of_ne_zero hpos, hdigits, List.map_reverse, List.reverse_reverse, hback]

theorem isNumeral_iff (hb : 1 < b) : IsNumeral glyph value b n s ↔ s = numeral glyph b n := by
  constructor
  · exact fun h => h.eq hvalue hb
  · rintro rfl
    exact isNumeral_numeral hvalue hb n

end Values

end SBoy28.Lib
