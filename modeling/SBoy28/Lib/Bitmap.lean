import Mathlib.Data.Nat.Bitwise
import Mathlib.Algebra.Order.Ring.Nat
import Mathlib.Data.Finset.Card
import Mathlib.Data.Finset.Range
import Mathlib.Logic.Function.Basic

/-!
# Packed bitmaps

A set of numbers kept as 32-bit words, one bit for each number. The masks that code uses to
test, set and clear a bit act on the set, and a scan that skips full words finds the same clear
bit as a scan of all bits.
-/

namespace SBoy28.Lib

abbrev Bitmap := ℕ → UInt32

namespace Bitmap

/-- The number is in the set. -/
def mem (m : Bitmap) (n : ℕ) : Bool := (m (n / 32)).toNat.testBit (n % 32)

def test (m : Bitmap) (b : UInt32) : Bool := m (b / 32).toNat &&& (1 <<< (b % 32)) ≠ 0

def set (m : Bitmap) (b : UInt32) : Bitmap :=
  Function.update m (b / 32).toNat (m (b / 32).toNat ||| (1 <<< (b % 32)))

def unset (m : Bitmap) (b : UInt32) : Bitmap :=
  Function.update m (b / 32).toNat (m (b / 32).toNat &&& ~~~(1 <<< (b % 32)))

/-- The first clear bit below `limit`, by a scan of `words` words that skips full ones. -/
def scan (m : Bitmap) (words limit : ℕ) : Option ℕ :=
  (List.range words).findSome? fun i =>
    if m i ≠ 0xFFFFFFFF then
      ((List.range 32).find? fun j =>
        !m.test (UInt32.ofNat (i * 32 + j)) && decide (i * 32 + j < limit)).map (i * 32 + ·)
    else none

/-- The number of clear bits below `limit`. -/
def free (m : Bitmap) (limit : ℕ) : ℕ := ((Finset.range limit).filter (fun n => m.mem n = false)).card

end Bitmap

section Words

lemma toNat_mask (j : UInt32) : ((1 : UInt32) <<< (j % 32)).toNat = 2 ^ (j.toNat % 32) := by
  have hlt : j.toNat % 32 < 32 := Nat.mod_lt _ (by decide)
  have hpow : 2 ^ (j.toNat % 32) < 2 ^ 32 := Nat.pow_lt_pow_right (by decide) hlt
  have h1 : (1 : UInt32).toNat = 1 := rfl
  have h32 : (32 : UInt32).toNat = 32 := rfl
  rw [UInt32.toNat_shiftLeft, UInt32.toNat_mod, h1, h32, Nat.mod_mod, Nat.one_shiftLeft,
    Nat.mod_eq_of_lt hpow]

lemma and_mask_ne_zero (w j : UInt32) :
    w &&& (1 <<< (j % 32)) ≠ 0 ↔ w.toNat.testBit (j.toNat % 32) = true := by
  rw [ne_eq, ← UInt32.toNat_inj, UInt32.toNat_and, toNat_mask, Nat.and_two_pow]
  cases w.toNat.testBit (j.toNat % 32) <;> simp

lemma testBit_or_mask (w j : UInt32) (i : ℕ) :
    (w ||| (1 <<< (j % 32))).toNat.testBit i = (w.toNat.testBit i || decide (j.toNat % 32 = i)) := by
  rw [UInt32.toNat_or, toNat_mask, Nat.testBit_or, Nat.testBit_two_pow]

lemma testBit_and_not_mask (w j : UInt32) {i : ℕ} (hi : i < 32) :
    (w &&& ~~~(1 <<< (j % 32))).toNat.testBit i =
      (w.toNat.testBit i && !decide (j.toNat % 32 = i)) := by
  have hnot : (~~~((1 : UInt32) <<< (j % 32))).toNat = 2 ^ 32 - (2 ^ (j.toNat % 32) + 1) := by
    rw [UInt32.toNat_not, toNat_mask, UInt32.size]
    omega
  have hpow : 2 ^ (j.toNat % 32) < 2 ^ 32 :=
    Nat.pow_lt_pow_right (by decide) (Nat.mod_lt _ (by decide))
  rw [UInt32.toNat_and, hnot, Nat.testBit_and, Nat.testBit_two_pow_sub_succ hpow, Nat.testBit_two_pow]
  simp [hi]

lemma eq_full_iff (w : UInt32) : w = 0xFFFFFFFF ↔ ∀ i < 32, w.toNat.testBit i = true := by
  constructor
  · rintro rfl
    decide
  · intro h
    apply UInt32.toNat_inj.mp
    apply Nat.eq_of_testBit_eq
    intro i
    by_cases hi : i < 32
    · rw [h i hi]
      have hfull := Nat.testBit_two_pow_sub_one 32 i
      simp only [hi, decide_true] at hfull
      exact hfull.symm
    · have hlt := w.toNat_lt
      have hpow : 2 ^ 32 ≤ 2 ^ i := Nat.pow_le_pow_right (by decide) (by omega)
      rw [Nat.testBit_lt_two_pow (by omega), Nat.testBit_lt_two_pow]
      exact Nat.lt_of_lt_of_le (by decide) hpow

end Words

namespace Bitmap

variable (m : Bitmap) (b : UInt32)

lemma toNat_div : (b / 32).toNat = b.toNat / 32 := UInt32.toNat_div b 32

/-- The code's test of a bit is membership. -/
lemma test_eq : m.test b = m.mem b.toNat := by
  rw [Bool.eq_iff_iff, test, decide_eq_true_iff, and_mask_ne_zero, mem, toNat_div]

lemma mem_set (n : ℕ) : (m.set b).mem n = (m.mem n || decide (n = b.toNat)) := by
  simp only [mem, set, toNat_div]
  by_cases hw : n / 32 = b.toNat / 32
  · have heq : b.toNat % 32 = n % 32 ↔ n = b.toNat := by omega
    rw [hw, Function.update_self, testBit_or_mask]
    simp only [heq]
  · have hne : n ≠ b.toNat := fun he => hw (by rw [he])
    rw [Function.update_of_ne hw]
    simp [hne]

lemma mem_unset (n : ℕ) : (m.unset b).mem n = (m.mem n && !decide (n = b.toNat)) := by
  simp only [mem, unset, toNat_div]
  by_cases hw : n / 32 = b.toNat / 32
  · have heq : b.toNat % 32 = n % 32 ↔ n = b.toNat := by omega
    rw [hw, Function.update_self, testBit_and_not_mask _ _ (Nat.mod_lt _ (by decide))]
    simp only [heq]
  · have hne : n ≠ b.toNat := fun he => hw (by rw [he])
    rw [Function.update_of_ne hw]
    simp [hne]

lemma full_iff (i : ℕ) : m i = 0xFFFFFFFF ↔ ∀ n, n / 32 = i → m.mem n = true := by
  rw [eq_full_iff]
  constructor
  · intro h n hn
    rw [mem, hn]
    exact h _ (Nat.mod_lt _ (by decide))
  · intro h j hj
    have hmem := h (i * 32 + j) (by omega)
    rw [mem] at hmem
    have hdiv : (i * 32 + j) / 32 = i := by omega
    have hmod : (i * 32 + j) % 32 = j := by omega
    rwa [hdiv, hmod] at hmem

/-- The first index at which a search succeeds. -/
lemma findSome_range {α : Type*} {f : ℕ → Option α} {a : α} {i k : ℕ} (hi : i < k)
    (hf : f i = some a) (hleast : ∀ j < i, f j = none) : (List.range k).findSome? f = some a := by
  induction k with
  | zero => omega
  | succ k ih =>
    rw [List.range_succ, List.findSome?_append]
    by_cases hik : i < k
    · rw [ih hik]
      rfl
    · obtain rfl : i = k := by omega
      have hnone : (List.range i).findSome? f = none := by
        rw [List.findSome?_eq_none_iff]
        intro j hj
        exact hleast j (List.mem_range.mp hj)
      simp [hnone, hf]

/-- The scan that skips full words finds what a scan of all bits finds. -/
theorem scan_eq {words limit : ℕ} (hlimit : limit ≤ words * 32) (hwords : words * 32 ≤ 2 ^ 32) :
    m.scan words limit = (List.range limit).find? (fun n => !m.mem n) := by
  have htest : ∀ n, n < words * 32 → m.test (UInt32.ofNat n) = m.mem n := by
    intro n hn
    rw [test_eq, UInt32.toNat_ofNat', Nat.mod_eq_of_lt (by omega)]
  cases hfind : (List.range limit).find? (fun n => !m.mem n) with
  | none =>
    rw [List.find?_range_eq_none] at hfind
    rw [scan, List.findSome?_eq_none_iff]
    intro i hi
    rw [List.mem_range] at hi
    split
    · rw [Option.map_eq_none_iff, List.find?_range_eq_none]
      intro j hj
      rw [htest _ (by omega)]
      by_cases hlt : i * 32 + j < limit
      · simpa [hlt] using hfind _ hlt
      · simp [hlt]
    · rfl
  | some n =>
    rw [List.find?_range_eq_some] at hfind
    obtain ⟨hn, hlt, hleast⟩ := hfind
    rw [List.mem_range] at hlt
    have hmem : m.mem n = false := by simpa using hn
    have hfull : ∀ j, j < n / 32 → m j = 0xFFFFFFFF := by
      intro j hj
      rw [full_iff]
      intro k hk
      simpa using hleast k (by omega)
    have hopen : m (n / 32) ≠ 0xFFFFFFFF := by
      rw [ne_eq, full_iff]
      intro hall
      rw [hall n rfl] at hmem
      exact absurd hmem (by simp)
    apply findSome_range (i := n / 32) (by omega)
    · rw [if_pos hopen, Option.map_eq_some_iff]
      refine ⟨n % 32, ?_, by omega⟩
      have hsplit : n / 32 * 32 + n % 32 = n := by omega
      rw [List.find?_range_eq_some, hsplit, htest n (by omega), hmem]
      refine ⟨by simp [hlt], by simp [Nat.mod_lt], ?_⟩
      intro j hj
      rw [htest _ (by omega)]
      simp [show m.mem (n / 32 * 32 + j) = true by simpa using hleast _ (by omega)]
    · intro j hj
      rw [if_neg (by simpa using hfull j hj)]

section Counting

variable {m b} {limit : ℕ}

lemma free_set (hclear : m.mem b.toNat = false) (hlt : b.toNat < limit) :
    (m.set b).free limit + 1 = m.free limit := by
  have herase : (Finset.range limit).filter (fun n => (m.set b).mem n = false) =
      ((Finset.range limit).filter (fun n => m.mem n = false)).erase b.toNat := by
    ext n
    simp only [Finset.mem_filter, Finset.mem_erase, Finset.mem_range, mem_set]
    by_cases hn : n = b.toNat <;> simp [hn]
  rw [free, free, herase]
  apply Finset.card_erase_add_one
  simp [hclear, hlt]

lemma free_unset (hset : m.mem b.toNat = true) (hlt : b.toNat < limit) :
    (m.unset b).free limit = m.free limit + 1 := by
  have hinsert : (Finset.range limit).filter (fun n => (m.unset b).mem n = false) =
      insert b.toNat ((Finset.range limit).filter (fun n => m.mem n = false)) := by
    ext n
    simp only [Finset.mem_filter, Finset.mem_insert, Finset.mem_range, mem_unset]
    by_cases hn : n = b.toNat
    · simp [hn, hlt]
    · simp [hn]
  rw [free, free, hinsert, Finset.card_insert_of_notMem]
  simp [hset]

lemma free_le : m.free limit ≤ limit := by
  have hcard := Finset.card_filter_le (Finset.range limit) (fun n => m.mem n = false)
  rwa [Finset.card_range] at hcard

lemma free_eq_zero_iff : m.free limit = 0 ↔ ∀ n < limit, m.mem n = true := by
  rw [free, Finset.card_eq_zero, Finset.filter_eq_empty_iff]
  simp

end Counting

end Bitmap

end SBoy28.Lib
