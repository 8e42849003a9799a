import SBoy28.Lib.Memory
import SBoy28.Utils.Conversion

/-!
# Printing of signed numbers

`print_int` negates a negative number before it is converted, and that is right for every number, because the
conversion takes the result as unsigned. `digit_count` goes on with the negated number as a signed one, and the
smallest number is its own negation: for it the loop is not entered at all.
-/

namespace SBoy28.Utils
open Lib

section Specification

/-- The numeral of a number, after a minus sign when it is negative. -/
def IsSigned (n : ℤ) (s : List UInt8) : Prop :=
  ∃ t, IsNumeral glyph digitValue 10 n.natAbs t ∧ s = if n < 0 then 45 :: t else t

/-- With enough fuel the numeral is sent, and its width is what `digit_count` says. -/
def PrintsAndCounts (temp strNum : ℕ → UInt8) (num : Int32) : Prop :=
  ∃ sent count, (∃ fuel, ∀ more, fuel ≤ more →
    printInt more temp strNum num = some sent ∧ digitCount more num = some count) ∧
      IsSigned num.toInt sent ∧ count.toNat = sent.length

end Specification

variable {temp strNum : ℕ → UInt8} {num : Int32} {fuel : ℕ}

section Magnitude

lemma neg_iff : num < 0 ↔ num.toInt < 0 := Int32.lt_iff_toInt_lt

/-- As an unsigned number the negation is the magnitude, of the smallest number too. -/
lemma neg_toUInt32 (h : num < 0) : (-num).toUInt32.toNat = num.toInt.natAbs := by
  have hneg : num.toInt < 0 := neg_iff.mp h
  have hsigned : num.toInt = if 2 * num.toUInt32.toNat < 2 ^ 32 then (num.toUInt32.toNat : ℤ)
      else (num.toUInt32.toNat : ℤ) - (2 ^ 32 : ℕ) := BitVec.toInt_eq_toNat_cond _
  have hlt := num.toUInt32.toNat_lt
  have hsize : UInt32.size = 2 ^ 32 := rfl
  rw [Int32.toUInt32_neg, UInt32.toNat_neg, hsize]
  split at hsigned <;> omega

lemma nonneg_toUInt32 (h : ¬num < 0) : num.toUInt32.toNat = num.toInt.natAbs := by
  have hle : 0 ≤ num.toInt := not_lt.mp fun hlt => h (neg_iff.mpr hlt)
  rw [Int32.toNat_toUInt32_of_le (Int32.le_iff_toInt_le.mpr hle), ← Int32.toNat_toInt]
  omega

lemma neg_toInt (hmin : num ≠ Int32.minValue) : (-num).toInt = -num.toInt := by
  have hne : num.toInt ≠ -2 ^ 31 := fun h => hmin (Int32.toInt_inj.mp h)
  have hle := num.le_toInt
  have hlt := num.toInt_lt
  rw [Int32.toInt_neg]
  apply Int.bmod_eq_of_le <;> omega

end Magnitude

section Sending

def signed (n : ℤ) : List UInt8 := if n < 0 then 45 :: numeral glyph 10 n.natAbs else numeral glyph 10 n.natAbs

lemma ttyPutstring_eq (str : ℕ → UInt8) (s : List UInt8) (i : ℕ) (sent : List UInt8) (hs : (0 : UInt8) ∉ s)
    (h : ∀ k < s.length, str (i + k) = s.getD k 0) (hend : str (i + s.length) = 0) (hfuel : s.length < fuel) :
    loop (ttyPutstringStep str) fuel (i, sent) = some (sent ++ s) := by
  induction fuel generalizing s i sent with
  | zero => omega
  | succ fuel ih =>
    cases s with
    | nil =>
      have hleave : ttyPutstringStep str (i, sent) = .inr sent := by
        simp only [ttyPutstringStep, ne_eq, ite_not]
        exact if_pos hend
      rw [loop_succ_inr hleave, List.append_nil]
    | cons c s =>
      have hc : str i = c := h 0 (by simp)
      have hne : c ≠ 0 := fun hzero => hs (hzero ▸ List.mem_cons_self)
      have hgo : ttyPutstringStep str (i, sent) = .inl (i + 1, sent ++ [c]) := by
        simp only [ttyPutstringStep, hc, ne_eq, hne, not_false_eq_true, if_true]
      have hshift : ∀ k, i + 1 + k = i + (k + 1) := fun k => by omega
      rw [loop_succ_inl hgo, ih s (i + 1), List.append_assoc, List.singleton_append]
      · exact fun hmem => hs (List.mem_cons_of_mem c hmem)
      · intro k hk
        rw [hshift, h (k + 1) (by simpa using hk), List.getD_cons_succ]
      · rw [hshift]
        exact hend
      · simpa using hfuel

lemma zero_notMem_numeral (n : ℕ) : (0 : UInt8) ∉ numeral glyph 10 n := by
  intro hmem
  obtain ⟨d, hd, hzero⟩ := (isNumeral_numeral (fun d hd => digitValue_glyph (by omega)) (by omega) n).digits 0 hmem
  exact glyph_ne_zero (by omega) hzero.symm

/-- The string that a conversion leaves is sent as a whole. -/
lemma ttyPutstring_numeral (str : ℕ → UInt8) (n : ℕ) (sent : List UInt8)
    (hfuel : (numeral glyph 10 n).length < fuel) :
    loop (ttyPutstringStep (storeAll str (rowOf 0 (numeral glyph 10 n ++ [0])))) fuel (0, sent) =
      some (sent ++ numeral glyph 10 n) := by
  have hleaves := leaves_rowOf [] (numeral glyph 10 n) str
  apply ttyPutstring_eq _ _ _ _ (zero_notMem_numeral n) _ _ hfuel
  · intro k hk
    rw [hleaves, if_pos (by omega), Nat.zero_add]
  · rw [hleaves, if_pos (by omega), Nat.zero_add, List.getD_eq_default _ _ le_rfl]

lemma length_digits (num : Int32) : (Nat.digits 10 num.toInt.natAbs).length ≤ 10 := by
  apply (Nat.digits_length_le_iff (by omega) _).mpr
  have hle := num.le_toInt
  have hlt := num.toInt_lt
  omega

lemma length_numeral_of_ne_zero {n : ℕ} (hn : n ≠ 0) : (numeral glyph 10 n).length = (Nat.digits 10 n).length := by
  rw [numeral_of_ne_zero hn, List.length_reverse, List.length_map]

lemma length_numeral_natAbs (num : Int32) : (numeral glyph 10 num.toInt.natAbs).length ≤ 10 := by
  have hle := num.le_toInt
  have hlt := num.toInt_lt
  apply length_numeral <;> omega

lemma printInt_eq (temp strNum : ℕ → UInt8) (num : Int32) (hfuel : 11 ≤ fuel) :
    printInt fuel temp strNum num = some (signed num.toInt) := by
  have hdigits := length_digits num
  have hlength : (numeral glyph 10 num.toInt.natAbs).length < fuel :=
    Nat.lt_of_le_of_lt (length_numeral_natAbs num) hfuel
  unfold printInt uint32ToStr signed
  by_cases h : num < 0
  · have hneg := neg_toUInt32 h
    rw [if_pos h, convert_eq takesDigits_uint32ToStr (by omega) temp (by rw [hneg]; omega), hneg,
      if_pos (neg_iff.mp h)]
    exact ttyPutstring_numeral strNum _ [45] hlength
  · have hpos := nonneg_toUInt32 h
    rw [if_neg h, convert_eq takesDigits_uint32ToStr (by omega) temp (by rw [hpos]; omega), hpos,
      if_neg fun hlt => h (neg_iff.mpr hlt)]
    exact ttyPutstring_numeral strNum _ [] hlength

lemma isSigned_iff (n : ℤ) (s : List UInt8) : IsSigned n s ↔ s = signed n := by
  have hnumeral : ∀ t, IsNumeral glyph digitValue 10 n.natAbs t ↔ t = numeral glyph 10 n.natAbs :=
    fun t => isNumeral_iff (fun d hd => digitValue_glyph (by omega)) (by omega)
  simp only [IsSigned, hnumeral, exists_eq_left, signed]

end Sending

section Counting

lemma countLoop_eq (num : Int32) (count : UInt32) (hnum : 0 ≤ num.toInt)
    (hfuel : (Nat.digits 10 num.toInt.natAbs).length < fuel) :
    loop countStep fuel (num, count) = some (count + UInt32.ofNat (Nat.digits 10 num.toInt.natAbs).length) := by
  induction fuel generalizing num count with
  | zero => omega
  | succ fuel ih =>
    by_cases hpos : 0 < num
    · have hlt : 0 < num.toInt := Int32.lt_iff_toInt_lt.mp hpos
      have hdiv : (num / 10).toInt = num.toInt.tdiv 10 := Int32.toInt_div_of_ne_right _ _ (by decide)
      rw [Int.tdiv_eq_ediv_of_nonneg hnum] at hdiv
      have hrest : (num / 10).toInt.natAbs = num.toInt.natAbs / 10 := by omega
      have hgo : countStep (num, count) = .inl (num / 10, count + 1) := if_pos hpos
      have hdigits := Nat.digits_eq_cons_digits_div (b := 10) (n := num.toInt.natAbs) (by omega) (by omega)
      rw [hdigits, List.length_cons] at hfuel
      rw [loop_succ_inl hgo, ih (num / 10) (count + 1) (by omega) (by rw [hrest]; omega), hrest, hdigits,
        List.length_cons, UInt32.ofNat_add, UInt32.add_assoc, UInt32.add_comm 1]
      rfl
    · have hzero : num.toInt = 0 := by
        have hle : num.toInt ≤ 0 := by simpa [Int32.lt_iff_toInt_lt] using hpos
        omega
      have hleave : countStep (num, count) = .inr count := if_neg hpos
      rw [loop_succ_inr hleave, hzero]
      simp

lemma digitCount_eq (hmin : num ≠ Int32.minValue) (hfuel : 11 ≤ fuel) :
    digitCount fuel num = some (UInt32.ofNat (signed num.toInt).length) := by
  have hdigits := length_digits num
  unfold digitCount signed
  by_cases hzero : num = 0
  · rw [if_pos hzero, hzero]
    rfl
  · have hne : num.toInt ≠ 0 := fun h => hzero (Int32.toInt_inj.mp h)
    have hlength := length_numeral_of_ne_zero (n := num.toInt.natAbs) (by omega)
    rw [if_neg hzero]
    by_cases hneg : num < 0
    · have hlt : num.toInt < 0 := neg_iff.mp hneg
      have hminus := neg_toInt hmin
      have habs : (-num).toInt.natAbs = num.toInt.natAbs := by omega
      rw [if_pos hneg, countLoop_eq _ 1 (by omega) (by rw [habs]; omega), habs, if_pos hlt, List.length_cons, hlength,
        UInt32.ofNat_add, UInt32.add_comm]
      rfl
    · have hle : ¬num.toInt < 0 := fun hlt => hneg (neg_iff.mpr hlt)
      rw [if_neg hneg, countLoop_eq _ 0 (by omega) (by omega), if_neg hle, hlength, UInt32.zero_add]

/-- The smallest number is its own negation, and the loop is not entered. -/
lemma digitCount_minValue (hfuel : 1 ≤ fuel) : digitCount fuel Int32.minValue = some 1 := by
  obtain ⟨fuel, rfl⟩ : ∃ k, fuel = k + 1 := ⟨fuel - 1, by omega⟩
  have hleave : countStep (-Int32.minValue, 1) = .inr 1 := by decide
  unfold digitCount
  rw [if_neg (by decide), if_pos (by decide), loop_succ_inr hleave]

end Counting

section Results

lemma printsAndCounts (temp strNum : ℕ → UInt8) (hmin : num ≠ Int32.minValue) :
    PrintsAndCounts temp strNum num := by
  have hruns : ∀ more, 11 ≤ more → printInt more temp strNum num = some _ ∧ digitCount more num = some _ :=
    fun more hmore => ⟨printInt_eq temp strNum num hmore, digitCount_eq hmin hmore⟩
  refine ⟨_, _, ⟨11, hruns⟩, (isSigned_iff _ _).mpr rfl, ?_⟩
  apply toNat_ofNat_of_lt
  have hlength := length_numeral_natAbs num
  unfold signed
  split
  · rw [List.length_cons]
    omega
  · omega

/-- One character is counted, and there are at least the sign and a digit. -/
lemma not_printsAndCounts_minValue (temp strNum : ℕ → UInt8) : ¬PrintsAndCounts temp strNum Int32.minValue := by
  rintro ⟨sent, count, ⟨fuel, hruns⟩, hsigned, hcount⟩
  have hone : some 1 = some count :=
    (digitCount_minValue (by omega)).symm.trans (hruns (fuel + 1) (by omega)).2
  have hmagnitude : Int32.minValue.toInt.natAbs ≠ 0 := by decide
  have hdigits : Nat.digits 10 Int32.minValue.toInt.natAbs ≠ [] := Nat.digits_ne_nil_iff_ne_zero.mpr hmagnitude
  have hpos := List.length_pos_iff.mpr hdigits
  rw [(isSigned_iff _ _).mp hsigned, signed, if_pos (by decide), ← Option.some_inj.mp hone, List.length_cons,
    length_numeral_of_ne_zero hmagnitude] at hcount
  have hcast : (1 : UInt32).toNat = 1 := rfl
  omega

theorem print_int_counted_iff (temp strNum : ℕ → UInt8) (num : Int32) :
    PrintsAndCounts temp strNum num ↔ num ≠ Int32.minValue := by
  constructor
  · rintro h rfl
    exact not_printsAndCounts_minValue temp strNum h
  · exact printsAndCounts temp strNum

theorem print_int_minValue : ¬PrintsAndCounts (fun _ => 0) (fun _ => 0) Int32.minValue :=
  not_printsAndCounts_minValue _ _

end Results

end SBoy28.Utils
