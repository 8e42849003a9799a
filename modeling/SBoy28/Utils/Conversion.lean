import Mathlib.Data.List.GetD
import SBoy28.Lib.Numerals
import SBoy28.Utils.Division

/-!
# Conversion to text

What a conversion leaves in the buffer is the numeral of the value: the first loop takes off the digits of the
value, the lowest first, and the second one turns them around.
-/

namespace SBoy28.Utils
open Lib

section Specification

def glyph (d : ℕ) : UInt8 := digits.getD d 0

def digitValue (c : UInt8) : ℕ := digits.idxOf c

/-- The string is in the buffer with a NUL behind it, and what follows is as it was. -/
def Leaves (w : Stores) (s : List UInt8) : Prop :=
  ∀ (buffer : ℕ → UInt8) (i : ℕ), storeAll buffer w.buffer i = if i ≤ s.length then s.getD i 0 else buffer i

/-- With enough fuel the conversion ends, without a store to its temporary from index `k` on, and leaves
behind the one numeral of `n` in base `b`. -/
structure Formats (run : ℕ → Option Stores) (k b n : ℕ) (s : List UInt8) : Prop where
  ends : ∃ w, (∃ fuel, ∀ more, fuel ≤ more → run more = some w) ∧ Below k w.temp ∧ Leaves w s
  numeral : ∀ t, IsNumeral glyph digitValue b n t ↔ t = s

end Specification

section Characters

lemma digitValue_glyph {d : ℕ} (hd : d < 16) : digitValue (glyph d) = d := by
  have hall : ∀ e : Fin 16, digitValue (glyph e) = e := by decide
  exact hall ⟨d, hd⟩

lemma glyph_ne_zero {d : ℕ} (hd : d < 16) : glyph d ≠ 0 := by
  have hall : ∀ e : Fin 16, glyph e ≠ 0 := by decide
  exact hall ⟨d, hd⟩

lemma decimal_glyph {d : ℕ} (hd : d < 10) : UInt8.ofNat (48 + d) = glyph d := by
  have hall : ∀ e : Fin 10, UInt8.ofNat (48 + e) = glyph e := by decide
  exact hall ⟨d, hd⟩

lemma hex_glyph {d : ℕ} (hd : d < 16) : digits[d]? = some (glyph d) := by
  have hall : ∀ e : Fin 16, digits[e.1]? = some (glyph e) := by decide
  exact hall ⟨d, hd⟩

end Characters

section Strings

lemma getD_append_nul (s : List UInt8) (i : ℕ) : (s ++ [0]).getD i 0 = s.getD i 0 := by
  by_cases hi : i < s.length
  · exact List.getD_append _ _ _ _ hi
  · rw [List.getD_append_right _ _ _ _ (by omega), List.getD_eq_default s _ (by omega)]
    cases i - s.length <;> rfl

lemma leaves_rowOf (temp : List (ℕ × UInt8)) (s : List UInt8) : Leaves ⟨temp, rowOf 0 (s ++ [0])⟩ s := by
  intro buffer i
  rw [storeAll_rowOf _ _ _ 0, List.length_append, List.length_singleton, Nat.sub_zero, getD_append_nul]
  by_cases hi : i ≤ s.length
  · rw [if_pos hi, if_pos (by omega)]
  · rw [if_neg hi, if_neg (by omega)]

end Strings

section Loops

variable {V : Type} [Zero V] [DecidableEq V]

/-- The digit and the rest are those of the value in base `b`. -/
structure TakesDigits (digit : V → Option UInt8) (rest : V → V) (toNat : V → ℕ) (b : ℕ) : Prop where
  zero : ∀ v, toNat v = 0 ↔ v = 0
  digit : ∀ v, digit v = some (glyph (toNat v % b))
  rest : ∀ v, toNat (rest v) = toNat v / b

variable {digit : V → Option UInt8} {rest : V → V} {toNat : V → ℕ} {b fuel : ℕ} {v : V}

/-- By induction on the digits that are left in the value. -/
lemma digitLoop_eq (h : TakesDigits digit rest toNat b) (hb : 1 < b) (i : ℕ) (stores : List (ℕ × UInt8))
    (hfuel : (Nat.digits b (toNat v)).length < fuel) :
    loop (digitStep digit rest) fuel (v, i, stores) =
      some (some (i + (Nat.digits b (toNat v)).length, stores ++ rowOf i ((Nat.digits b (toNat v)).map glyph))) := by
  induction fuel generalizing v i stores with
  | zero => omega
  | succ fuel ih =>
    by_cases hv : v = 0
    · have hleave : digitStep digit rest (v, i, stores) = .inr (some (i, stores)) := by
        simp only [digitStep, if_pos hv]
      rw [loop_succ_inr hleave, (h.zero v).mpr hv, Nat.digits_zero, List.length_nil, List.map_nil, rowOf,
        List.append_nil, Nat.add_zero]
    · have hgo : digitStep digit rest (v, i, stores) =
          .inl (rest v, i + 1, stores ++ [(i, glyph (toNat v % b))]) := by
        simp only [digitStep, if_neg hv, h.digit v]
      have hdigits := Nat.digits_eq_cons_digits_div hb (fun hz => hv ((h.zero v).mp hz))
      rw [hdigits, List.length_cons, ← h.rest v] at hfuel
      rw [loop_succ_inl hgo, ih (i + 1) _ (by omega), h.rest v, hdigits, List.length_cons, List.map_cons, rowOf,
        List.append_assoc, List.singleton_append, Nat.add_right_comm, Nat.add_assoc]

/-- The second loop writes the reverse of what it finds. -/
lemma reverseLoop_eq (temp : ℕ → UInt8) (s : List UInt8) (j : ℕ) (h : ∀ k < s.length, temp k = s.reverse.getD k 0) :
    reverseLoop temp s.length j = rowOf j (s ++ [0]) := by
  induction s generalizing j with
  | nil => rfl
  | cons c s ih =>
    have hlast : temp s.length = c := by
      rw [h s.length (by simp)]
      simp
    have hrest : ∀ k < s.length, temp k = s.reverse.getD k 0 := by
      intro k hk
      rw [h k (by rw [List.length_cons]; omega), List.reverse_cons, List.getD_append _ _ _ _ (by simpa using hk)]
    rw [List.length_cons, reverseLoop, ih (j + 1) hrest, hlast, List.cons_append, rowOf]

theorem convert_eq (h : TakesDigits digit rest toNat b) (hb : 1 < b) (temp : ℕ → UInt8)
    (hfuel : (Nat.digits b (toNat v)).length < fuel) :
    convert digit rest fuel temp v =
      some ⟨rowOf 0 ((Nat.digits b (toNat v)).map glyph), rowOf 0 (numeral glyph b (toNat v) ++ [0])⟩ := by
  unfold convert
  by_cases hv : v = 0
  · rw [if_pos hv, (h.zero v).mpr hv, Nat.digits_zero]
    rfl
  · have hnum : numeral glyph b (toNat v) = _ := numeral_of_ne_zero fun hz => hv ((h.zero v).mp hz)
    have hlength : (Nat.digits b (toNat v)).length = (numeral glyph b (toNat v)).length := by
      rw [hnum, List.length_reverse, List.length_map]
    rw [if_neg hv, digitLoop_eq h hb 0 [] hfuel]
    simp only [Nat.zero_add, List.nil_append]
    congr 2
    rw [hlength]
    apply reverseLoop_eq
    intro k hk
    rw [storeAll_rowOf _ _ _ 0, if_pos ⟨by omega, by rw [List.length_map]; omega⟩, hnum, List.reverse_reverse,
      Nat.sub_zero]

/-- A conversion in a base up to 16, of a value with at most `k` digits. -/
theorem convert_formats (h : TakesDigits digit rest toNat b) (hb : 1 < b) (hmax : b ≤ 16) {k : ℕ}
    (hk : toNat v < b ^ k) (temp : ℕ → UInt8) :
    Formats (fun fuel => convert digit rest fuel temp v) k b (toNat v) (numeral glyph b (toNat v)) where
  ends := by
    refine ⟨_, ⟨(Nat.digits b (toNat v)).length + 1, fun more hmore => convert_eq h hb temp hmore⟩, ?_, ?_⟩
    · have hlength := (Nat.digits_length_le_iff hb (toNat v)).mpr hk
      apply below_rowOf
      rw [List.length_map]
      omega
    · exact leaves_rowOf _ _
  numeral t := isNumeral_iff (fun d hd => digitValue_glyph (by omega)) hb

end Loops

section Conversions

lemma takesDigits_uint32ToStr : TakesDigits (fun value : UInt32 => some (48 + value % 10).toUInt8)
    (fun value => value / 10) UInt32.toNat 10 where
  zero _ := UInt32.toNat_inj (b := 0)
  digit v := by
    have hlt : v.toNat % 10 < 10 := Nat.mod_lt _ (by omega)
    rw [← decimal_glyph hlt, Option.some_inj, ← UInt8.toNat_inj]
    simp [UInt32.toNat_mod]
  rest v := UInt32.toNat_div v 10

lemma takesDigits_uint64ToStr : TakesDigits (fun value => some (48 + u64Mod value 10).toUInt8)
    (fun value => u64Div value 10) UInt64.toNat 10 where
  zero _ := UInt64.toNat_inj (b := 0)
  digit v := by
    have hlt : v.toNat % 10 < 10 := Nat.mod_lt _ (by omega)
    rw [u64Mod_eq (by decide) (by decide), ← decimal_glyph hlt, Option.some_inj, ← UInt8.toNat_inj]
    simp [UInt64.toNat_mod]
  rest v := by
    rw [u64Div_eq (by decide) (by decide)]
    exact UInt64.toNat_div v 10

variable {base : Int32}

lemma base_toNat (hb : 2 ≤ base.toInt) : base.toUInt32.toNat = base.toInt.toNat := by
  apply Int32.toNat_toUInt32_of_le
  rw [Int32.le_iff_toInt_le]
  exact le_trans (by decide) hb

lemma takesDigits_itoa (hb : 2 ≤ base.toInt) (hmax : base.toInt ≤ 16) :
    TakesDigits (fun num => if base.toUInt32 = 0 then none else digits[(num % base.toUInt32).toNat]?)
      (fun num => num / base.toUInt32) UInt32.toNat base.toInt.toNat where
  zero _ := UInt32.toNat_inj (b := 0)
  digit v := by
    have hbase := base_toNat hb
    have hne : base.toUInt32 ≠ 0 := by
      intro h
      rw [h] at hbase
      have hzero : (0 : UInt32).toNat = 0 := rfl
      omega
    have hlt : v.toNat % base.toInt.toNat < base.toInt.toNat := Nat.mod_lt _ (by omega)
    rw [if_neg hne, UInt32.toNat_mod, hbase, hex_glyph (by omega)]
  rest v := by rw [UInt32.toNat_div, base_toNat hb]

lemma itoa_ten (fuel : ℕ) (temp : ℕ → UInt8) (v : UInt32) : itoa fuel temp v 10 = uint32ToStr fuel temp v := by
  have hdigit : (fun num : UInt32 => if (10 : Int32).toUInt32 = 0 then none
      else digits[(num % (10 : Int32).toUInt32).toNat]?) = fun value => some (48 + value % 10).toUInt8 := by
    funext num
    have hten : 2 ≤ (10 : Int32).toInt ∧ (10 : Int32).toInt ≤ 16 := by decide
    rw [(takesDigits_itoa hten.1 hten.2).digit num, takesDigits_uint32ToStr.digit num]
    rfl
  unfold itoa uint32ToStr
  rw [hdigit]
  rfl

/-- The same number is not left behind for two values. -/
lemma Formats.ne {run run' : ℕ → Option Stores} {k b n n' : ℕ} {s s' : List UInt8} (h : Formats run k b n s)
    (h' : Formats run' k b n' s') (hne : n ≠ n') : s ≠ s' := by
  rintro rfl
  apply hne
  rw [← ((h.numeral s).mpr rfl).evaluates, ((h'.numeral s).mpr rfl).evaluates]

end Conversions

section Results

theorem uint64_to_str_exact (n d : UInt64) (hd : 1 ≤ d.toNat) (hmax : d.toNat ≤ 2 ^ 63) :
    DividesExactly n d ∧ ∀ (value : UInt64) (temp : ℕ → UInt8),
      ∃ s, Formats (fun fuel => uint64ToStr fuel temp value) 21 10 value.toNat s := by
  refine ⟨dividesExactly hd hmax n, ?_⟩
  intro value temp
  have hlt : value.toNat < 10 ^ 21 := Nat.lt_trans value.toNat_lt (by decide)
  exact ⟨_, convert_formats takesDigits_uint64ToStr (by decide) (by decide) hlt temp⟩

theorem uint64_to_str_exact_seven : DividesExactly 7 2 ∧
    ∃ s, Formats (fun fuel => uint64ToStr fuel (fun _ => 0) 7) 21 10 7 s := by
  have hexact := uint64_to_str_exact 7 2 (by decide) (by decide)
  exact ⟨hexact.1, hexact.2 7 fun _ => 0⟩

/-- For every base the strings are the numerals, and in base ten both conversions leave the same one. -/
theorem itoa_exact (base : Int32) (hb : 2 ≤ base.toInt) (hmax : base.toInt ≤ 16) (temp : ℕ → UInt8) :
    (∀ v : UInt32, ∃ s, Formats (fun fuel => itoa fuel temp v base) 32 base.toInt.toNat v.toNat s) ∧
      (∀ (v v' : UInt32) (s s' : List UInt8), v ≠ v' →
        Formats (fun fuel => itoa fuel temp v base) 32 base.toInt.toNat v.toNat s →
          Formats (fun fuel => itoa fuel temp v' base) 32 base.toInt.toNat v'.toNat s' → s ≠ s') ∧
        ∀ v : UInt32, ∃ s, Formats (fun fuel => itoa fuel temp v 10) 32 10 v.toNat s ∧
          Formats (fun fuel => uint32ToStr fuel temp v) 10 10 v.toNat s := by
  refine ⟨?_, ?_, ?_⟩
  · intro v
    have hbase : 2 ≤ base.toInt.toNat := by omega
    have hlt : v.toNat < base.toInt.toNat ^ 32 := Nat.lt_of_lt_of_le v.toNat_lt (Nat.pow_le_pow_left hbase 32)
    exact ⟨_, convert_formats (takesDigits_itoa hb hmax) (by omega) (by omega) hlt temp⟩
  · intro v v' s s' hne h h'
    exact h.ne h' fun heq => hne (UInt32.toNat_inj.mp heq)
  · intro v
    have hlt : v.toNat < 10 ^ 10 := Nat.lt_trans v.toNat_lt (by decide)
    have hformats := convert_formats takesDigits_uint32ToStr (by decide) (by decide) hlt temp
    have hlt' : v.toNat < 10 ^ 32 := Nat.lt_trans v.toNat_lt (by decide)
    refine ⟨_, ?_, hformats⟩
    simp only [itoa_ten]
    exact convert_formats takesDigits_uint32ToStr (by decide) (by decide) hlt' temp

theorem itoa_exact_hex : ∃ s, Formats (fun fuel => itoa fuel (fun _ => 0) 255 16) 32 16 255 s :=
  (itoa_exact 16 (by decide) (by decide) fun _ => 0).1 255

end Results

end SBoy28.Utils
