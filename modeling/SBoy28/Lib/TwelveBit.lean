import Mathlib.Tactic.Common
import Mathlib.Data.Nat.Notation

/-!
# Packed tables of 12-bit numbers

Two entries share three bytes: the first one has the low byte and the low half of the middle one,
the second one the rest. A 16-bit little-endian load at byte `c + c / 2` holds entry `c`, in its low
12 bits if `c` is even and in its high ones if it is odd.
-/

namespace SBoy28.Lib

/-- The byte with number `i` of the packed table. -/
def packed (t : ℕ → Fin 4096) (i : ℕ) : UInt8 :=
  let lo := (t (2 * (i / 3))).val
  let hi := (t (2 * (i / 3) + 1)).val
  if i % 3 = 0 then UInt8.ofNat (lo % 256)
  else if i % 3 = 1 then UInt8.ofNat (lo / 256 + 16 * (hi % 16))
  else UInt8.ofNat (hi / 16)

/-- The number in the two bytes that hold entry `c`. -/
def packedWord (t : ℕ → Fin 4096) (c : ℕ) : ℕ :=
  (packed t (c + c / 2)).toNat + 256 * (packed t (c + c / 2 + 1)).toNat

variable (t : ℕ → Fin 4096) {c : ℕ}

lemma packedWord_even (k : ℕ) :
    packedWord t (2 * k) = (t (2 * k)).val + 4096 * ((t (2 * k + 1)).val % 16) := by
  have hlo := (t (2 * k)).isLt
  have h0 : (2 * k + 2 * k / 2) = 3 * k := by omega
  have hd0 : 3 * k / 3 = k := by omega
  have hd1 : (3 * k + 1) / 3 = k := by omega
  have hm0 : 3 * k % 3 = 0 := by omega
  have hm1 : (3 * k + 1) % 3 = 1 := by omega
  simp only [packedWord, packed, h0, hd0, hd1, hm0, hm1, if_true, Nat.one_ne_zero, if_false,
    UInt8.toNat_ofNat']
  omega

lemma packedWord_odd (k : ℕ) :
    packedWord t (2 * k + 1) = 16 * (t (2 * k + 1)).val + (t (2 * k)).val / 256 := by
  have hlo := (t (2 * k)).isLt
  have hhi := (t (2 * k + 1)).isLt
  have h0 : 2 * k + 1 + (2 * k + 1) / 2 = 3 * k + 1 := by omega
  have hd1 : (3 * k + 1) / 3 = k := by omega
  have hd2 : (3 * k + 1 + 1) / 3 = k := by omega
  have hm1 : (3 * k + 1) % 3 = 1 := by omega
  have hm2 : (3 * k + 1 + 1) % 3 = 2 := by omega
  have h20 : ¬2 = 0 := by decide
  have h21 : ¬2 = 1 := by decide
  simp only [packedWord, packed, h0, hd1, hd2, hm1, hm2, Nat.one_ne_zero, h20, h21, if_true, if_false,
    UInt8.toNat_ofNat']
  omega

/-- Unpacking an even entry. -/
theorem packedWord_mod (hc : c % 2 = 0) : packedWord t c % 4096 = (t c).val := by
  obtain ⟨k, rfl⟩ : ∃ k, c = 2 * k := ⟨c / 2, by omega⟩
  have hlo := (t (2 * k)).isLt
  rw [packedWord_even]
  omega

/-- Unpacking an odd entry. -/
theorem packedWord_div (hc : c % 2 = 1) : packedWord t c / 16 = (t c).val := by
  obtain ⟨k, rfl⟩ : ∃ k, c = 2 * k + 1 := ⟨c / 2, by omega⟩
  have hlo := (t (2 * k)).isLt
  rw [packedWord_odd]
  omega

end SBoy28.Lib
