import SBoy28.Lib.Division
import SBoy28.Utils.Model

/-!
# Division of 64-bit values

With a divisor of at most `2 ^ 63` the remainder of every round is below `2 ^ 63`, so that its shift loses no
bit, and the loops of `u64_div` and `u64_mod` are restoring division.
-/

namespace SBoy28.Utils
open Lib

section Specification

/-- The shift that a round begins with keeps all bits of the remainder. -/
def KeepsCarry (n : UInt64) (i : ℕ) (r : UInt64) : Prop :=
  (shiftedRest n i r).toNat = 2 * r.toNat + n.toNat / 2 ^ i % 2

structure DividesExactly (n d : UInt64) : Prop where
  quotient : u64Div n d = n / d
  rest : u64Mod n d = n % d
  divCarry : ∀ t ∈ roundsDown (u64DivRound n d) 64 (0, 0), KeepsCarry n t.1 t.2.2
  modCarry : ∀ t ∈ roundsDown (u64ModRound n d) 64 0, KeepsCarry n t.1 t.2

end Specification

variable {n d q r : UInt64} {i : ℕ}

section Words

lemma index_toNat (hi : i < 64) : i.toUInt64.toNat % 64 = i := by
  have hword : i % 2 ^ 64 = i := Nat.mod_eq_of_lt (by omega)
  rw [Nat.toUInt64_eq, UInt64.toNat_ofNat', hword, Nat.mod_eq_of_lt hi]

lemma bit_toNat (n : UInt64) (hi : i < 64) : ((n >>> i.toUInt64) &&& 1).toNat = n.toNat / 2 ^ i % 2 := by
  rw [UInt64.toNat_and, UInt64.toNat_shiftRight, index_toNat hi, Nat.shiftRight_eq_div_pow]
  exact Nat.and_one_is_mod _

lemma shiftedRest_toNat (hi : i < 64) (hr : r.toNat < 2 ^ 63) :
    (shiftedRest n i r).toNat = shiftIn n.toNat i r.toNat := by
  have hbit : n.toNat / 2 ^ i % 2 < 2 ^ 1 := Nat.mod_lt _ (by omega)
  have hshift : (r <<< 1).toNat = r.toNat <<< 1 := by
    rw [UInt64.toNat_shiftLeft]
    apply Nat.mod_eq_of_lt
    have hdouble : r.toNat <<< ((1 : UInt64).toNat % 64) = r.toNat * 2 := Nat.shiftLeft_eq _ _
    omega
  rw [shiftedRest, UInt64.toNat_or, bit_toNat n hi, hshift, ← Nat.shiftLeft_add_eq_or_of_lt hbit, Nat.shiftLeft_eq,
    shiftIn]
  omega

lemma power_toNat (hi : i < 64) : ((1 : UInt64) <<< i.toUInt64).toNat = 2 ^ i := by
  have hlt : 2 ^ i < 2 ^ 64 := Nat.pow_lt_pow_right (by omega) hi
  rw [UInt64.toNat_shiftLeft, index_toNat hi]
  exact (Nat.mod_eq_of_lt (by rwa [UInt64.toNat_one, Nat.one_shiftLeft])).trans (Nat.one_shiftLeft i)

/-- Setting a bit below all that are set. -/
lemma setBit_toNat (hi : i < 64) {k : ℕ} (hq : q.toNat = k * 2 ^ (i + 1)) :
    (q ||| ((1 : UInt64) <<< i.toUInt64)).toNat = (2 * k + 1) * 2 ^ i := by
  have hlt : 2 ^ i < 2 ^ (i + 1) := Nat.pow_lt_pow_right (by omega) (by omega)
  rw [UInt64.toNat_or, power_toNat hi, hq, ← Nat.shiftLeft_eq, ← Nat.shiftLeft_add_eq_or_of_lt hlt, Nat.shiftLeft_eq]
  ring

end Words

section Rounds

/-- The rounds from `i` on are done. -/
structure DivInv (n d : UInt64) (i : ℕ) (s : UInt64 × UInt64) : Prop where
  index : i ≤ 64
  divided : ∃ k, s.1.toNat = k * 2 ^ i ∧ Divided n.toNat d.toNat i k s.2.toNat

structure ModInv (n d : UInt64) (i : ℕ) (r : UInt64) : Prop where
  index : i ≤ 64
  divided : ∃ k, Divided n.toNat d.toNat i k r.toNat

lemma DivInv.modInv {s : UInt64 × UInt64} (h : DivInv n d i s) : ModInv n d i s.2 := by
  obtain ⟨k, -, hk⟩ := h.divided
  exact ⟨h.index, k, hk⟩

lemma ModInv.lt (hmax : d.toNat ≤ 2 ^ 63) (h : ModInv n d i r) : r.toNat < 2 ^ 63 := by
  obtain ⟨k, hk⟩ := h.divided
  exact Nat.lt_of_lt_of_le hk.rest hmax

lemma ModInv.shifted (hmax : d.toNat ≤ 2 ^ 63) (h : ModInv n d (i + 1) r) :
    (shiftedRest n i r).toNat = shiftIn n.toNat i r.toNat := by
  have hi := h.index
  exact shiftedRest_toNat (by omega) (h.lt hmax)

lemma u64DivRound_inv (hmax : d.toNat ≤ 2 ^ 63) (i : ℕ) (s : UInt64 × UInt64) (h : DivInv n d (i + 1) s) :
    DivInv n d i (u64DivRound n d i s) := by
  have hshift := h.modInv.shifted hmax
  have hi := h.index
  obtain ⟨k, hq, hk⟩ := h.divided
  refine ⟨by omega, ?_⟩
  unfold u64DivRound
  by_cases hle : d ≤ shiftedRest n i s.2
  · have hle' := UInt64.le_iff_toNat_le.mp hle
    rw [hshift] at hle'
    simp only [hle, if_true]
    refine ⟨2 * k + 1, setBit_toNat (by omega) hq, ?_⟩
    rw [UInt64.toNat_sub_of_le _ _ hle, hshift]
    exact hk.subtract hle'
  · simp only [hle, if_false]
    refine ⟨2 * k, by rw [hq]; ring, ?_⟩
    have hlt := UInt64.lt_iff_toNat_lt.mp (UInt64.not_le.mp hle)
    rw [hshift] at hlt ⊢
    exact hk.keep hlt

lemma u64ModRound_inv (hmax : d.toNat ≤ 2 ^ 63) (i : ℕ) (r : UInt64) (h : ModInv n d (i + 1) r) :
    ModInv n d i (u64ModRound n d i r) := by
  have hshift := h.shifted hmax
  have hi := h.index
  obtain ⟨k, hk⟩ := h.divided
  refine ⟨by omega, ?_⟩
  unfold u64ModRound
  by_cases hle : d ≤ shiftedRest n i r
  · have hle' := UInt64.le_iff_toNat_le.mp hle
    simp only [hle, if_true, UInt64.toNat_sub_of_le _ _ hle]
    rw [hshift] at hle' ⊢
    exact ⟨_, hk.subtract hle'⟩
  · have hlt := UInt64.lt_iff_toNat_lt.mp (UInt64.not_le.mp hle)
    simp only [hle, if_false]
    rw [hshift] at hlt ⊢
    exact ⟨_, hk.keep hlt⟩

end Rounds

section Loops

variable (hd : 1 ≤ d.toNat) (hmax : d.toNat ≤ 2 ^ 63)
include hd hmax

lemma divRounds (n : UInt64) : DivInv n d 0 (forDown (u64DivRound n d) 64 (0, 0)) ∧
    ∀ t ∈ roundsDown (u64DivRound n d) 64 (0, 0), DivInv n d (t.1 + 1) t.2 := by
  apply forDown_inv (u64DivRound_inv hmax)
  exact ⟨le_rfl, 0, rfl, Divided.start n.toNat_lt hd⟩

lemma modRounds (n : UInt64) : ModInv n d 0 (forDown (u64ModRound n d) 64 0) ∧
    ∀ t ∈ roundsDown (u64ModRound n d) 64 0, ModInv n d (t.1 + 1) t.2 := by
  apply forDown_inv (u64ModRound_inv hmax)
  exact ⟨le_rfl, 0, Divided.start n.toNat_lt hd⟩

lemma u64Div_eq (n : UInt64) : u64Div n d = n / d := by
  obtain ⟨k, hq, hk⟩ := (divRounds hd hmax n).1.divided
  apply UInt64.toNat_inj.mp
  rw [UInt64.toNat_div, ← hk.finish.1, u64Div, hq, Nat.pow_zero, Nat.mul_one]

lemma u64Mod_eq (n : UInt64) : u64Mod n d = n % d := by
  obtain ⟨k, hk⟩ := (modRounds hd hmax n).1.divided
  apply UInt64.toNat_inj.mp
  rw [UInt64.toNat_mod, ← hk.finish.2, u64Mod]

lemma dividesExactly (n : UInt64) : DividesExactly n d where
  quotient := u64Div_eq hd hmax n
  rest := u64Mod_eq hd hmax n
  divCarry t ht := ((divRounds hd hmax n).2 t ht).modInv.shifted hmax
  modCarry t ht := ((modRounds hd hmax n).2 t ht).shifted hmax

end Loops

end SBoy28.Utils
