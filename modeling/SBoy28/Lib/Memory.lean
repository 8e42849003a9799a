import Mathlib.Algebra.Group.Nat.Defs
import Mathlib.Data.Nat.Notation
import Mathlib.Tactic.Common

/-!
# Byte memory

A memory is a total function from addresses to bytes. This file defines the little-endian
loads and stores of a 32-bit machine and the bulk copy of a byte range, with the frame
lemmas that say which loads a store leaves alone, and gives the values of sums, products and
differences of 32-bit words when nothing overflows.
-/

namespace SBoy28.Lib

section Arithmetic

lemma toNat_add_of_lt {x y : UInt32} (h : x.toNat + y.toNat < 2 ^ 32) :
    (x + y).toNat = x.toNat + y.toNat := by
  rw [UInt32.toNat_add, Nat.mod_eq_of_lt h]

lemma toNat_mul_of_lt {x y : UInt32} (h : x.toNat * y.toNat < 2 ^ 32) :
    (x * y).toNat = x.toNat * y.toNat := by
  rw [UInt32.toNat_mul, Nat.mod_eq_of_lt h]

lemma toNat_sub_of_le {x y : UInt32} (h : y.toNat ≤ x.toNat) :
    (x - y).toNat = x.toNat - y.toNat :=
  UInt32.toNat_sub_of_le x y (UInt32.le_iff_toNat_le.mpr h)

lemma toNat_ofNat_of_lt {n : ℕ} (h : n < 2 ^ 32) : (UInt32.ofNat n).toNat = n := by
  rw [UInt32.toNat_ofNat', Nat.mod_eq_of_lt h]

lemma sub_sub_eq_sub_add (x y z : UInt32) : x - y - z = x - (y + z) := by
  rw [UInt32.sub_eq_add_neg, UInt32.sub_eq_add_neg, UInt32.sub_eq_add_neg, UInt32.neg_add,
    UInt32.sub_eq_add_neg, UInt32.add_assoc]

lemma and_or_distrib_right (x y z : UInt32) : (x ||| y) &&& z = (x &&& z) ||| (y &&& z) :=
  UInt32.toBitVec_inj.mp BitVec.and_or_distrib_right

end Arithmetic

/-- Byte-addressed memory. -/
abbrev Memory := ℕ → UInt8

/-- Byte `k` of a 32-bit word, least significant first. -/
def byteOf (v : UInt32) (k : ℕ) : UInt8 :=
  UInt8.ofNat (v.toNat / 256 ^ k)

def load16 (m : Memory) (a : ℕ) : UInt16 :=
  UInt16.ofNat ((m a).toNat + 256 * (m (a + 1)).toNat)

def load32 (m : Memory) (a : ℕ) : UInt32 :=
  UInt32.ofNat ((m a).toNat + 256 * (m (a + 1)).toNat + 65536 * (m (a + 2)).toNat +
    16777216 * (m (a + 3)).toNat)

def store8 (m : Memory) (a : ℕ) (b : UInt8) : Memory :=
  fun i => if i = a then b else m i

def store16 (m : Memory) (a : ℕ) (v : UInt16) : Memory :=
  fun i => if a ≤ i ∧ i < a + 2 then byteOf v.toUInt32 (i - a) else m i

def store32 (m : Memory) (a : ℕ) (v : UInt32) : Memory :=
  fun i => if a ≤ i ∧ i < a + 4 then byteOf v (i - a) else m i

/-- `memcpy` of `n` bytes of `src`, read from its start, to address `a`. -/
def copyTo (m : Memory) (a : ℕ) (src : Memory) (n : ℕ) : Memory :=
  fun i => if a ≤ i ∧ i < a + n then src (i - a) else m i

/-- The memory seen from a pointer `a` on. -/
def shift (m : Memory) (a : ℕ) : Memory :=
  fun i => m (a + i)

@[simp] lemma shift_apply (m : Memory) (a i : ℕ) : shift m a i = m (a + i) := rfl

@[simp] lemma shift_zero (m : Memory) : shift m 0 = m := by
  funext i
  rw [shift_apply, Nat.zero_add]

lemma shift_shift (m : Memory) (a b : ℕ) : shift (shift m a) b = shift m (a + b) := by
  funext i
  rw [shift_apply, shift_apply, shift_apply, Nat.add_assoc]

lemma load32_toNat (m : Memory) (a : ℕ) :
    (load32 m a).toNat = (m a).toNat + 256 * (m (a + 1)).toNat + 65536 * (m (a + 2)).toNat +
      16777216 * (m (a + 3)).toNat := by
  have h0 := (m a).toNat_lt
  have h1 := (m (a + 1)).toNat_lt
  have h2 := (m (a + 2)).toNat_lt
  have h3 := (m (a + 3)).toNat_lt
  simp only [load32, UInt32.toNat_ofNat']
  omega

lemma load16_toNat (m : Memory) (a : ℕ) :
    (load16 m a).toNat = (m a).toNat + 256 * (m (a + 1)).toNat := by
  have h0 := (m a).toNat_lt
  have h1 := (m (a + 1)).toNat_lt
  simp only [load16, UInt16.toNat_ofNat']
  omega

lemma byteOf_toNat (v : UInt32) (k : ℕ) : (byteOf v k).toNat = v.toNat / 256 ^ k % 256 := by
  simp [byteOf]

lemma load32_congr {m m' : Memory} {a a' : ℕ} (h : ∀ i, i < 4 → m (a + i) = m' (a' + i)) :
    load32 m a = load32 m' a' := by
  have h0 := h 0 (by omega)
  have h1 := h 1 (by omega)
  have h2 := h 2 (by omega)
  have h3 := h 3 (by omega)
  simp only [Nat.add_zero] at h0
  simp only [load32, h0, h1, h2, h3]

lemma load16_congr {m m' : Memory} {a a' : ℕ} (h : ∀ i, i < 2 → m (a + i) = m' (a' + i)) :
    load16 m a = load16 m' a' := by
  have h0 := h 0 (by omega)
  have h1 := h 1 (by omega)
  simp only [Nat.add_zero] at h0
  simp only [load16, h0, h1]

lemma load32_frame (m : Memory) {m' : Memory} (a : ℕ)
    (h : ∀ i, a ≤ i → i < a + 4 → m' i = m i) : load32 m' a = load32 m a :=
  load32_congr fun i hi => h _ (by omega) (by omega)

@[simp] lemma store8_same (m : Memory) (a : ℕ) (b : UInt8) : store8 m a b a = b := by
  simp [store8]

lemma store8_other (m : Memory) {a i : ℕ} (b : UInt8) (h : i ≠ a) : store8 m a b i = m i := by
  simp [store8, h]

lemma store16_outside (m : Memory) {a i : ℕ} (v : UInt16) (h : i < a ∨ a + 2 ≤ i) :
    store16 m a v i = m i := by
  simp only [store16]
  rw [if_neg (by omega)]

lemma store32_outside (m : Memory) {a i : ℕ} (v : UInt32) (h : i < a ∨ a + 4 ≤ i) :
    store32 m a v i = m i := by
  simp only [store32]
  rw [if_neg (by omega)]

lemma store32_inside (m : Memory) (a k : ℕ) (v : UInt32) (h : k < 4) :
    store32 m a v (a + k) = byteOf v k := by
  simp only [store32]
  rw [if_pos (by omega), Nat.add_sub_cancel_left]

lemma store16_inside (m : Memory) (a k : ℕ) (v : UInt16) (h : k < 2) :
    store16 m a v (a + k) = byteOf v.toUInt32 k := by
  simp only [store16]
  rw [if_pos (by omega), Nat.add_sub_cancel_left]

lemma copyTo_inside (m src : Memory) (a n i : ℕ) (h : i < n) : copyTo m a src n (a + i) = src i := by
  simp only [copyTo]
  rw [if_pos (by omega), Nat.add_sub_cancel_left]

lemma copyTo_outside (m src : Memory) {a n i : ℕ} (h : i < a ∨ a + n ≤ i) :
    copyTo m a src n i = m i := by
  simp only [copyTo]
  rw [if_neg (by omega)]

@[simp] lemma copyTo_zero (m src : Memory) (a : ℕ) : copyTo m a src 0 = m := by
  funext i
  exact copyTo_outside m src (by omega)

lemma copyTo_congr (m : Memory) {src src' : Memory} (a : ℕ) {n : ℕ}
    (h : ∀ i, i < n → src i = src' i) : copyTo m a src n = copyTo m a src' n := by
  funext i
  by_cases hi : a ≤ i ∧ i < a + n
  · simp only [copyTo, if_pos hi]
    exact h _ (by omega)
  · simp only [copyTo, if_neg hi]

lemma copyTo_at {m m' : Memory} (src : Memory) (a n : ℕ) {i : ℕ} (h : m' i = m i) :
    copyTo m' a src n i = copyTo m a src n i := by
  simp only [copyTo, h]

/-- A copy in two parts. -/
theorem copyTo_append (m src : Memory) (a k n : ℕ) :
    copyTo (copyTo m a src k) (a + k) (shift src k) n = copyTo m a src (k + n) := by
  funext i
  by_cases hhi : a + k ≤ i ∧ i < a + k + n
  · rw [copyTo, if_pos hhi, copyTo, if_pos (by omega), shift_apply]
    congr 1
    omega
  · rw [copyTo, if_neg hhi]
    by_cases hlo : a ≤ i ∧ i < a + k
    · rw [copyTo, if_pos hlo, copyTo, if_pos (by omega)]
    · rw [copyTo, if_neg hlo, copyTo, if_neg (by omega)]

/-- A word reads back as it was stored. -/
@[simp] theorem load32_store32 (m : Memory) (a : ℕ) (v : UInt32) :
    load32 (store32 m a v) a = v := by
  have hv := v.toNat_lt
  have h0 := store32_inside m a 0 v (by omega)
  have h1 := store32_inside m a 1 v (by omega)
  have h2 := store32_inside m a 2 v (by omega)
  have h3 := store32_inside m a 3 v (by omega)
  rw [Nat.add_zero] at h0
  apply UInt32.toNat_inj.mp
  rw [load32_toNat, h0, h1, h2, h3]
  simp only [byteOf_toNat]
  omega

@[simp] theorem load16_store16 (m : Memory) (a : ℕ) (v : UInt16) :
    load16 (store16 m a v) a = v := by
  have hv := v.toNat_lt
  have h0 := store16_inside m a 0 v (by omega)
  have h1 := store16_inside m a 1 v (by omega)
  rw [Nat.add_zero] at h0
  apply UInt16.toNat_inj.mp
  rw [load16_toNat, h0, h1]
  simp only [byteOf_toNat, UInt16.toNat_toUInt32]
  omega

lemma load32_store32_other (m : Memory) {a b : ℕ} (v : UInt32) (h : b + 4 ≤ a ∨ a + 4 ≤ b) :
    load32 (store32 m a v) b = load32 m b :=
  load32_congr fun i hi => store32_outside m v (by omega)

lemma load32_store8_other (m : Memory) {a b : ℕ} (v : UInt8) (h : b + 4 ≤ a ∨ a < b) :
    load32 (store8 m a v) b = load32 m b :=
  load32_congr fun i hi => store8_other m v (by omega)

lemma load32_store16_other (m : Memory) {a b : ℕ} (v : UInt16) (h : b + 4 ≤ a ∨ a + 2 ≤ b) :
    load32 (store16 m a v) b = load32 m b :=
  load32_congr fun i hi => store16_outside m v (by omega)

lemma load16_store16_other (m : Memory) {a b : ℕ} (v : UInt16) (h : b + 2 ≤ a ∨ a + 2 ≤ b) :
    load16 (store16 m a v) b = load16 m b :=
  load16_congr fun i hi => store16_outside m v (by omega)

/-- A block written back after a change of `n` bytes at `off` changes those bytes only. -/
theorem copyTo_modified (m src : Memory) {a off n b : ℕ} (hb : off + n ≤ b)
    (h : ∀ i, i < b → i < off ∨ off + n ≤ i → src i = m (a + i)) :
    copyTo m a src b = copyTo m (a + off) (shift src off) n := by
  funext x
  by_cases hx : a ≤ x ∧ x < a + b
  · by_cases hin : a + off ≤ x ∧ x < a + off + n
    · simp only [copyTo, if_pos hx, if_pos hin, shift_apply]
      congr 1
      omega
    · simp only [copyTo, if_pos hx, if_neg hin]
      rw [h (x - a) (by omega) (by omega)]
      congr 1
      omega
  · have hin : ¬(a + off ≤ x ∧ x < a + off + n) := by omega
    simp only [copyTo, if_neg hx, if_neg hin]

lemma copyTo_store32 (m src : Memory) (a off : ℕ) (v : UInt32) :
    copyTo m a (shift (store32 src off v) off) 4 = store32 m a v := by
  funext x
  by_cases hx : a ≤ x ∧ x < a + 4
  · simp only [copyTo, store32, if_pos hx, shift_apply]
    rw [if_pos (by omega), Nat.add_sub_cancel_left]
  · simp only [copyTo, store32, if_neg hx]

lemma byteOf_load32 (m : Memory) (a : ℕ) {k : ℕ} (h : k < 4) : byteOf (load32 m a) k = m (a + k) := by
  have h0 := (m a).toNat_lt
  have h1 := (m (a + 1)).toNat_lt
  have h2 := (m (a + 2)).toNat_lt
  have h3 := (m (a + 3)).toNat_lt
  apply UInt8.toNat_inj.mp
  rw [byteOf_toNat, load32_toNat]
  obtain rfl | rfl | rfl | rfl : k = 0 ∨ k = 1 ∨ k = 2 ∨ k = 3 := by omega
  · simp only [Nat.add_zero, Nat.pow_zero]
    omega
  · omega
  · omega
  · omega

end SBoy28.Lib
