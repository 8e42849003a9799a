import SBoy28.Lib.Descriptors
import SBoy28.Interrupts.Stubs

/-!
# The descriptor tables

`gdt.c` and the first part of `idt.c`: the entries are written field by field into packed structures, and the
processor reads them byte by byte.
-/

namespace SBoy28.Interrupts
open Lib

section Model

/-- `gdt_set_gate`, in the table at the address `gdtEntries`. -/
def gdtSetGate (gdtEntries : UInt32) (m : Memory) (num : ℕ) (base limit : UInt32) (access gran : UInt8) : Memory :=
  let e := gdtEntries.toNat + 8 * num
  let m := store16 m (e + 2) (base &&& 0xFFFF).toUInt16
  let m := store8 m (e + 4) ((base >>> 16) &&& 0xFF).toUInt8
  let m := store8 m (e + 7) ((base >>> 24) &&& 0xFF).toUInt8
  let m := store16 m e (limit &&& 0xFFFF).toUInt16
  let m := store8 m (e + 6) ((limit >>> 16) &&& 0x0F).toUInt8
  let m := store8 m (e + 6) (m (e + 6) ||| (gran &&& 0xF0))
  store8 m (e + 5) access

/-- `init_gdt`, with the table register that `gdt_flush` loads. -/
def initGdt (gdtEntries : UInt32) (m : Memory) : TablePtr × Memory :=
  let m := gdtSetGate gdtEntries m 0 0 0 0 0
  let m := gdtSetGate gdtEntries m 1 0 0xFFFFFFFF 0x9A 0xCF
  let m := gdtSetGate gdtEntries m 2 0 0xFFFFFFFF 0x92 0xCF
  let m := gdtSetGate gdtEntries m 3 0 0xFFFFFFFF 0xFA 0xCF
  let m := gdtSetGate gdtEntries m 4 0 0xFFFFFFFF 0xF2 0xCF
  (⟨8 * 5 - 1, gdtEntries⟩, m)

/-- `idt_set_gate`. -/
def idtSetGate (idtEntries : UInt32) (m : Memory) (num : ℕ) (base : UInt32) (sel : UInt16) (flags : UInt8) : Memory :=
  let e := idtEntries.toNat + 8 * num
  let m := store16 m e (base &&& 0xFFFF).toUInt16
  let m := store16 m (e + 6) ((base >>> 16) &&& 0xFFFF).toUInt16
  let m := store16 m (e + 2) sel
  let m := store8 m (e + 4) 0
  store8 m (e + 5) flags

/-- `init_idt` without the ports: `stubs` are the addresses of `isr0` to `isr31` and of `irq0` to `irq15`. -/
def initIdt (idtEntries : UInt32) (stubs : ℕ → UInt32) (m : Memory) : TablePtr × Memory :=
  (⟨8 * 256 - 1, idtEntries⟩,
    (List.range 48).foldl (fun m v => idtSetGate idtEntries m v (stubs v) 0x08 0x8E)
      (copyTo m idtEntries.toNat (fun _ => 0) (8 * 256)))

end Model

section Words

variable {base limit : UInt32}

lemma low_half (base : UInt32) : (base &&& 0xFFFF).toUInt16.toNat = base.toNat % 65536 := by
  have hmask : (0xFFFF : UInt32).toNat = 2 ^ 16 - 1 := rfl
  rw [UInt32.toNat_toUInt16, UInt32.toNat_and, hmask, Nat.and_two_pow_sub_one_eq_mod]
  omega

lemma high_half (base : UInt32) : ((base >>> 16) &&& 0xFFFF).toUInt16.toNat = base.toNat / 65536 := by
  have hmask : (0xFFFF : UInt32).toNat = 2 ^ 16 - 1 := rfl
  have hshift : ((16 : UInt32).toNat % 32) = 16 := rfl
  have hlt := base.toNat_lt
  rw [UInt32.toNat_toUInt16, UInt32.toNat_and, hmask, Nat.and_two_pow_sub_one_eq_mod, UInt32.toNat_shiftRight, hshift,
    Nat.shiftRight_eq_div_pow]
  omega

/-- The byte of a base that is shifted by `k`. -/
lemma byte_at {k : UInt32} (hk : k.toNat < 32) (base : UInt32) :
    ((base >>> k) &&& 0xFF).toUInt8.toNat = base.toNat / 2 ^ k.toNat % 256 := by
  have hmask : (0xFF : UInt32).toNat = 2 ^ 8 - 1 := rfl
  rw [UInt32.toNat_toUInt8, UInt32.toNat_and, hmask, Nat.and_two_pow_sub_one_eq_mod, UInt32.toNat_shiftRight,
    Nat.mod_eq_of_lt hk, Nat.shiftRight_eq_div_pow]
  omega

end Words

section Gates

variable {e : UInt32} {m : Memory} {num : ℕ}

lemma idtSetGate_outside (base : UInt32) (sel : UInt16) (flags : UInt8) {i : ℕ}
    (hi : i < e.toNat + 8 * num ∨ e.toNat + 8 * num + 8 ≤ i) : idtSetGate e m num base sel flags i = m i := by
  simp only [idtSetGate]
  rw [store8_other _ _ (by omega), store8_other _ _ (by omega), store16_outside _ _ (by omega),
    store16_outside _ _ (by omega), store16_outside _ _ (by omega)]

lemma load16_store8_other (m : Memory) {a b : ℕ} (v : UInt8) (h : b + 2 ≤ a ∨ a < b) :
    load16 (store8 m a v) b = load16 m b :=
  load16_congr fun i hi => store8_other m v (by omega)

lemma gateAt_idtSetGate (base : UInt32) (sel : UInt16) (flags : UInt8) :
    gateAt (idtSetGate e m num base sel flags) (e.toNat + 8 * num) = ⟨base, sel, flags⟩ := by
  have hlt := base.toNat_lt
  have hlow := low_half base
  have hhigh := high_half base
  simp only [gateAt, idtSetGate]
  generalize e.toNat + 8 * num = a
  rw [Gate.mk.injEq]
  refine ⟨?_, ?_, store8_same _ _ _⟩
  · apply UInt32.toNat_inj.mp
    rw [load16_store8_other _ _ (by omega), load16_store8_other _ _ (by omega), load16_store16_other _ _ (by omega),
      load16_store16_other _ _ (by omega), load16_store16, load16_store8_other _ _ (by omega),
      load16_store8_other _ _ (by omega), load16_store16_other _ _ (by omega), load16_store16, hlow, hhigh,
      toNat_ofNat_of_lt (by omega)]
    omega
  · rw [load16_store8_other _ _ (by omega), load16_store8_other _ _ (by omega), load16_store16]

/-- The table after the calls for the vectors below `n`. -/
lemma gateAt_gates (stubs : ℕ → UInt32) (n v : ℕ) :
    gateAt ((List.range n).foldl (fun m v => idtSetGate e m v (stubs v) 0x08 0x8E) m) (e.toNat + 8 * v) =
      if v < n then ⟨stubs v, 0x08, 0x8E⟩ else gateAt m (e.toNat + 8 * v) := by
  induction n with
  | zero => rfl
  | succ n ih =>
    rw [List.range_succ, List.foldl_append, List.foldl_cons, List.foldl_nil]
    by_cases hv : v = n
    · rw [hv, gateAt_idtSetGate, if_pos (Nat.lt_succ_self n)]
    · rw [gateAt_congr fun i hi hlt => idtSetGate_outside (stubs n) 0x08 0x8E (by omega), ih]
      simp only [show v < n + 1 ↔ v < n by omega]

lemma gates_outside (stubs : ℕ → UInt32) (n : ℕ) {i : ℕ} (hi : i < e.toNat ∨ e.toNat + 8 * n ≤ i) :
    (List.range n).foldl (fun m v => idtSetGate e m v (stubs v) 0x08 0x8E) m i = m i := by
  induction n with
  | zero => rfl
  | succ n ih =>
    rw [List.range_succ, List.foldl_append, List.foldl_cons, List.foldl_nil, idtSetGate_outside _ _ _ (by omega)]
    exact ih (by omega)

/-- Behind the stubs the gates are those of a table of zeros. -/
lemma gateAt_initIdt (stubs : ℕ → UInt32) {v : ℕ} (hv : v < 256) :
    gateAt (initIdt e stubs m).2 (e.toNat + 8 * v) = if v < 48 then ⟨stubs v, 0x08, 0x8E⟩ else ⟨0, 0, 0⟩ := by
  unfold initIdt
  rw [gateAt_gates]
  have hzero : ∀ i, e.toNat + 8 * v ≤ i → i < e.toNat + 8 * v + 8 →
      copyTo m e.toNat (fun _ => 0) (8 * 256) i = (fun _ => 0 : Memory) i := by
    intro i hi hlt
    simp only [copyTo]
    rw [if_pos (by omega)]
  rw [gateAt_congr hzero]
  rfl

lemma initIdt_outside (stubs : ℕ → UInt32) {i : ℕ} (hi : i < e.toNat ∨ e.toNat + 2048 ≤ i) :
    (initIdt e stubs m).2 i = m i := by
  unfold initIdt
  dsimp only
  rw [gates_outside stubs 48 (by omega), copyTo_outside _ _ (by omega)]

end Gates

section Segments

variable {e : UInt32} {m : Memory} {num : ℕ}

lemma gdtSetGate_outside (base limit : UInt32) (access gran : UInt8) {i : ℕ}
    (hi : i < e.toNat + 8 * num ∨ e.toNat + 8 * num + 8 ≤ i) : gdtSetGate e m num base limit access gran i = m i := by
  simp only [gdtSetGate]
  rw [store8_other _ _ (by omega), store8_other _ _ (by omega), store8_other _ _ (by omega),
    store16_outside _ _ (by omega), store8_other _ _ (by omega), store8_other _ _ (by omega),
    store16_outside _ _ (by omega)]

/-- The two halves of the granularity byte do not get into each other's way. -/
lemma granularity_halves {high : UInt8} (gran : UInt8) (h : high &&& 0x0F = high) :
    (high ||| (gran &&& 0xF0)) &&& 0x0F = high ∧ (high ||| (gran &&& 0xF0)) &&& 0xF0 = gran &&& 0xF0 := by
  have hdistrib : ∀ x y z : UInt8, (x ||| y) &&& z = (x &&& z) ||| (y &&& z) :=
    fun x y z => UInt8.toBitVec_inj.mp BitVec.and_or_distrib_right
  have hlow : (0xF0 &&& 0x0F : UInt8) = 0 := rfl
  have hhigh : (0x0F &&& 0xF0 : UInt8) = 0 := rfl
  constructor
  · rw [hdistrib, UInt8.and_assoc, hlow, UInt8.and_zero, UInt8.or_zero, h]
  · rw [hdistrib, ← h, UInt8.and_assoc, hhigh, UInt8.and_zero, UInt8.zero_or, UInt8.and_assoc, UInt8.and_self]

lemma limit_high (limit : UInt32) :
    ((limit >>> 16) &&& 0x0F).toUInt8 &&& (0x0F : UInt8) = ((limit >>> 16) &&& 0x0F).toUInt8 ∧
      ((limit >>> 16) &&& 0x0F).toUInt8.toNat = limit.toNat / 65536 % 16 := by
  have hmask : (0x0F : UInt32).toNat = 2 ^ 4 - 1 := rfl
  have hmask' : (0x0F : UInt8).toNat = 2 ^ 4 - 1 := rfl
  have hshift : ((16 : UInt32).toNat % 32) = 16 := rfl
  have hval : ((limit >>> 16) &&& 0x0F).toUInt8.toNat = limit.toNat / 65536 % 16 := by
    rw [UInt32.toNat_toUInt8, UInt32.toNat_and, hmask, Nat.and_two_pow_sub_one_eq_mod, UInt32.toNat_shiftRight,
      hshift, Nat.shiftRight_eq_div_pow]
    omega
  refine ⟨UInt8.toNat_inj.mp ?_, hval⟩
  rw [UInt8.toNat_and, hmask', Nat.and_two_pow_sub_one_eq_mod, hval]
  omega

/-- A segment is read as it has been set, up to what there is no room for. -/
lemma segmentAt_gdtSetGate (base limit : UInt32) (access gran : UInt8) :
    segmentAt (gdtSetGate e m num base limit access gran) (e.toNat + 8 * num) =
      ⟨base, limit.toNat % 2 ^ 20, access, gran &&& 0xF0⟩ := by
  have hlt := base.toNat_lt
  have hlow := low_half base
  have hmiddle : ((base >>> 16) &&& 0xFF).toUInt8.toNat = base.toNat / 2 ^ 16 % 256 := byte_at (by decide) base
  have hhigh : ((base >>> 24) &&& 0xFF).toUInt8.toNat = base.toNat / 2 ^ 24 % 256 := byte_at (by decide) base
  have hlimit := low_half limit
  obtain ⟨hmask, hlimitHigh⟩ := limit_high limit
  obtain ⟨hlowHalf, hhighHalf⟩ := granularity_halves gran hmask
  simp only [segmentAt, gdtSetGate]
  generalize e.toNat + 8 * num = a
  rw [Segment.mk.injEq]
  refine ⟨?_, ?_, store8_same _ _ _, ?_⟩
  · apply UInt32.toNat_inj.mp
    rw [load16_store8_other _ _ (by omega), load16_store8_other _ _ (by omega), load16_store8_other _ _ (by omega),
      load16_store16_other _ _ (by omega), load16_store8_other _ _ (by omega), load16_store8_other _ _ (by omega),
      load16_store16, hlow]
    rw [store8_other _ _ (by omega), store8_other _ _ (by omega), store8_other _ _ (by omega),
      store16_outside _ _ (by omega), store8_other _ _ (by omega), store8_same, hmiddle]
    rw [store8_other _ _ (by omega), store8_other _ _ (by omega), store8_other _ _ (by omega),
      store16_outside _ _ (by omega), store8_same, hhigh, toNat_ofNat_of_lt (by omega)]
    omega
  · rw [load16_store8_other _ _ (by omega), load16_store8_other _ _ (by omega), load16_store8_other _ _ (by omega),
      load16_store16, hlimit, store8_other _ _ (by omega), store8_same, store8_same, hlowHalf, hlimitHigh]
    omega
  · rw [store8_other _ _ (by omega), store8_same, store8_same, hhighHalf]

lemma segmentAt_other (base limit : UInt32) (access gran : UInt8) {k : ℕ} (hk : k ≠ num) :
    segmentAt (gdtSetGate e m num base limit access gran) (e.toNat + 8 * k) = segmentAt m (e.toNat + 8 * k) :=
  segmentAt_congr fun _ hi hlt => gdtSetGate_outside base limit access gran (by omega)

/-- A segment that is the whole memory. -/
def flat (access : UInt8) : Segment := ⟨0, 0xFFFFF, access, 0xC0⟩

lemma flat_last (access : UInt8) : (flat access).last = 0xFFFFFFFF := by
  have hlimit : (flat access).limit = 0xFFFFF := rfl
  have hgranularity : (flat access).granularity = 0xC0 := rfl
  rw [Segment.last, hlimit, hgranularity, if_neg (by decide)]

lemma segmentAt_initGdt (e : UInt32) (m : Memory) :
    segmentAt (initGdt e m).2 (e.toNat + 8 * 1) = flat 0x9A ∧
      segmentAt (initGdt e m).2 (e.toNat + 8 * 2) = flat 0x92 := by
  unfold initGdt
  dsimp only
  constructor
  · rw [segmentAt_other _ _ _ _ (by decide), segmentAt_other _ _ _ _ (by decide), segmentAt_other _ _ _ _ (by decide),
      segmentAt_gdtSetGate]
    rfl
  · rw [segmentAt_other _ _ _ _ (by decide), segmentAt_other _ _ _ _ (by decide), segmentAt_gdtSetGate]
    rfl

end Segments

section Vectors

variable {gdtEntries idtEntries : UInt32} {stubs : ℕ → UInt32} {m m' : Memory}

/-- The tables as `kmain` has set them up, in a memory that may have changed elsewhere. -/
structure TablesKept (gdtEntries idtEntries : UInt32) (stubs : ℕ → UInt32) (m m' : Memory) : Prop where
  apart : gdtEntries.toNat + 40 ≤ idtEntries.toNat ∨ idtEntries.toNat + 2048 ≤ gdtEntries.toNat
  gdt : ∀ i, gdtEntries.toNat ≤ i → i < gdtEntries.toNat + 40 →
    m' i = (initIdt idtEntries stubs (initGdt gdtEntries m).2).2 i
  idt : ∀ i, idtEntries.toNat ≤ i → i < idtEntries.toNat + 2048 →
    m' i = (initIdt idtEntries stubs (initGdt gdtEntries m).2).2 i

lemma TablesKept.segments (h : TablesKept gdtEntries idtEntries stubs m m') :
    segmentOf (initGdt gdtEntries m).1 m' 0x08 = some (flat 0x9A) ∧
      segmentOf (initGdt gdtEntries m).1 m' 0x10 = some (flat 0x92) := by
  have hapart := h.apart
  obtain ⟨hcode, hdata⟩ := segmentAt_initGdt gdtEntries m
  have hkept : ∀ k, k < 5 → segmentAt m' (gdtEntries.toNat + 8 * k) =
      segmentAt (initGdt gdtEntries m).2 (gdtEntries.toNat + 8 * k) := by
    intro k hk
    apply segmentAt_congr
    intro i hi hlt
    rw [h.gdt i (by omega) (by omega), initIdt_outside stubs (by omega)]
  have hbase : (initGdt gdtEntries m).1.base = gdtEntries := rfl
  have hlimit : (initGdt gdtEntries m).1.limit.toNat = 39 := rfl
  constructor
  · rw [segmentOf_eq (k := 8 * 1) (by decide) (by decide) (by rw [hlimit]; decide), hbase, hkept 1 (by decide), hcode]
  · rw [segmentOf_eq (k := 8 * 2) (by decide) (by decide) (by rw [hlimit]; decide), hbase, hkept 2 (by decide), hdata]

lemma TablesKept.gate (h : TablesKept gdtEntries idtEntries stubs m m') {v : ℕ} (hv : v < 256) :
    gateAt m' (idtEntries.toNat + 8 * v) = if v < 48 then ⟨stubs v, 0x08, 0x8E⟩ else ⟨0, 0, 0⟩ := by
  rw [← gateAt_initIdt (e := idtEntries) (m := (initGdt gdtEntries m).2) stubs hv]
  apply gateAt_congr
  intro i hi hlt
  exact h.idt i (by omega) (by omega)

lemma TablesKept.entry (h : TablesKept gdtEntries idtEntries stubs m m') {v a : ℕ}
    (ha : (initIdt idtEntries stubs (initGdt gdtEntries m).2).1.entry (8 * v) = some a) :
    (gateAt m' a).present = decide (v < 48) ∧ (gateAt m' a).dpl = 0 := by
  have hlimit : (initIdt idtEntries stubs (initGdt gdtEntries m).2).1.limit.toNat = 2047 := rfl
  rw [TablePtr.entry, hlimit] at ha
  split at ha
  · have hbase : idtEntries.toNat + 8 * v = a := Option.some.inj ha
    rw [← hbase, h.gate (by omega)]
    by_cases hstub : v < 48
    · rw [if_pos hstub, decide_eq_true hstub]
      exact ⟨decide_eq_true (show (0x8E : UInt8) &&& 0x80 ≠ 0 by decide),
        show ((0x8E : UInt8) >>> 5) &&& 3 = 0 by decide⟩
    · rw [if_neg hstub, decide_eq_false hstub]
      exact ⟨decide_eq_false (show ¬(0 : UInt8) &&& 0x80 ≠ 0 by decide),
        show ((0 : UInt8) >>> 5) &&& 3 = 0 by decide⟩
  · cases ha

/-- From the boot on the vectors 0 to 47 lead to their stubs through present gates of the highest privilege, every
other vector makes the processor fault, since its gate is not present or not in the table, and the selectors of the
gates and of the data segments name flat segments of code and data. -/
theorem vectors_reach_their_stubs (h : TablesKept gdtEntries idtEntries stubs m m') (v : ℕ) :
    vectorTarget (initGdt gdtEntries m).1 (initIdt idtEntries stubs (initGdt gdtEntries m).2).1 m' v =
        (if v < 48 then some (0x08, stubs v) else none) ∧
      (∀ a, (initIdt idtEntries stubs (initGdt gdtEntries m).2).1.entry (8 * v) = some a →
        (gateAt m' a).present = decide (v < 48) ∧ (gateAt m' a).dpl = 0) ∧
      segmentOf (initGdt gdtEntries m).1 m' 0x08 = some (flat 0x9A) ∧
      segmentOf (initGdt gdtEntries m).1 m' kernelData = some (flat 0x92) := by
  obtain ⟨hcode, hdata⟩ := h.segments
  refine ⟨?_, fun a ha => h.entry ha, hcode, hdata⟩
  have hlast := (stubs v).toNat_lt
  have hlimit : (initIdt idtEntries stubs (initGdt gdtEntries m).2).1.limit.toNat = 2047 := rfl
  unfold vectorTarget TablePtr.entry
  rw [hlimit]
  by_cases hv : v < 256
  · have hbase : (initIdt idtEntries stubs (initGdt gdtEntries m).2).1.base = idtEntries := rfl
    rw [if_pos (by omega), Option.bind_some, hbase]
    simp only [h.gate hv]
    by_cases hstub : v < 48
    · have husable : Gate.usable ⟨stubs v, 0x08, 0x8E⟩ = true :=
        decide_eq_true (show (0x8E : UInt8) &&& 0x9F = 0x8E by decide)
      have hkernel : (flat 0x9A).kernelCode = true := rfl
      simp only [if_pos hstub, husable, if_true, hcode, Option.bind_some, flat_last, hkernel, true_and]
      rw [if_pos (by omega)]
    · have husable : Gate.usable ⟨0, 0, 0⟩ = false := rfl
      simp only [if_neg hstub, husable, Bool.false_eq_true, if_false]
  · rw [if_neg (by omega), if_neg (by omega)]
    rfl

/-- The tables right after they have been set up. -/
theorem vectors_reach_their_stubs_timer :
    vectorTarget (initGdt 0x1000 fun _ => 0).1 (initIdt 0x2000 (fun v => UInt32.ofNat (0x10000 + 16 * v))
      (initGdt 0x1000 fun _ => 0).2).1 (initIdt 0x2000 (fun v => UInt32.ofNat (0x10000 + 16 * v))
      (initGdt 0x1000 fun _ => 0).2).2 32 = some (0x08, 0x10200) :=
  (vectors_reach_their_stubs ⟨by decide, fun _ _ _ => rfl, fun _ _ _ => rfl⟩ 32).1

end Vectors

end SBoy28.Interrupts
