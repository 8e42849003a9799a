import SBoy28.Lib.Memory

/-!
# Descriptor tables of a 32-bit processor

How the processor reads a gate of the interrupt descriptor table and a segment of the global descriptor table, and
where a vector leads. Both tables consist of eight bytes for every entry.
-/

namespace SBoy28.Lib

section Model

/-- A gate, with its byte of flags. -/
structure Gate where
  offset : UInt32
  selector : UInt16
  flags : UInt8
  deriving DecidableEq, Repr

def gateAt (m : Memory) (a : ℕ) : Gate where
  offset := UInt32.ofNat ((load16 m a).toNat + 65536 * (load16 m (a + 6)).toNat)
  selector := load16 m (a + 2)
  flags := m (a + 5)

def Gate.present (g : Gate) : Bool := g.flags &&& 0x80 ≠ 0

/-- The privilege level from which an `int` instruction may name the gate. -/
def Gate.dpl (g : Gate) : UInt8 := (g.flags >>> 5) &&& 3

/-- The gate is present and it is a 32-bit interrupt gate. -/
def Gate.usable (g : Gate) : Bool := g.flags &&& 0x9F = 0x8E

/-- A segment with a limit of 20 bits, its access byte and the upper half of its granularity byte. -/
structure Segment where
  base : UInt32
  limit : ℕ
  access : UInt8
  granularity : UInt8
  deriving DecidableEq, Repr

def segmentAt (m : Memory) (a : ℕ) : Segment where
  base := UInt32.ofNat ((load16 m (a + 2)).toNat + 65536 * (m (a + 4)).toNat + 16777216 * (m (a + 7)).toNat)
  limit := (load16 m a).toNat + 65536 * (m (a + 6) &&& 0x0F).toNat
  access := m (a + 5)
  granularity := m (a + 6) &&& 0xF0

/-- The last offset in the segment. -/
def Segment.last (s : Segment) : ℕ :=
  if s.granularity &&& 0x80 = 0 then s.limit else 4096 * s.limit + 4095

/-- A present code segment for the privileged level. -/
def Segment.kernelCode (s : Segment) : Bool := s.access &&& 0xF8 = 0x98

/-- A present data segment for the privileged level that can be written. -/
def Segment.kernelData (s : Segment) : Bool := s.access &&& 0xFA = 0x92

/-- What `lgdt` and `lidt` load. -/
structure TablePtr where
  limit : UInt16
  base : UInt32

/-- The entry of a table that begins at a byte of it. -/
def TablePtr.entry (t : TablePtr) (k : ℕ) : Option ℕ :=
  if k + 7 ≤ t.limit.toNat then some (t.base.toNat + k) else none

/-- The segment of a selector. The first entry is never used. -/
def segmentOf (gdt : TablePtr) (m : Memory) (selector : UInt16) : Option Segment :=
  if selector &&& 0xFFFC = 0 then none else (gdt.entry (selector &&& 0xFFF8).toNat).map (segmentAt m)

/-- The selector and the offset to which a vector leads, or nothing when the processor faults. -/
def vectorTarget (gdt idt : TablePtr) (m : Memory) (v : ℕ) : Option (UInt16 × UInt32) :=
  (idt.entry (8 * v)).bind fun a =>
    let g := gateAt m a
    if g.usable then
      (segmentOf gdt m g.selector).bind fun s =>
        if s.kernelCode ∧ g.offset.toNat ≤ s.last then some (g.selector, g.offset) else none
    else none

end Model

variable {m m' : Memory} {a : ℕ}

lemma gateAt_congr (h : ∀ i, a ≤ i → i < a + 8 → m' i = m i) : gateAt m' a = gateAt m a := by
  have h16 : ∀ k, k ≤ 6 → load16 m' (a + k) = load16 m (a + k) :=
    fun k hk => load16_congr fun i hi => h _ (by omega) (by omega)
  have h0 := h16 0 (by decide)
  rw [Nat.add_zero] at h0
  rw [gateAt, gateAt, h0, h16 6 (Nat.le_refl 6), h16 2 (by decide), h (a + 5) (by omega) (by omega)]

lemma segmentAt_congr (h : ∀ i, a ≤ i → i < a + 8 → m' i = m i) : segmentAt m' a = segmentAt m a := by
  have h16 : ∀ k, k ≤ 6 → load16 m' (a + k) = load16 m (a + k) :=
    fun k hk => load16_congr fun i hi => h _ (by omega) (by omega)
  have h0 := h16 0 (by decide)
  rw [Nat.add_zero] at h0
  rw [segmentAt, segmentAt, h0, h16 2 (by decide), h (a + 4) (by omega) (by omega), h (a + 5) (by omega) (by omega),
    h (a + 6) (by omega) (by omega), h (a + 7) (by omega) (by omega)]

lemma segmentOf_eq {gdt : TablePtr} {selector : UInt16} {k : ℕ} (hne : selector &&& 0xFFFC ≠ 0)
    (hk : (selector &&& 0xFFF8).toNat = k) (hlimit : k + 7 ≤ gdt.limit.toNat) :
    segmentOf gdt m selector = some (segmentAt m (gdt.base.toNat + k)) := by
  rw [segmentOf, if_neg hne, hk, TablePtr.entry, if_pos hlimit, Option.map_some]

end SBoy28.Lib
