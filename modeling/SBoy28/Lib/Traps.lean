import Mathlib.Data.UInt
import SBoy28.Lib.Ia32

/-!
# Traps of a 32-bit processor

An interrupt or an exception pushes the flags, the code segment and the instruction pointer on the stack of the
interrupted program, some exceptions push an error code too, and `iret` takes the three words back. A string
instruction goes up or down in memory as the direction flag says.
-/

namespace SBoy28.Lib

/-- The registers that a trap without a change of privilege has to do with. -/
structure Processor where
  cpu : Cpu
  eflags : UInt32
  cs : UInt16
  ds : UInt16
  es : UInt16
  fs : UInt16
  gs : UInt16

namespace Processor

def interruptFlag : UInt32 := 0x200

/-- The flags that the way through an interrupt gate clears: trap, interrupt, nested task, resume and virtual 8086. -/
def gateFlags : UInt32 := 0x34300

def push (p : Processor) (v : UInt32) : Processor := { p with cpu := p.cpu.push v }

def cli (p : Processor) : Processor := { p with eflags := p.eflags &&& ~~~interruptFlag }

/-- The data segments are loaded from `ax`. -/
def loadSegments (p : Processor) (selector : UInt16) : Processor :=
  { p with ds := selector, es := selector, fs := selector, gs := selector }

/-- The way through an interrupt gate. -/
def trap (p : Processor) (errCode : Option UInt32) (selector : UInt16) (offset : UInt32) : Processor :=
  let q := ((p.push p.eflags).push p.cs.toUInt32).push p.cpu.eip
  let q := errCode.elim q q.push
  { q with eflags := q.eflags &&& ~~~gateFlags, cs := selector, cpu := { q.cpu with eip := offset } }

def iret (p : Processor) : Processor :=
  let (eip, c) := p.cpu.pop
  let (cs, c) := c.pop
  let (eflags, c) := c.pop
  { p with cpu := { c with eip := eip }, cs := cs.toUInt16, eflags := eflags }

def directionFlag : UInt32 := 0x400

/-- `stosb` in a flat segment. -/
def stosb (p : Processor) : Processor :=
  let r := p.cpu.regs
  let edi := if p.eflags &&& directionFlag = 0 then r.edi + 1 else r.edi - 1
  { p with cpu := { p.cpu with mem := store8 p.cpu.mem r.edi.toNat r.eax.toUInt8, regs := { r with edi := edi } } }

/-- One turn of `rep stosb`. -/
def repTurn (p : Processor) : Processor :=
  let p := p.stosb
  { p with cpu := { p.cpu with regs := { p.cpu.regs with ecx := p.cpu.regs.ecx - 1 } } }

def repStosb (p : Processor) : Processor := repTurn^[p.cpu.regs.ecx.toNat] p

end Processor

section Strings

lemma Processor.cli_interruptFlag (p : Processor) : p.cli.eflags &&& Processor.interruptFlag = 0 := by
  change p.eflags &&& ~~~Processor.interruptFlag &&& Processor.interruptFlag = 0
  rw [UInt32.and_assoc, UInt32.and_comm (~~~Processor.interruptFlag), UInt32.and_not_self, UInt32.and_zero]

lemma Processor.cli_directionFlag {p : Processor} (hup : p.eflags &&& Processor.directionFlag = 0) :
    p.cli.eflags &&& Processor.directionFlag = 0 := by
  change p.eflags &&& ~~~Processor.interruptFlag &&& Processor.directionFlag = 0
  rw [UInt32.and_assoc, UInt32.and_comm (~~~Processor.interruptFlag), ← UInt32.and_assoc, hup, UInt32.zero_and]

def fillBytes (m : Memory) (a n : ℕ) (b : UInt8) : Memory := fun i => if a ≤ i ∧ i < a + n then b else m i

variable {p : Processor}

lemma fillBytes_inside (m : Memory) {a n i : ℕ} (b : UInt8) (h : a ≤ i ∧ i < a + n) : fillBytes m a n b i = b :=
  if_pos h

lemma fillBytes_outside (m : Memory) {a n i : ℕ} (b : UInt8) (h : i < a ∨ a + n ≤ i) : fillBytes m a n b i = m i :=
  if_neg (by omega)

lemma fillBytes_zero (m : Memory) (a : ℕ) (b : UInt8) : fillBytes m a 0 b = m := by
  funext i
  exact fillBytes_outside _ _ (by omega)

lemma store8_fillBytes (m : Memory) (a n : ℕ) (b : UInt8) :
    store8 (fillBytes m a n b) (a + n) b = fillBytes m a (n + 1) b := by
  funext i
  simp only [store8, fillBytes]
  split
  · rw [if_pos (by omega)]
  · by_cases hin : a ≤ i ∧ i < a + n
    · rw [if_pos hin, if_pos (by omega)]
    · rw [if_neg hin, if_neg (by omega)]

/-- The processor after some turns with the direction flag clear. -/
def filledTurns (p : Processor) (n : ℕ) : Processor :=
  let r := p.cpu.regs
  { p with cpu := { p.cpu with
    mem := fillBytes p.cpu.mem r.edi.toNat n r.eax.toUInt8
    regs := { r with edi := r.edi + UInt32.ofNat n, ecx := r.ecx - UInt32.ofNat n } } }

lemma repTurn_iterate (hup : p.eflags &&& Processor.directionFlag = 0) {n : ℕ}
    (hroom : p.cpu.regs.edi.toNat + n ≤ 2 ^ 32) : Processor.repTurn^[n] p = filledTurns p n := by
  induction n with
  | zero =>
    have hzero : UInt32.ofNat 0 = 0 := rfl
    rw [filledTurns, fillBytes_zero, hzero, UInt32.add_zero, UInt32.sub_zero]
    rfl
  | succ n ih =>
    rw [Function.iterate_succ_apply', ih (by omega)]
    have hn : (UInt32.ofNat n).toNat = n := toNat_ofNat_of_lt (by omega)
    have hedi : (p.cpu.regs.edi + UInt32.ofNat n).toNat = p.cpu.regs.edi.toNat + n := by
      rw [toNat_add_of_lt (by omega), hn]
    have hadd : p.cpu.regs.edi + UInt32.ofNat n + 1 = p.cpu.regs.edi + UInt32.ofNat (n + 1) := by
      rw [UInt32.ofNat_add, UInt32.add_assoc]
      rfl
    have hsub : p.cpu.regs.ecx - UInt32.ofNat n - 1 = p.cpu.regs.ecx - UInt32.ofNat (n + 1) := by
      rw [UInt32.ofNat_add, sub_sub]
      rfl
    have hup' : (filledTurns p n).eflags &&& Processor.directionFlag = 0 := hup
    rw [Processor.repTurn, Processor.stosb, if_pos hup']
    simp only [filledTurns, hedi, store8_fillBytes, hadd, hsub]

/-- `rep stosb` fills memory upwards. -/
lemma repStosb_eq (hup : p.eflags &&& Processor.directionFlag = 0)
    (hroom : p.cpu.regs.edi.toNat + p.cpu.regs.ecx.toNat ≤ 2 ^ 32) :
    p.repStosb = filledTurns p p.cpu.regs.ecx.toNat := repTurn_iterate hup hroom

end Strings

section Words

variable {c : Cpu} {a : UInt32} {words : List UInt32}

/-- The word number `k` of a row of words. -/
lemma WordsAt.get {m : Memory} {a : ℕ} (h : WordsAt m a words) {k : ℕ} (hk : k < words.length) :
    load32 m (a + 4 * k) = words[k] := by
  induction words generalizing a k with
  | nil => exact absurd hk (Nat.not_lt_zero k)
  | cons w ws ih =>
    cases k with
    | zero => exact h.1
    | succ k =>
      have hrest := ih h.2 (Nat.lt_of_succ_lt_succ hk)
      rw [List.getElem_cons_succ, ← hrest]
      congr 1
      omega

/-- A word above the stack pointer, by its address. -/
lemma WordsAt.load {m : Memory} (h : WordsAt m a.toNat words) (hend : a.toNat + 4 * words.length ≤ 2 ^ 32) {k : ℕ}
    (hk : k < words.length) : load32 m (a + UInt32.ofNat (4 * k)).toNat = words[k] := by
  have hk' : (UInt32.ofNat (4 * k)).toNat = 4 * k := toNat_ofNat_of_lt (by omega)
  rw [toNat_add_of_lt (by omega), hk']
  exact h.get hk

end Words

end SBoy28.Lib
