import SBoy28.Lib.Traps

/-!
# The interrupt stubs

`interrupts.s`: between the interrupted program and the C handler stands a stub, which makes a `registers_t` on
the stack and takes it back afterwards. The stubs of some exceptions expect that the processor has pushed an error
code, and the others push a zero in its place.
-/

namespace SBoy28.Interrupts
open Lib

section Model

/-- A stub pushes a zero unless it expects an error code, then its number. -/
structure Stub where
  errCode : Bool
  number : UInt32

/-- The lines `ISR_NOERRCODE`, `ISR_ERRCODE` and `IRQ`, by the number that is pushed. -/
def stubOf (v : ℕ) : Stub := ⟨v = 8 ∨ 10 ≤ v ∧ v ≤ 14, UInt32.ofNat v⟩

def kernelData : UInt16 := 0x10

/-- `mov %ds, %ax`. -/
def movDsAx (p : Processor) : Processor :=
  { p with cpu := p.cpu.setEax ((p.cpu.regs.eax &&& 0xFFFF0000) ||| p.ds.toUInt32) }

/-- `isr_common_stub` and `irq_common_stub` up to the call. -/
def commonEntry (p : Processor) : Processor :=
  let p := { p with cpu := p.cpu.pusha }
  let p := movDsAx p
  let p := p.push p.cpu.regs.eax
  { p.loadSegments kernelData with
    cpu := p.cpu.setEax ((p.cpu.regs.eax &&& 0xFFFF0000) ||| kernelData.toUInt32) }

def Stub.entry (stub : Stub) (p : Processor) : Processor :=
  let p := p.cli
  let p := if stub.errCode then p else p.push 0
  commonEntry (p.push stub.number)

/-- The common stub from the return of the handler on. -/
def commonExit (p : Processor) : Processor :=
  let (eax, c) := p.cpu.pop
  let p := { p with cpu := c.setEax eax }
  let p := p.loadSegments eax.toUInt16
  let p := { p with cpu := p.cpu.popa }
  { p with cpu := p.cpu.setEsp (p.cpu.regs.esp + 8) }.iret

end Model

section Specification

/-- `registers_t`, up to what is on the stack anyway. -/
structure RegistersT where
  ds : UInt32
  regs : Registers
  intNo : UInt32
  errCode : UInt32
  eip : UInt32
  cs : UInt32
  eflags : UInt32

/-- Its words, from the address that the handler gets on. -/
def RegistersT.words (r : RegistersT) : List UInt32 :=
  [r.ds, r.regs.edi, r.regs.esi, r.regs.ebp, r.regs.esp, r.regs.ebx, r.regs.edx, r.regs.ecx, r.regs.eax, r.intNo,
    r.errCode, r.eip, r.cs, r.eflags]

/-- The processor after the stub has taken a `registers_t` back. -/
structure LeavesWith (r : RegistersT) (esp : UInt32) (q : Processor) : Prop where
  regs : q.cpu.regs = { r.regs with esp := esp + 56 }
  eip : q.cpu.eip = r.eip
  cs : q.cs = r.cs.toUInt16
  eflags : q.eflags = r.eflags
  segments : q.ds = r.ds.toUInt16 ∧ q.es = r.ds.toUInt16 ∧ q.fs = r.ds.toUInt16 ∧ q.gs = r.ds.toUInt16

end Specification

variable {p q : Processor} {r : RegistersT}

section Exit

/-- Whatever the handler has left in the `registers_t` is what the processor goes on with. -/
lemma commonExit_words (hw : WordsAt q.cpu.mem q.cpu.regs.esp.toNat r.words)
    (hend : q.cpu.regs.esp.toNat + 56 ≤ 2 ^ 32) : LeavesWith r q.cpu.regs.esp (commonExit q) := by
  have hload : ∀ k (hk : k < 14), load32 q.cpu.mem (q.cpu.regs.esp + UInt32.ofNat (4 * k)).toNat =
      r.words.get ⟨k, hk⟩ := fun k hk => hw.load hend hk
  have h0 := hload 0 (by decide)
  have h1 := hload 1 (by decide)
  have h2 := hload 2 (by decide)
  have h3 := hload 3 (by decide)
  have h5 := hload 5 (by decide)
  have h6 := hload 6 (by decide)
  have h7 := hload 7 (by decide)
  have h8 := hload 8 (by decide)
  have h11 := hload 11 (by decide)
  have h12 := hload 12 (by decide)
  have h13 := hload 13 (by decide)
  simp only [RegistersT.words, Nat.reduceMul, UInt32.reduceOfNat, UInt32.add_zero, List.get_eq_getElem,
    List.getElem_cons_succ, List.getElem_cons_zero] at h0 h1 h2 h3 h5 h6 h7 h8 h11 h12 h13
  constructor <;>
    simp only [commonExit, Processor.iret, Processor.loadSegments, Cpu.popa, Cpu.pop, Cpu.setEax, Cpu.setEsp,
      UInt32.add_assoc, UInt32.reduceAdd, h0, h1, h2, h3, h5, h6, h7, h8, h11, h12, h13, and_self]

lemma commonExit_esp (q : Processor) : (commonExit q).cpu.regs.esp = q.cpu.regs.esp + 56 := by
  simp only [commonExit, Processor.iret, Processor.loadSegments, Cpu.popa, Cpu.pop, Cpu.setEax, Cpu.setEsp,
    UInt32.add_assoc, UInt32.reduceAdd]

lemma commonExit_mem (q : Processor) : (commonExit q).cpu.mem = q.cpu.mem := rfl

lemma commonExit_segments (q : Processor) : (commonExit q).es = (commonExit q).ds ∧
    (commonExit q).fs = (commonExit q).ds ∧ (commonExit q).gs = (commonExit q).ds := ⟨rfl, rfl, rfl⟩

end Exit

section Entry

/-- `eax` after `mov %ds, %ax`. -/
def segmentWord (p : Processor) : UInt32 := (p.cpu.regs.eax &&& 0xFFFF0000) ||| p.ds.toUInt32

lemma segmentWord_toUInt16 (p : Processor) : (segmentWord p).toUInt16 = p.ds := by
  have hmask : (0xFFFF0000 : UInt32).toUInt16 = 0 := rfl
  rw [segmentWord, UInt32.toUInt16_or, UInt32.toUInt16_and, hmask, UInt16.and_zero, UInt16.zero_or,
    UInt16.toUInt16_toUInt32]

/-- What the processor and the stub push, up to the number of the interrupt. -/
def trapWords (p : Processor) (errCode : Option UInt32) (stub : Stub) : List UInt32 :=
  [p.eflags, p.cs.toUInt32, p.cpu.eip] ++ errCode.toList ++ (if stub.errCode then [] else [0]) ++ [stub.number]

/-- All that is pushed, with the stack pointer that `pusha` finds. -/
def entryWords (p : Processor) (errCode : Option UInt32) (stub : Stub) : List UInt32 :=
  trapWords p errCode stub ++ [p.cpu.regs.eax, p.cpu.regs.ecx, p.cpu.regs.edx, p.cpu.regs.ebx,
    ((trapWords p errCode stub).foldl Cpu.push p.cpu).regs.esp, p.cpu.regs.ebp, p.cpu.regs.esi, p.cpu.regs.edi,
    segmentWord p]

/-- The way through the gate and the stub up to the call of the handler. -/
def enter (p : Processor) (errCode : Option UInt32) (stub : Stub) (selector : UInt16) (offset : UInt32) :
    Processor :=
  stub.entry (p.trap errCode selector offset)

lemma enter_cpu (p : Processor) (errCode : Option UInt32) (stub : Stub) (selector : UInt16) (offset : UInt32) :
    ((enter p errCode stub selector offset).cpu.regs.esp =
      ((entryWords p errCode stub).foldl Cpu.push p.cpu).regs.esp) ∧
    (enter p errCode stub selector offset).cpu.mem = ((entryWords p errCode stub).foldl Cpu.push p.cpu).mem := by
  obtain ⟨hasCode, number⟩ := stub
  cases errCode <;> cases hasCode <;>
    simp only [enter, Stub.entry, Processor.trap, Processor.push, Processor.cli, commonEntry, movDsAx,
      Processor.loadSegments, entryWords, trapWords, segmentWord, Cpu.pusha, Cpu.push, Cpu.setEsp, Cpu.setEax,
      Option.elim, Option.toList, List.foldl_cons, List.foldl_nil, List.cons_append, List.nil_append, ite_true,
      Bool.false_eq_true, ite_false, and_self]

lemma entryWords_length (p : Processor) (errCode : Option UInt32) (stub : Stub) :
    (entryWords p errCode stub).length = 13 + errCode.toList.length + (if stub.errCode then 0 else 1) := by
  obtain ⟨hasCode, number⟩ := stub
  cases errCode <;> cases hasCode <;> rfl

/-- What stands on the stack when the handler is called, and what does not change. -/
lemma enter_frame (errCode : Option UInt32) (stub : Stub) (selector : UInt16) (offset : UInt32)
    (hroom : 60 ≤ p.cpu.regs.esp.toNat) :
    (enter p errCode stub selector offset).cpu.regs.esp.toNat + 4 * (entryWords p errCode stub).length =
        p.cpu.regs.esp.toNat ∧
      WordsAt (enter p errCode stub selector offset).cpu.mem
        (enter p errCode stub selector offset).cpu.regs.esp.toNat (entryWords p errCode stub).reverse ∧
      ∀ i, i < p.cpu.regs.esp.toNat - 60 ∨ p.cpu.regs.esp.toNat ≤ i →
        (enter p errCode stub selector offset).cpu.mem i = p.cpu.mem i := by
  obtain ⟨hesp, hmem⟩ := enter_cpu p errCode stub selector offset
  have hlen : (entryWords p errCode stub).length ≤ 15 := by
    rw [entryWords_length]
    obtain ⟨hasCode, number⟩ := stub
    cases errCode <;> cases hasCode <;> simp
  obtain ⟨esp, m, hfold, hlow, hsame, hwords⟩ := foldl_push (entryWords p errCode stub) p.cpu (by omega)
  rw [hesp, hmem, hfold]
  exact ⟨hlow, hwords, fun i hi => hsame i (by omega)⟩

/-- The `registers_t` that the handler gets when the processor and the stub agree about the error code. -/
def frameOf (p : Processor) (errCode : Option UInt32) (stub : Stub) : RegistersT where
  ds := segmentWord p
  regs := { p.cpu.regs with esp := ((trapWords p errCode stub).foldl Cpu.push p.cpu).regs.esp }
  intNo := stub.number
  errCode := errCode.getD 0
  eip := p.cpu.eip
  cs := p.cs.toUInt32
  eflags := p.eflags

lemma entryWords_balanced {errCode : Option UInt32} {stub : Stub} (h : errCode.isSome = stub.errCode) :
    (entryWords p errCode stub).reverse = (frameOf p errCode stub).words := by
  obtain ⟨hasCode, number⟩ := stub
  obtain rfl : errCode.isSome = hasCode := h
  cases errCode <;> rfl

end Entry

section Return

/-- A handler returns with the stack pointer that it was called with, and what stands from there to the end of the
stack is left alone. -/
structure Handles (top : ℕ) (q q' : Processor) : Prop where
  esp : q'.cpu.regs.esp = q.cpu.regs.esp
  stack : ∀ i, q.cpu.regs.esp.toNat ≤ i → i < top → q'.cpu.mem i = q.cpu.mem i

/-- The interrupted program goes on where it was. -/
structure Resumed (top : ℕ) (p q : Processor) : Prop where
  regs : q.cpu.regs = p.cpu.regs
  eip : q.cpu.eip = p.cpu.eip
  eflags : q.eflags = p.eflags
  segments : q.cs = p.cs ∧ q.ds = p.ds ∧ q.es = p.es ∧ q.fs = p.fs ∧ q.gs = p.gs
  stack : ∀ i, p.cpu.regs.esp.toNat ≤ i → i < top → q.cpu.mem i = p.cpu.mem i

variable {errCode : Option UInt32} {stub : Stub} {selector : UInt16} {offset : UInt32} {top : ℕ}

/-- The pops of the stub move the stack pointer by 56, and the pushes have moved it by 56 just if the processor and
the stub agree. -/
lemma Handles.balanced (h : Handles top (enter p errCode stub selector offset) q) (hroom : 60 ≤ p.cpu.regs.esp.toNat)
    (hr : (commonExit q).cpu.regs.esp = p.cpu.regs.esp) : errCode.isSome = stub.errCode := by
  obtain ⟨hlow, -, -⟩ := enter_frame errCode stub selector offset hroom
  rw [commonExit_esp, h.esp] at hr
  have hlt := p.cpu.regs.esp.toNat_lt
  have h56 : (56 : UInt32).toNat = 56 := rfl
  have hsum := UInt32.toNat_add (enter p errCode stub selector offset).cpu.regs.esp 56
  rw [hr, h56] at hsum
  rw [entryWords_length] at hlow
  obtain ⟨hasCode, number⟩ := stub
  cases errCode <;> cases hasCode <;> simp at hlow ⊢ <;> omega

lemma Handles.resumed (h : Handles top (enter p errCode stub selector offset) q) (hroom : 60 ≤ p.cpu.regs.esp.toNat)
    (htop : p.cpu.regs.esp.toNat ≤ top) (hend : top ≤ 2 ^ 32) (hb : errCode.isSome = stub.errCode)
    (hseg : p.es = p.ds ∧ p.fs = p.ds ∧ p.gs = p.ds) : Resumed top p (commonExit q) := by
  obtain ⟨hlow, hwords, hsame⟩ := enter_frame errCode stub selector offset hroom
  have hlen : 4 * (entryWords p errCode stub).length = 56 := by
    have hrev := congrArg List.length (entryWords_balanced (p := p) hb)
    rw [List.length_reverse] at hrev
    rw [hrev]
    rfl
  rw [hlen] at hlow
  rw [entryWords_balanced hb, ← h.esp] at hwords
  rw [← h.esp] at hlow
  have hframe : WordsAt q.cpu.mem q.cpu.regs.esp.toNat (frameOf p errCode stub).words := by
    refine hwords.congr fun i hi hlt => ?_
    have hlt' : i < q.cpu.regs.esp.toNat + 56 := hlt
    exact h.stack i (by rw [← h.esp]; exact hi) (by omega)
  have hleaves := commonExit_words hframe (by omega)
  have hback : q.cpu.regs.esp + 56 = p.cpu.regs.esp := by
    apply UInt32.toNat_inj.mp
    have h56 : (56 : UInt32).toNat = 56 := rfl
    have hlt := p.cpu.regs.esp.toNat_lt
    rw [toNat_add_of_lt (by omega), h56, hlow]
  have hds : (frameOf p errCode stub).ds.toUInt16 = p.ds := segmentWord_toUInt16 p
  obtain ⟨hes, hfs, hgs⟩ := hseg
  obtain ⟨hd, he, hf, hg⟩ := hleaves.segments
  refine ⟨?_, hleaves.eip, hleaves.eflags, ⟨?_, ?_, ?_, ?_, ?_⟩, ?_⟩
  · rw [hleaves.regs, hback]
    rfl
  · rw [hleaves.cs]
    exact UInt16.toUInt16_toUInt32 _
  · rw [hd, hds]
  · rw [he, hds, hes]
  · rw [hf, hds, hfs]
  · rw [hg, hds, hgs]
  · intro i hi hlt
    rw [commonExit_mem, h.stack i (by rw [← h.esp]; omega) hlt]
    exact hsame i (Or.inr hi)

/-- The vectors with which the processor pushes an error code. -/
def pushesErrCode (v : ℕ) : Bool := v = 8 ∨ 10 ≤ v ∧ v ≤ 14 ∨ v = 17 ∨ v = 21 ∨ v = 29 ∨ v = 30

lemma balanced_iff {v : ℕ} : (pushesErrCode v = (stubOf v).errCode) ↔ v ≠ 17 ∧ v ≠ 21 ∧ v ≠ 29 ∧ v ≠ 30 := by
  simp only [pushesErrCode, stubOf, decide_eq_decide]
  omega

/-- An interrupt or an exception of number `v`. -/
def interrupted (p : Processor) (v : ℕ) (errCode : UInt32) (offset : UInt32) : Processor :=
  enter p (if pushesErrCode v then some errCode else none) (stubOf v) 0x08 offset

/-- When its handler returns, the interrupted program goes on as if nothing had happened just if the stub knows about
the error code of the processor, which four of them do not, and the data segments were all the same. -/
theorem interrupt_resumes_iff {v : ℕ} {code : UInt32} (hroom : 60 ≤ p.cpu.regs.esp.toNat)
    (htop : p.cpu.regs.esp.toNat ≤ top) (hend : top ≤ 2 ^ 32) (h : Handles top (interrupted p v code offset) q) :
    Resumed top p (commonExit q) ↔
      (v ≠ 17 ∧ v ≠ 21 ∧ v ≠ 29 ∧ v ≠ 30) ∧ p.es = p.ds ∧ p.fs = p.ds ∧ p.gs = p.ds := by
  have hsome : (if pushesErrCode v then some code else none).isSome = pushesErrCode v := by
    cases pushesErrCode v <;> rfl
  constructor
  · intro hr
    obtain ⟨hes, hfs, hgs⟩ := commonExit_segments q
    obtain ⟨-, hd, he, hf, hg⟩ := hr.segments
    have hb := h.balanced hroom (congrArg Registers.esp hr.regs)
    rw [hsome] at hb
    exact ⟨balanced_iff.mp hb, by rw [← he, hes, hd], by rw [← hf, hfs, hd], by rw [← hg, hgs, hd]⟩
  · rintro ⟨hv, hseg⟩
    exact h.resumed hroom htop hend (hsome.trans (balanced_iff.mpr hv)) hseg

/-- A page fault with nothing done in its handler. -/
theorem interrupt_resumes_iff_page_fault :
    Resumed 0x2000 ⟨⟨⟨1, 2, 3, 4, 0x1800, 6, 7, 8⟩, 0x10100, fun _ => 0⟩, 0x202, 0x08, 0x10, 0x10, 0x10, 0x10⟩
      (commonExit (interrupted
        ⟨⟨⟨1, 2, 3, 4, 0x1800, 6, 7, 8⟩, 0x10100, fun _ => 0⟩, 0x202, 0x08, 0x10, 0x10, 0x10, 0x10⟩ 14 2 0x20000)) :=
  (interrupt_resumes_iff (by decide) (by decide) (by decide) ⟨rfl, fun _ _ _ => rfl⟩).mpr
    ⟨by decide, rfl, rfl, rfl⟩

end Return

end SBoy28.Interrupts
