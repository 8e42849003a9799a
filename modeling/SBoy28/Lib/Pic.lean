import Mathlib.Data.List.Find
import Mathlib.Data.Nat.Notation
import Mathlib.Logic.Function.Basic

/-!
# Two cascaded interrupt controllers

Two controllers of the kind 8259A with eight lines each, in fully nested mode, as their ports show them. The request
of the second one is line 2 of the first one. A request stays latched until the processor takes it, and a line that is
in service keeps back itself and all lines of lower priority until the end of the interrupt is announced.
-/

namespace SBoy28.Lib

/-- The initialization word that a controller expects next at its data port, and whether there is a fourth one. -/
inductive InitStage where
  | ready
  | vectorBase (fourth : Bool)
  | cascade (fourth : Bool)
  | mode
  deriving DecidableEq, Repr

/-- One programmable interrupt controller: latched requests, lines in service, mask, and what the initialization
words have set. -/
structure Pic where
  requested : ℕ → Bool
  inService : ℕ → Bool
  mask : UInt8
  vectorBase : UInt8
  cascade : UInt8
  autoEnd : Bool
  stage : InitStage

namespace Pic

/-- The line of the highest priority in service. -/
def serving (c : Pic) : Option ℕ := (List.range 8).find? c.inService

/-- A write to the command port: the first initialization word, or the end of the interrupt of the highest
priority. -/
def command (c : Pic) (v : UInt8) : Pic :=
  if v &&& 0x10 ≠ 0 then
    { c with
      requested := fun _ => false
      inService := fun _ => false
      mask := 0
      stage := .vectorBase (v &&& 0x01 ≠ 0) }
  else if v &&& 0xF8 = 0x20 then
    c.serving.elim c fun k => { c with inService := Function.update c.inService k false }
  else c

/-- A write to the data port. -/
def data (c : Pic) (v : UInt8) : Pic :=
  match c.stage with
  | .ready => { c with mask := v }
  | .vectorBase fourth => { c with vectorBase := v &&& 0xF8, stage := .cascade fourth }
  | .cascade fourth => { c with cascade := v, stage := if fourth then .mode else .ready }
  | .mode => { c with autoEnd := v &&& 0x02 ≠ 0, stage := .ready }

def raise (c : Pic) (k : ℕ) : Pic := { c with requested := Function.update c.requested k true }

/-- The line that the controller has the processor interrupted for. -/
def next (c : Pic) : Option ℕ :=
  ((List.range 8).find? fun k => c.requested k && !c.mask.toNat.testBit k).filter fun k =>
    (List.range (k + 1)).all fun j => !c.inService j

/-- The processor takes the interrupt of a line. -/
def acknowledge (c : Pic) (k : ℕ) : Pic :=
  { c with
    requested := Function.update c.requested k false
    inService := if c.autoEnd then c.inService else Function.update c.inService k true }

end Pic

structure PicPair where
  master : Pic
  slave : Pic

namespace PicPair

/-- The first controller with what the second one asks for on its line 2. -/
def cascaded (p : PicPair) : Pic := if p.slave.next.isSome then p.master.raise 2 else p.master

/-- Lines 0 to 7 belong to the first controller and lines 8 to 15 to the second one; line 2 is not for a device. -/
def raise (p : PicPair) (line : ℕ) : PicPair :=
  if line = 2 ∨ 16 ≤ line then p
  else if line < 8 then { p with master := p.master.raise line }
  else { p with slave := p.slave.raise (line - 8) }

/-- The latched requests by their lines. -/
def latched (p : PicPair) (line : ℕ) : Bool :=
  if line < 8 then p.master.requested line else p.slave.requested (line - 8)

/-- The vector for a line of the first controller, which lets the second one answer on the line where that one is. -/
def answer (p : PicPair) (k : ℕ) : ℕ × PicPair :=
  match (if p.master.cascade.toNat.testBit k then p.slave.next else none) with
  | some j => (p.slave.vectorBase.toNat + j, ⟨p.master.acknowledge k, p.slave.acknowledge j⟩)
  | none => (p.master.vectorBase.toNat + k, ⟨p.master.acknowledge k, p.slave⟩)

/-- The vector with which the processor is interrupted, once it takes interrupts. -/
def acknowledge (p : PicPair) : Option (ℕ × PicPair) := p.cascaded.next.map p.answer

/-- The ports of the two controllers. -/
def outb (p : PicPair) (port : UInt16) (v : UInt8) : PicPair :=
  if port = 0x20 then { p with master := p.master.command v }
  else if port = 0x21 then { p with master := p.master.data v }
  else if port = 0xA0 then { p with slave := p.slave.command v }
  else if port = 0xA1 then { p with slave := p.slave.data v }
  else p

end PicPair

namespace Pic

variable {c : Pic} {k : ℕ} {o : Option ℕ}

/-- At most this line is in service. -/
def Serves (c : Pic) (o : Option ℕ) : Prop := c.inService = fun j => decide (o = some j)

/-- What the initialization words have set: no mask, and the end of every interrupt is to be announced. -/
structure Configured (c : Pic) (vectorBase cascade : UInt8) : Prop where
  mask : c.mask = 0
  vectorBase : c.vectorBase = vectorBase
  cascade : c.cascade = cascade
  autoEnd : c.autoEnd = false
  stage : c.stage = .ready

/-- A controller with nothing in service asks for the first line that is requested. -/
lemma next_idle (hmask : c.mask = 0) (hs : c.Serves none) : c.next = (List.range 8).find? c.requested := by
  have hfind : ((List.range 8).find? fun k => c.requested k && !c.mask.toNat.testBit k) =
      (List.range 8).find? c.requested := by
    apply List.find?_congr
    intro k _
    rw [hmask, UInt8.toNat_zero, Nat.zero_testBit, Bool.not_false, Bool.and_true]
  have hfree : ∀ k, ((List.range (k + 1)).all fun j => !c.inService j) = true := by
    intro k
    unfold Serves at hs
    simp [hs]
  rw [next, hfind]
  cases (List.range 8).find? c.requested with
  | none => rfl
  | some k => exact Option.filter_some_pos (hfree k)

lemma serves_acknowledge (hauto : c.autoEnd = false) (hs : c.Serves none) (k : ℕ) :
    (c.acknowledge k).Serves (some k) := by
  unfold Serves at hs ⊢
  funext j
  simp only [acknowledge, hauto, Bool.false_eq_true, if_false, hs, Function.update_apply, reduceCtorEq, decide_false,
    Option.some.injEq]
  by_cases hj : j = k
  · simp [hj]
  · simp [hj, Ne.symm hj]

/-- The end of the only interrupt in service. -/
lemma command_end (hk : k < 8) (hs : c.Serves (some k)) :
    c.command 0x20 = { c with inService := fun _ => false } := by
  unfold Serves at hs
  have hserving : c.serving = some k := by
    rw [serving, List.find?_range_eq_some]
    refine ⟨by simp [hs], List.mem_range.mpr hk, fun j hj => ?_⟩
    simp [hs, Nat.ne_of_gt hj]
  have hicw : ¬((0x20 : UInt8) &&& 0x10 ≠ 0) := by decide
  have hend : (0x20 : UInt8) &&& 0xF8 = 0x20 := by decide
  rw [command, if_neg hicw, if_pos hend, hserving, Option.elim_some]
  congr 1
  funext j
  rw [Function.update_apply, hs]
  by_cases hj : j = k
  · simp [hj]
  · simp [hj, Ne.symm hj]

lemma Configured.raise {b v : UInt8} (h : c.Configured b v) (k : ℕ) : (c.raise k).Configured b v :=
  ⟨h.mask, h.vectorBase, h.cascade, h.autoEnd, h.stage⟩

lemma Configured.acknowledge {b v : UInt8} (h : c.Configured b v) (k : ℕ) : (c.acknowledge k).Configured b v :=
  ⟨h.mask, h.vectorBase, h.cascade, h.autoEnd, h.stage⟩

end Pic

namespace PicPair

variable {p : PicPair} {line : ℕ}

lemma latched_raise (h : ¬(line = 2 ∨ 16 ≤ line)) : (p.raise line).latched = Function.update p.latched line true := by
  funext k
  rw [raise, if_neg h, Function.update_apply]
  by_cases hlow : line < 8
  · simp only [hlow, if_true, latched, Pic.raise, Function.update_apply]
    by_cases hk : k = line
    · rw [if_pos hk, if_pos hk, if_pos (by omega)]
    · rw [if_neg hk, if_neg hk]
  · simp only [hlow, if_false, latched, Pic.raise, Function.update_apply]
    by_cases hk : k = line
    · rw [if_pos hk, if_neg (by omega), if_pos (by rw [hk])]
    · rw [if_neg hk]
      by_cases hk8 : k < 8
      · rw [if_pos hk8, if_pos hk8]
      · rw [if_neg hk8, if_neg hk8, if_neg (by omega)]

end PicPair

end SBoy28.Lib
