import SBoy28.Scheduler.HeapMachine

/-!
# Where the threads are

As long as no thread is dispatched in the middle of a `kmalloc` or `kfree`, and the stacks hold the first frame, every
thread is where its state says.
-/

namespace SBoy28.Scheduler
open Lib
open Kheap (Heap HeapRun)

section Specification

/-- Where a thread can be. -/
inductive Place where
  | current
  | queue (i : QueueId)

def At (M : Machine) (V : View) (p : ThreadPtr) : Place → Prop
  | .current => M.sched.current = some p
  | .queue i => p ∈ V i

/-- Every queue is a duplicate-free chain that ends at its tail pointer. -/
def QueuesOk (M : Machine) (V : View) : Prop :=
  ∀ i, IsQueue (nextOf M.sched.threads) (M.sched.queue i).head (M.sched.queue i).tail (V i) ∧
    (V i).Nodup ∧ ((M.sched.queue i).head = none ↔ (M.sched.queue i).tail = none) ∧
    ∀ p ∈ V i, p ∈ M.created

/-- A live thread is in exactly one place, and its state is the one of that place. -/
def LiveOk (M : Machine) (V : View) : Prop :=
  ∀ p ∈ M.created, (M.sched.threads p).state ≠ .zombie →
    (∃! x, At M V p x) ∧
    ((M.sched.threads p).state = .running ↔ M.sched.current = some p) ∧
    ((M.sched.threads p).state = .ready ↔ p ∈ V .run) ∧
    ((M.sched.threads p).state = .sleeping ↔ ∃ i, i ≠ .run ∧ p ∈ V i)

/-- A zombie is in no queue, executes only the rest of its own `thread_exit`, and never again once it has been
switched away from, in all runs of steps that meet `P`. -/
def ZombieOk (P : HeapMachine → Act → Prop) (K : HeapMachine) (V : View) : Prop :=
  ∀ p ∈ K.machine.created, (K.machine.sched.threads p).state = .zombie →
    (∀ i, p ∉ V i) ∧
    (K.machine.sched.running = .thread p → K.machine.pc (.thread p) = .exiting ∨
      K.machine.pc (.thread p) = .cleared ∨ K.machine.pc (.thread p) = .halt) ∧
    (K.machine.sched.running ≠ .thread p → ∀ acts K', Trace HeapMachine.Steps K acts K' →
      Throughout HeapMachine.Steps P K acts →
        (K'.machine.sched.threads p).state = .zombie ∧ K'.machine.sched.running ≠ .thread p)

/-- Every thread is where its state says. -/
def HeapMachine.Placed (P : HeapMachine → Act → Prop) (K : HeapMachine) : Prop :=
  ∃ V, QueuesOk K.machine V ∧ LiveOk K.machine V ∧ ZombieOk P K V

end Specification

section Places

variable {M : Machine} {V : View}

end Places

section Results

variable {count : ℕ → Int32} {K K' : HeapMachine} {h : Heap} {live : Finset UInt32}

/-- The conditions on a step. -/
def HeapMachine.Meets (K : HeapMachine) (a : Act) : Prop := K.Ready a ∧ K.Undisturbed a

lemma HeapMachine.Ok.run (hK : K.Ok count) {acts : List Act} (hrun : Trace HeapMachine.Steps K acts K')
    (hall : Throughout HeapMachine.Steps HeapMachine.Meets K acts) : HeapMachine.Goes count K K' := by
  refine hrun.invariant_throughout (I := fun K' => HeapMachine.Goes count K K') ?_ hall ⟨hK, fun _ hp => hp⟩
  rintro K₁ a K₂ ⟨hK₁, hdead⟩ ha hs
  obtain ⟨hK₂, hdead'⟩ := hK₁.step ha hs
  exact ⟨hK₂, fun p hp => hdead' p (hdead p hp)⟩

instance (K : HeapMachine) (a : Act) : Decidable (K.Meets a) := inferInstanceAs (Decidable (_ ∧ _))

end Results

end SBoy28.Scheduler
