import SBoy28.Scheduler.Contexts
import SBoy28.Scheduler.Lifecycle

/-!
# The scheduler over the heap, step by step

`thread_create` and `thread_exit` call the heap with interrupts on, so the timer may come while a block has been
found and not yet been taken, or while two blocks are being merged. Between the calls it does no harm: what a thread
has allocated for a new one is its own.
-/

namespace SBoy28.Scheduler
open Lib
open Kheap (Heap HeapInvariant kmalloc kfree blockSize blockHeader blockNext blockIsFree blockMagic
  kheapMagic alignSize walkFuel splitBlock prevStep mergeWithPrev)

section Model

/-- One iteration of the search in `kmalloc`, up to the test. -/
def searchStep (m : Memory) (size curr : UInt32) : UInt32 ⊕ UInt32 :=
  if curr = 0 then .inr 0
  else if blockIsFree m curr ∧ size ≤ blockSize m curr then .inr curr
  else .inl (blockNext m curr)

def kmallocSearch (h : Heap) (size : UInt32) : Option UInt32 :=
  loop (searchStep h.mem size) walkFuel h.heapHead

/-- What `kmalloc` does with the block that has passed the test. -/
def kmallocTake (m : Memory) (size curr : UInt32) : UInt32 × Memory :=
  if curr = 0 then (0, m)
  else
    let m := if size + blockHeader + 4 ≤ blockSize m curr then splitBlock m curr size else m
    (curr + blockHeader, Kheap.setIsFree m curr false)

/-- `kfree` up to the middle of the merge with the next block; the flag says that there is one. -/
def kfreeEnter (m : Memory) (block : UInt32) : Memory × Bool :=
  let m := Kheap.setIsFree m block true
  if blockNext m block ≠ 0 ∧ blockIsFree m (blockNext m block) then
    (Kheap.setSize m block (blockSize m block + (blockHeader + blockSize m (blockNext m block))), true)
  else (m, false)

/-- The rest of `kfree`. -/
def kfreeLeave (h : Heap) (block : UInt32) (merges : Bool) : Option Heap :=
  let m := if merges then Kheap.setNext h.mem block (blockNext h.mem (blockNext h.mem block)) else h.mem
  (loop (prevStep m block) walkFuel h.heapHead).map fun curr => { h with mem := mergeWithPrev m block curr }

/-- Where a context is inside a call that uses the heap: in the first `kmalloc` of `thread_create`, which has found
`curr`, behind it, in the second one, behind that, in the `kfree` of `thread_exit`, or behind that. A stack of `0` is
the failure of the second `kmalloc`. -/
inductive Inside where
  | outside
  | finding (curr fn arg stackSize : UInt32)
  | creating (t fn arg stackSize : UInt32)
  | findingStack (t curr fn arg stackSize : UInt32)
  | preparing (t stack fn arg stackSize : UInt32)
  | freeing (block : UInt32) (merges : Bool)
  | freed
  deriving DecidableEq, Repr

/-- In the middle of a function of the heap. -/
def Inside.inHeap : Inside → Bool
  | .finding _ _ _ _ => true
  | .findingStack _ _ _ _ _ => true
  | .freeing _ _ => true
  | _ => false

/-- The scheduler over the heap. `live` are the pointers that were handed out and not given back, and
`clients` those of other callers of `kmalloc`. The fields of a `thread_t` are in `machine`, so a stack has to hold
the frame that `prepare_stack` builds. -/
structure HeapMachine where
  machine : Machine
  heap : Heap
  live : Finset UInt32
  clients : Finset UInt32
  inside : Context → Inside
  trampoline : UInt32

def HeapMachine.start (h : Heap) (live : Finset UInt32) (s : Sched) (count : ℕ → Int32) (trampoline : UInt32) :
    HeapMachine :=
  ⟨Scheduler.start s count, h, live, live, fun _ => .outside, trampoline⟩

/-- The executing context goes on at another place. -/
def HeapMachine.goto (K : HeapMachine) (i : Inside) : HeapMachine :=
  { K with inside := Function.update K.inside K.machine.sched.running i }

/-- The rest of a `kmalloc` that has found `curr`, with its result. -/
def HeapMachine.take (K : HeapMachine) (n curr : UInt32) : UInt32 × HeapMachine :=
  let r := kmallocTake K.heap.mem (alignSize n) curr
  (r.1, { K with
    heap := { K.heap with mem := r.2 }
    live := if r.1 = 0 then K.live else insert r.1 K.live })

/-- `thread_create` with the results of `kmalloc`, whatever was at `t`. -/
def createThread (M : Machine) (t stack : ℕ) (stackSize : UInt32) : Option Machine :=
  (threadCreate M.sched (some t) (some stack) stackSize).map fun r =>
    { M with sched := r.2, created := insert t M.created }

/-- `thread_create` from one place to the next. The fields of the new `thread_t`, the first frame and the entry into
the run queue are one step: before the last of them nobody else has the pointers. -/
def HeapMachine.createRest (K : HeapMachine) : Inside → Option HeapMachine
  | .finding curr fn arg stackSize =>
    let (t, K) := K.take sizeofThread curr
    some (K.goto (if t = 0 then .outside else .creating t fn arg stackSize))
  | .creating t fn arg stackSize =>
    (kmallocSearch K.heap (alignSize stackSize)).map fun curr => K.goto (.findingStack t curr fn arg stackSize)
  | .findingStack t curr fn arg stackSize =>
    let (stack, K) := K.take stackSize curr
    some (K.goto (.preparing t stack fn arg stackSize))
  | .preparing t stack fn arg stackSize =>
    if stack = 0 then
      (kfree K.heap t).map fun h => HeapMachine.goto { K with heap := h, live := K.live.erase t } .outside
    else
      (createThread K.machine t.toNat stack.toNat stackSize).map fun M =>
        let m := prepareStack K.heap.mem stack stackSize fn arg K.trampoline
        HeapMachine.goto { K with machine := M, heap := { K.heap with mem := m } } .outside
  | _ => none

/-- `kfree(current->stack)`, up to the middle of it. -/
def HeapMachine.freeStack (K : HeapMachine) : Option HeapMachine :=
  K.machine.sched.current.map fun p =>
    let stack := UInt32.ofNat ((K.machine.sched.threads p).stack.getD 0)
    let block := stack - blockHeader
    if stack = 0 ∨ blockMagic K.heap.mem block ≠ kheapMagic then K.goto .freed
    else
      let r := kfreeEnter K.heap.mem block
      HeapMachine.goto { K with heap := { K.heap with mem := r.1 } } (.freeing block r.2)

def HeapMachine.freeStackRest (K : HeapMachine) (block : UInt32) (merges : Bool) : Option HeapMachine :=
  (kfreeLeave K.heap block merges).map fun h =>
    { K with heap := h, live := K.live.erase (block + blockHeader) }

/-- What the executing context does, and the timer. `thread_create` and the `kfree` of `thread_exit` take several
steps, with the timer between them; the `kmalloc` and `kfree` of other users of the heap take one. -/
inductive Act where
  | sched (op : Op)
  | create (fn arg stackSize : UInt32)
  | createRest
  | freeStack
  | freeStackRest
  | exitClear
  | malloc (n : UInt32)
  | free (p : UInt32)
  | store (p : UInt32) (a : ℕ) (b : UInt8)
  deriving DecidableEq, Repr

/-- The steps of the machine that are not made in another way over the heap. -/
def Op.direct : Op → Bool
  | .create _ _ _ => false
  | .exitClear => false
  | _ => true

/-- Memory that a thread may write to: a block of another user of the heap, or a stack. -/
def HeapMachine.Writable (K : HeapMachine) (p : UInt32) : Prop :=
  p ∈ K.clients ∨ ∃ q ∈ K.machine.created, K.inside (.thread q) ≠ .freed ∧
    (K.machine.sched.threads q).stack = some p.toNat

instance (K : HeapMachine) (p : UInt32) : Decidable (K.Writable p) :=
  inferInstanceAs (Decidable (_ ∨ ∃ q ∈ K.machine.created, _))

def HeapMachine.step (K : HeapMachine) (a : Act) : Option HeapMachine :=
  let c := K.machine.sched.running
  match a with
  | .sched op =>
    if op.direct ∧ (op = .tick ∨ K.inside c = .outside) then
      (Scheduler.step K.machine op).map fun M => { K with machine := M }
    else none
  | .create fn arg stackSize =>
    if K.inside c = .outside ∧ K.machine.pc c = .user then
      (kmallocSearch K.heap (alignSize sizeofThread)).map fun curr =>
        K.goto (.finding curr fn arg (actualStackSize stackSize))
    else none
  | .createRest => K.createRest (K.inside c)
  | .freeStack => if K.inside c = .outside ∧ K.machine.pc c = .exiting then K.freeStack else none
  | .freeStackRest =>
    match K.inside c with
    | .freeing block merges => (K.freeStackRest block merges).map (HeapMachine.goto · .freed)
    | _ => none
  | .exitClear =>
    if K.inside c = .freed then
      (Scheduler.step K.machine .exitClear).map fun M => HeapMachine.goto { K with machine := M } .outside
    else none
  | .malloc n =>
    if K.inside c = .outside ∧ K.machine.pc c = .user then
      (kmalloc K.heap n).map fun (p, h) =>
        if p = 0 then { K with heap := h }
        else { K with heap := h, live := insert p K.live, clients := insert p K.clients }
    else none
  | .free p =>
    if K.inside c = .outside ∧ K.machine.pc c = .user ∧ p ∈ K.clients then
      (kfree K.heap p).map fun h =>
        { K with heap := h, live := K.live.erase p, clients := K.clients.erase p }
    else none
  | .store p a b =>
    if K.inside c = .outside ∧ K.Writable p ∧ p.toNat ≤ a ∧
        a < p.toNat + (blockSize K.heap.mem (p - blockHeader)).toNat then
      some { K with heap := { K.heap with mem := store8 K.heap.mem a b } }
    else none

def HeapMachine.Steps (K : HeapMachine) (a : Act) (K' : HeapMachine) : Prop := K.step a = some K'

end Model

section Conditions

/-- Nobody blocks while the run queue is empty. -/
def HeapMachine.Ready (K : HeapMachine) : Act → Prop
  | .sched op => Blocks K.machine op → K.machine.sched.run.head ≠ none
  | _ => True

/-- The stack is large enough for the first frame, and its rounding does not wrap around. -/
def FrameFits (stackSize : UInt32) : Prop := 48 ≤ stackSize.toNat ∧ stackSize.toNat ≤ 2 ^ 32 - 4

instance (stackSize : UInt32) : Decidable (FrameFits stackSize) := inferInstanceAs (Decidable (_ ∧ _))

/-- A stack for which a block has been found holds the first frame. -/
def Inside.Fits : Inside → Prop
  | .findingStack _ curr _ _ stackSize => curr ≠ 0 → FrameFits stackSize
  | _ => True

/-- No thread is dispatched in the middle of a function of the heap, and a stack that is allocated holds the first
frame. -/
def HeapMachine.Undisturbed (K : HeapMachine) (a : Act) : Prop :=
  (a = .sched .tick → (K.inside K.machine.sched.running).inHeap = true → K.machine.sched.run.head = none) ∧
    (a = .createRest → (K.inside K.machine.sched.running).Fits)

instance (K : HeapMachine) (a : Act) : Decidable (K.Ready a) := by
  cases a <;> unfold HeapMachine.Ready <;> infer_instance

instance (i : Inside) : Decidable i.Fits := by
  cases i <;> unfold Inside.Fits <;> infer_instance

instance (K : HeapMachine) (a : Act) : Decidable (K.Undisturbed a) := inferInstanceAs (Decidable (_ ∧ _))

end Conditions

section Parts

variable {h : Heap}

lemma kmallocStep_eq (m : Memory) (size curr : UInt32) :
    Kheap.kmallocStep m size curr = (searchStep m size curr).map id (kmallocTake m size) := by
  unfold Kheap.kmallocStep searchStep
  by_cases h0 : curr = 0
  · simp [h0, kmallocTake]
  · simp only [if_neg h0]
    split
    · simp [h0, kmallocTake]
    · rfl

/-- `kmalloc` is its two parts. -/
lemma kmalloc_eq (h : Heap) {n : UInt32} (hn : n ≠ 0) :
    kmalloc h n = (kmallocSearch h (alignSize n)).map fun curr =>
      ((kmallocTake h.mem (alignSize n) curr).1, { h with mem := (kmallocTake h.mem (alignSize n) curr).2 }) := by
  rw [kmalloc, if_neg hn, loop_map _ (kmallocStep_eq h.mem (alignSize n)), Option.map_map]
  rfl

/-- `kfree` is its two parts. -/
lemma kfree_eq {p : UInt32} (hp : p ≠ 0) (hm : blockMagic h.mem (p - blockHeader) = kheapMagic) :
    kfree h p = kfreeLeave { h with mem := (kfreeEnter h.mem (p - blockHeader)).1 } (p - blockHeader)
      (kfreeEnter h.mem (p - blockHeader)).2 := by
  simp only [kfree, if_neg hp, if_pos hm, kfreeLeave, kfreeEnter, Kheap.mergeWithNext]
  split <;> rfl

end Parts

section Places

variable {M M' : Machine}

/-- A context that is in its own code stays there while others execute, or if only the timer interrupts it. -/
lemma callSchedule_user {k : Pc} {c : Context} (hs : callSchedule M k = some M') (hc : M.pc c = .user)
    (hk : c = M.sched.running → k = .user) : M'.pc c = .user := by
  rw [callSchedule, Option.map_eq_some_iff] at hs
  obtain ⟨s, -, rfl⟩ := hs
  have hbefore : Function.update M.pc M.sched.running k c = .user := by
    by_cases hcr : c = M.sched.running
    · rw [hcr, Function.update_self]
      exact hk hcr
    · rw [Function.update_of_ne hcr]
      exact hc
  rw [resume_eq]
  by_cases hcs : c = s.running
  · subst hcs
    simp [hbefore, resumePc]
  · simpa only [Function.update_of_ne hcs] using hbefore

lemma Linked.step_user (hl : Linked M) {op : Op} {c : Context} (hs : step M op = some M') (hc : M.pc c = .user)
    (hother : op = .tick ∨ c ≠ M.sched.running) : M'.pc c = .user := by
  by_cases htick : op = .tick
  · subst htick
    rw [step_tick] at hs
    split at hs
    · rw [← Option.some.inj hs]
      exact hc
    · exact callSchedule_user hs hc fun he => he ▸ hc
  have hne : c ≠ M.sched.running := hother.resolve_left htick
  have hgoto : ∀ k, Function.update M.pc M.sched.running k c = .user :=
    fun k => (Function.update_of_ne hne ..).trans hc
  cases op with
  | tick => exact absurd rfl htick
  | create t stack size =>
    have hpc : M.pc M.sched.running = .user := step_pc hs rfl
    simp only [step, hpc, Option.ite_none_right_eq_some, Option.map_eq_some_iff] at hs
    obtain ⟨-, r, -, rfl⟩ := hs
    exact hc
  | yieldTest =>
    have hpc : M.pc M.sched.running = .user := step_pc hs rfl
    simp only [step, hpc] at hs
    split at hs
    · rw [← Option.some.inj hs]
      exact hc
    · rw [← Option.some.inj hs]
      exact hgoto _
  | yieldSwitch =>
    have hpc : M.pc M.sched.running = .yielding := step_pc hs rfl
    simp only [step, hpc] at hs
    exact callSchedule_user hs hc fun he => absurd he hne
  | exitMark =>
    have hpc : M.pc M.sched.running = .user := step_pc hs rfl
    simp only [step, hpc] at hs
    split at hs
    · rw [← Option.some.inj hs]
      exact hc
    · rw [← Option.some.inj hs]
      exact hgoto _
  | exitClear =>
    have hpc : M.pc M.sched.running = .exiting := step_pc hs rfl
    simp only [step, hpc, Option.map_eq_some_iff] at hs
    obtain ⟨s, -, rfl⟩ := hs
    exact hgoto _
  | exitSwitch =>
    have hpc : M.pc M.sched.running = .cleared := step_pc hs rfl
    simp only [step, hpc] at hs
    exact callSchedule_user hs hc fun he => absurd he hne
  | lock mtx =>
    have hpc : M.pc M.sched.running = .user := step_pc hs rfl
    simp only [step, hpc, Option.bind_eq_some_iff] at hs
    obtain ⟨r, hr, hs⟩ := hs
    split at hs
    · exact callSchedule_user hs hc fun he => absurd (he.trans (mutexLock_in hl.sched hr).running) hne
    · rw [← Option.some.inj hs]
      exact hc
  | unlock mtx =>
    have hpc : M.pc M.sched.running = .user := step_pc hs rfl
    simp only [step, hpc, Option.map_eq_some_iff] at hs
    obtain ⟨s, -, rfl⟩ := hs
    exact hc
  | wait sem =>
    have hpc : M.pc M.sched.running = .user := step_pc hs rfl
    simp only [step, hpc, Option.bind_eq_some_iff] at hs
    obtain ⟨r, hr, hs⟩ := hs
    split at hs
    · exact callSchedule_user hs hc fun he => absurd (he.trans (semWait_in hl.sched hr).running) hne
    · rw [← Option.some.inj hs]
      exact hc
  | post sem =>
    have hpc : M.pc M.sched.running = .user := step_pc hs rfl
    simp only [step, hpc, Option.map_eq_some_iff] at hs
    obtain ⟨s, -, rfl⟩ := hs
    exact hc

end Places

section Invariant

variable {count : ℕ → Int32} {K K' : HeapMachine} {M : Machine} {h : Heap} {live : Finset UInt32} {i j : Inside}
  {bs bs' : List Blk} {inside : Context → Inside}

/-- The `thread_t` that a context has allocated for a new thread. -/
def Inside.newThread : Inside → Option ℕ
  | .creating t _ _ _ => some t.toNat
  | .findingStack t _ _ _ _ => some t.toNat
  | .preparing t _ _ _ _ => some t.toNat
  | _ => none

def Inside.newStack : Inside → Option ℕ
  | .preparing _ stack _ _ _ => if stack = 0 then none else some stack.toNat
  | _ => none

/-- The size of the stack that a context in `thread_create` asks for. -/
def Inside.stackSize : Inside → Option UInt32
  | .finding _ _ _ stackSize => some stackSize
  | .creating _ _ _ stackSize => some stackSize
  | .findingStack _ _ _ _ stackSize => some stackSize
  | .preparing _ _ _ _ stackSize => some stackSize
  | _ => none

/-- Who holds memory of the heap: its other users, the threads, and the contexts in `thread_create`. -/
inductive Keeper where
  | client (q : UInt32)
  | thread (p : ThreadPtr)
  | stack (p : ThreadPtr)
  | newThread (c : Context)
  | newStack (c : Context)
  deriving DecidableEq

/-- A thread holds its stack until `thread_exit` has given it back. -/
def HeapMachine.holding (K : HeapMachine) : Keeper → Option ℕ
  | .client q => if q ∈ K.clients then some q.toNat else none
  | .thread p => if p ∈ K.machine.created then some p else none
  | .stack p =>
    if p ∈ K.machine.created ∧ K.inside (.thread p) ≠ .freed then (K.machine.sched.threads p).stack else none
  | .newThread c => (K.inside c).newThread
  | .newStack c => (K.inside c).newStack

/-- The first frame has room in a new stack. -/
def Inside.HasRoom (bs : List Blk) : Inside → Prop
  | .preparing _ stack _ _ stackSize =>
    stack ≠ 0 → FrameFits stackSize ∧
      ∃ b ∈ bs, b.free = false ∧ b.payload 16 = stack.toNat ∧ (alignSize stackSize).toNat ≤ b.size
  | _ => True

def Rooms (inside : Context → Inside) (bs : List Blk) : Prop := ∀ c, (inside c).HasRoom bs

def HeapMachine.WellFormed (K : HeapMachine) : Prop := ∃ bs, HeapInvariant K.heap K.live bs ∧ Rooms K.inside bs

/-- The heap is well formed, with a block found, or it is in the middle of the `kfree` of the current thread's
stack. -/
def HeapMachine.HeapOk (K : HeapMachine) : Inside → Prop
  | .finding curr _ _ _ => K.WellFormed ∧ kmallocSearch K.heap (alignSize sizeofThread) = some curr
  | .findingStack _ curr _ _ stackSize => K.WellFormed ∧ kmallocSearch K.heap (alignSize stackSize) = some curr
  | .freeing block merges =>
    ∃ h bs p q, HeapInvariant h K.live bs ∧ Rooms K.inside bs ∧ K.machine.sched.current = some p ∧
      (K.machine.sched.threads p).stack = some q.toNat ∧ block = q - blockHeader ∧ q ≠ 0 ∧
      blockMagic h.mem block = kheapMagic ∧ K.heap = { h with mem := (kfreeEnter h.mem block).1 } ∧
      merges = (kfreeEnter h.mem block).2
  | _ => K.WellFormed

/-- What every step keeps. -/
structure HeapMachine.Ok (count : ℕ → Int32) (K : HeapMachine) : Prop where
  placed : ∃ V, Good count K.machine V
  linked : Linked K.machine
  owns : Owns Set.univ K.holding (addresses K.live)
  fresh : ∀ p, p ∉ K.machine.created → K.inside (.thread p) = .outside
  settled : ∀ c, c ≠ K.machine.sched.running → (K.inside c).inHeap = false
  creates : ∀ c n, (K.inside c).stackSize = some n → K.machine.pc c = .user ∧ n ≠ 0
  heap : K.HeapOk (K.inside K.machine.sched.running)

/-- The invariant holds again, and no dead thread has come back. -/
def HeapMachine.Goes (count : ℕ → Int32) (K K' : HeapMachine) : Prop :=
  HeapMachine.Ok count K' ∧ ∀ p, Dead K.machine p → Dead K'.machine p

lemma Rooms.keep (hr : Rooms inside bs)
    (hk : ∀ b ∈ bs, b.free = false → (∃ c, (inside c).newStack = some (b.payload 16)) → b ∈ bs') :
    Rooms inside bs' := by
  intro c
  have hroom := hr c
  cases hc : inside c with
  | preparing t stack fn arg stackSize =>
    intro h0
    rw [hc] at hroom
    obtain ⟨hfits, b, hb, hused, hpay, hsize⟩ := hroom h0
    have hnew : (inside c).newStack = some (b.payload 16) := by
      rw [hc, Inside.newStack, if_neg h0, hpay]
    exact ⟨hfits, b, hk b hb hused ⟨c, hnew⟩, hused, hpay, hsize⟩
  | _ => trivial

lemma Rooms.goto (hr : Rooms inside bs) (i : Inside) (hi : i.HasRoom bs) {c : Context} :
    Rooms (Function.update inside c i) bs := by
  intro d
  by_cases hdc : d = c
  · rw [hdc, Function.update_self]
    exact hi
  · rw [Function.update_of_ne hdc]
    exact hr d

lemma HeapMachine.heapOk_settled (hi : i.inHeap = false) : K.HeapOk i ↔ K.WellFormed := by
  cases i with
  | finding => cases hi
  | findingStack => cases hi
  | freeing => cases hi
  | _ => exact Iff.rfl

lemma HeapMachine.Ok.heapAt (hK : K.Ok count) (hin : K.inside K.machine.sched.running = i) : K.HeapOk i :=
  hin ▸ hK.heap

/-- What the executing context holds itself may change when it goes on, and nothing else. -/
lemma HeapMachine.holding_goto {o : Keeper} (hin : K.inside K.machine.sched.running = i)
    (hfreed : ∀ p, o = .stack p → Context.thread p = K.machine.sched.running → (j = .freed ↔ i = .freed))
    (hthread : o = .newThread K.machine.sched.running → j.newThread = i.newThread)
    (hstack : o = .newStack K.machine.sched.running → j.newStack = i.newStack) :
    (K.goto j).holding o = K.holding o := by
  subst hin
  cases o with
  | client q => rfl
  | thread p => rfl
  | stack p =>
    by_cases hp : Context.thread p = K.machine.sched.running
    · simp [HeapMachine.holding, HeapMachine.goto, hp, hfreed p rfl hp]
    · simp only [HeapMachine.holding, HeapMachine.goto, Function.update_of_ne hp]
  | newThread c =>
    by_cases hc : c = K.machine.sched.running
    · subst hc
      simpa only [HeapMachine.holding, HeapMachine.goto, Function.update_self] using hthread rfl
    · simp only [HeapMachine.holding, HeapMachine.goto, Function.update_of_ne hc]
  | newStack c =>
    by_cases hc : c = K.machine.sched.running
    · subst hc
      simpa only [HeapMachine.holding, HeapMachine.goto, Function.update_self] using hstack rfl
    · simp only [HeapMachine.holding, HeapMachine.goto, Function.update_of_ne hc]

/-- The executing context goes on, and the heap with it. -/
lemma HeapMachine.Ok.goto (hK : K.Ok count) (howns : Owns Set.univ (K.goto i).holding (addresses live))
    (hcreates : ∀ n, i.stackSize = some n → K.machine.pc K.machine.sched.running = .user ∧ n ≠ 0)
    (hheap : (HeapMachine.goto { K with heap := h, live := live } i).HeapOk i) :
    HeapMachine.Goes count K (HeapMachine.goto { K with heap := h, live := live } i) := by
  refine ⟨⟨hK.placed, hK.linked, howns, ?_, ?_, ?_, ?_⟩, fun _ hp => hp⟩
  · intro p hp
    have hc : Context.thread p ≠ K.machine.sched.running := fun he => hp (hK.linked.sched.executing p he.symm)
    exact (Function.update_of_ne hc ..).trans (hK.fresh p hp)
  · intro c hc
    have hc' : c ≠ K.machine.sched.running := hc
    simp only [HeapMachine.goto, Function.update_of_ne hc']
    exact hK.settled c hc'
  · intro c n hn
    by_cases hc : c = K.machine.sched.running
    · subst hc
      simp only [HeapMachine.goto, Function.update_self] at hn
      exact hcreates n hn
    · simp only [HeapMachine.goto, Function.update_of_ne hc] at hn
      exact hK.creates c n hn
  · simpa only [HeapMachine.goto, Function.update_self] using hheap

/-- It goes on with what it has. -/
lemma HeapMachine.Ok.pass (hK : K.Ok count) (hin : K.inside K.machine.sched.running = i)
    (hfreed : j = .freed ↔ i = .freed) (hthread : j.newThread = i.newThread) (hstack : j.newStack = i.newStack)
    (hcreates : ∀ n, j.stackSize = some n → K.machine.pc K.machine.sched.running = .user ∧ n ≠ 0)
    (hheap : (HeapMachine.goto { K with heap := h } j).HeapOk j) :
    HeapMachine.Goes count K (HeapMachine.goto { K with heap := h } j) := by
  refine hK.goto (hK.owns.congr fun o _ => ?_) hcreates hheap
  exact holding_goto hin (fun _ _ _ => hfreed) (fun _ => hthread) fun _ => hstack

/-- A direct step of the machine creates no thread and moves no stack. -/
lemma Linked.direct (hl : Linked M) {M' : Machine} {op : Op} (hop : op.direct = true) (hs : step M op = some M') :
    Linked M' ∧ M'.created = M.created ∧ SameStacks M.sched.threads M'.sched.threads := by
  by_cases hplain : op.plain = true
  · have hq := hl.quiet hplain hs
    exact ⟨hq.linked, hq.created, hq.stack⟩
  cases op with
  | exitMark =>
    have hq := (hl.exitMark hs).1
    exact ⟨hq.linked, hq.created, hq.stack⟩
  | exitSwitch =>
    have hpc : M.pc M.sched.running = .cleared := step_pc hs rfl
    simp only [step, hpc] at hs
    obtain ⟨hlinked, hcreated, hstack, -⟩ := callSchedule_in hl hs
    exact ⟨hlinked, hcreated, hstack⟩
  | create t stack size => cases hop
  | exitClear => cases hop
  | _ => exact absurd rfl hplain

/-- The machine takes a step that creates no thread and moves no stack. -/
lemma HeapMachine.Ok.moved (hK : K.Ok count) (hgood : ∃ V, Good count M V) (hlinked : Linked M)
    (hcreated : M.created = K.machine.created) (hstack : SameStacks K.machine.sched.threads M.sched.threads)
    (huser : ∀ c n, (K.inside c).stackSize = some n → M.pc c = .user)
    (hout : (K.inside K.machine.sched.running).inHeap = false) : HeapMachine.Ok count { K with machine := M } := by
  have hset : ∀ c, (K.inside c).inHeap = false := by
    intro c
    by_cases hc : c = K.machine.sched.running
    · rw [hc]
      exact hout
    · exact hK.settled c hc
  refine ⟨hgood, hlinked, hK.owns.congr fun o _ => ?_, fun p hp => hK.fresh p (hcreated ▸ hp), fun c _ => hset c,
    fun c n hn => ⟨huser c n hn, (hK.creates c n hn).2⟩, ?_⟩
  · cases o with
    | stack p => simp only [HeapMachine.holding, hcreated, hstack p]
    | thread p => simp only [HeapMachine.holding, hcreated]
    | _ => rfl
  · have hheap : K.WellFormed := (HeapMachine.heapOk_settled hout).mp hK.heap
    exact (HeapMachine.heapOk_settled (hset M.sched.running)).mpr hheap

theorem HeapMachine.Ok.sched (hK : K.Ok count) {op : Op} (hready : K.Ready (.sched op))
    (hund : K.Undisturbed (.sched op)) (hs : K.Steps (.sched op) K') : HeapMachine.Goes count K K' := by
  simp only [HeapMachine.Steps, HeapMachine.step, Option.ite_none_right_eq_some, Option.map_eq_some_iff] at hs
  obtain ⟨hop, M, hM, rfl⟩ := hs
  obtain ⟨V, hV⟩ := hK.placed
  obtain ⟨hgood, hdead⟩ := GoodStep.keeps hV ⟨op, hready, hM⟩
  refine ⟨?_, hdead⟩
  by_cases hout : (K.inside K.machine.sched.running).inHeap = true
  · -- only a tick comes here, and it finds nobody to dispatch
    obtain rfl : op = .tick := by
      rcases hop.2 with rfl | hi
      · rfl
      · rw [hi] at hout
        cases hout
    rw [step_tick, if_pos (hund.1 rfl hout), Option.some.injEq] at hM
    rw [← hM]
    exact hK
  · obtain ⟨hlinked, hcreated, hstack⟩ := hK.linked.direct hop.1 hM
    refine hK.moved hgood hlinked hcreated hstack (fun c n hn => ?_) (Bool.eq_false_iff.mpr hout)
    refine hK.linked.step_user hM (hK.creates c n hn).1 (hop.2.imp_right fun hi => ?_)
    rintro rfl
    rw [hi] at hn
    cases hn

theorem HeapMachine.Ok.create (hK : K.Ok count) {fn arg stackSize : UInt32}
    (hs : K.Steps (.create fn arg stackSize) K') : HeapMachine.Goes count K K' := by
  simp only [HeapMachine.Steps, HeapMachine.step, Option.ite_none_right_eq_some, Option.map_eq_some_iff] at hs
  obtain ⟨⟨hin, hpc⟩, curr, hcurr, rfl⟩ := hs
  obtain ⟨bs, hi, hr⟩ := hK.heapAt hin
  refine hK.pass (h := K.heap) hin (by simp) rfl rfl (fun n hn => ?_)
    ⟨⟨bs, hi, hr.goto (.finding curr fn arg (actualStackSize stackSize)) trivial⟩, hcurr⟩
  rw [← Option.some.inj hn]
  exact ⟨hpc, actualStackSize_ne_zero stackSize⟩

/-- A `kmalloc` that has found a block and was not disturbed. -/
lemma HeapMachine.take_cases (hi : HeapInvariant K.heap K.live bs) {n curr : UInt32} (hn : n ≠ 0)
    (hcurr : kmallocSearch K.heap (alignSize n) = some curr) :
    K.take n curr = (0, K) ∨ ∃ p h' bs', curr ≠ 0 ∧ p ≠ 0 ∧ p ∉ K.live ∧
      K.take n curr = (p, { K with heap := h', live := insert p K.live }) ∧
      HeapInvariant h' (insert p K.live) bs' ∧ KeepsUsed bs bs' ∧
      ∃ b ∈ bs', b.free = false ∧ b.payload 16 = p.toNat ∧ (alignSize n).toNat ≤ b.size := by
  have hk := kmalloc_eq K.heap hn
  rw [hcurr, Option.map_some] at hk
  rcases hi.kmalloc_used hn with ⟨-, hfail⟩ | ⟨p, h', bs', -, -, hp0, hpnew, hgot, hi', hkeep, hblock⟩
  · rw [hfail, Option.some.injEq, Prod.mk.injEq] at hk
    left
    simp only [HeapMachine.take, ← hk.1, ← hk.2, ite_true]
  · rw [hgot, Option.some.injEq, Prod.mk.injEq] at hk
    refine Or.inr ⟨p, h', bs', ?_, hp0, hpnew, ?_, hi', hkeep, hblock⟩
    · rintro rfl
      exact hp0 (hk.1.trans rfl)
    · simp only [HeapMachine.take, ← hk.1, ← hk.2, if_neg hp0]

/-- The `kfree` of something that is no new stack. -/
lemma HeapMachine.Ok.gives (hK : K.Ok count) (hi : HeapInvariant h K.live bs) (hr : Rooms K.inside bs) {u : Keeper}
    {q : UInt32} (hheld : K.holding u = some q.toNat) (hu : ∀ c, u ≠ .newStack c) :
    ∃ h' bs', kfree h q = some h' ∧ HeapInvariant h' (K.live.erase q) bs' ∧ Rooms K.inside bs' := by
  have hlive : q ∈ K.live := mem_addresses.mp (hK.owns.taken u trivial _ hheld)
  obtain ⟨h', bs', hfree, hi', hkeep⟩ := hi.kfree_used hlive
  refine ⟨h', bs', hfree, hi', hr.keep fun b hb hused ⟨c, hc⟩ => hkeep b hb hused fun hbq => ?_⟩
  rw [hbq] at hc
  exact hu c (hK.owns.distinct u trivial (.newStack c) trivial _ hheld hc)

/-- The first `kmalloc` of `thread_create` returns. -/
lemma HeapMachine.Ok.takeThread (hK : K.Ok count) {curr fn arg stackSize : UInt32}
    (hin : K.inside K.machine.sched.running = .finding curr fn arg stackSize)
    (hs : K.createRest (.finding curr fn arg stackSize) = some K') : HeapMachine.Goes count K K' := by
  obtain ⟨⟨bs, hi, hr⟩, hcurr⟩ := hK.heapAt hin
  have hcreates := hK.creates K.machine.sched.running stackSize (by rw [hin]; rfl)
  rcases take_cases hi (show sizeofThread ≠ 0 by decide) hcurr with
    htake | ⟨p, h', bs', -, hp0, hpnew, htake, hi', hkeep, -⟩
  · simp only [HeapMachine.createRest, htake, ite_true, Option.some.injEq] at hs
    rw [← hs]
    exact hK.pass (h := K.heap) hin (by simp) rfl rfl (fun _ hn => by cases hn)
      ⟨bs, hi, hr.goto .outside trivial⟩
  · simp only [HeapMachine.createRest, htake, if_neg hp0, Option.some.injEq] at hs
    rw [← hs]
    refine hK.goto ?_ (fun n hn => Option.some.inj hn ▸ hcreates)
      ⟨bs', hi', (hr.keep fun b hb hused _ => hkeep b hb hused).goto (.creating p fn arg stackSize) trivial⟩
    rw [addresses_insert]
    refine hK.owns.take (u := .newThread K.machine.sched.running) (fun hm => hpnew (mem_addresses.mp hm))
      (by simp [HeapMachine.holding, HeapMachine.goto, Inside.newThread]) fun o _ ho => ?_
    exact holding_goto hin (by simp) (fun he => absurd he ho) fun _ => rfl

/-- The second `kmalloc` finds a block. -/
lemma HeapMachine.Ok.searchStack (hK : K.Ok count) {t fn arg stackSize : UInt32}
    (hin : K.inside K.machine.sched.running = .creating t fn arg stackSize)
    (hs : K.createRest (.creating t fn arg stackSize) = some K') : HeapMachine.Goes count K K' := by
  obtain ⟨bs, hi, hr⟩ := hK.heapAt hin
  have hcreates := hK.creates K.machine.sched.running stackSize (by rw [hin]; rfl)
  rw [HeapMachine.createRest, Option.map_eq_some_iff] at hs
  obtain ⟨curr, hcurr, rfl⟩ := hs
  exact hK.pass (h := K.heap) hin (by simp) rfl rfl
    (fun n hn => Option.some.inj hn ▸ hcreates)
    ⟨⟨bs, hi, hr.goto (.findingStack t curr fn arg stackSize) trivial⟩, hcurr⟩

/-- The second `kmalloc` returns. -/
lemma HeapMachine.Ok.takeStack (hK : K.Ok count) {t curr fn arg stackSize : UInt32}
    (hin : K.inside K.machine.sched.running = .findingStack t curr fn arg stackSize)
    (hfits : curr ≠ 0 → FrameFits stackSize)
    (hs : K.createRest (.findingStack t curr fn arg stackSize) = some K') : HeapMachine.Goes count K K' := by
  obtain ⟨⟨bs, hi, hr⟩, hcurr⟩ := hK.heapAt hin
  have hcreates := hK.creates K.machine.sched.running stackSize (by rw [hin]; rfl)
  rcases take_cases hi hcreates.2 hcurr with htake | ⟨p, h', bs', hc0, hp0, hpnew, htake, hi', hkeep, hblock⟩
  · simp only [HeapMachine.createRest, htake, Option.some.injEq] at hs
    rw [← hs]
    exact hK.pass (h := K.heap) hin (by simp) rfl rfl
      (fun n hn => Option.some.inj hn ▸ hcreates)
      ⟨bs, hi, hr.goto (.preparing t 0 fn arg stackSize) fun h0 => absurd rfl h0⟩
  · simp only [HeapMachine.createRest, htake, Option.some.injEq] at hs
    rw [← hs]
    refine hK.goto ?_ (fun n hn => Option.some.inj hn ▸ hcreates)
      ⟨bs', hi', (hr.keep fun b hb hused _ => hkeep b hb hused).goto (.preparing t p fn arg stackSize)
        fun _ => ⟨hfits hc0, hblock⟩⟩
    rw [addresses_insert]
    refine hK.owns.take (u := .newStack K.machine.sched.running) (fun hm => hpnew (mem_addresses.mp hm))
      (by simp [HeapMachine.holding, HeapMachine.goto, Inside.newStack, hp0]) fun o _ ho => ?_
    exact holding_goto hin (by simp) (fun _ => rfl) fun he => absurd he ho

/-- Without a stack the `thread_t` is given back. -/
lemma HeapMachine.Ok.undo (hK : K.Ok count) {t fn arg stackSize : UInt32}
    (hin : K.inside K.machine.sched.running = .preparing t 0 fn arg stackSize) (hfree : kfree K.heap t = some h) :
    HeapMachine.Goes count K (HeapMachine.goto { K with heap := h, live := K.live.erase t } .outside) := by
  obtain ⟨bs, hi, hr⟩ := hK.heapAt hin
  have hheld : K.holding (.newThread K.machine.sched.running) = some t.toNat := by
    rw [HeapMachine.holding, hin, Inside.newThread]
  obtain ⟨h', bs', hfree', hi', hrooms⟩ := hK.gives hi hr hheld (by simp)
  obtain rfl : h = h' := Option.some.inj (hfree.symm.trans hfree')
  refine hK.goto ?_ (fun _ hn => by cases hn) ⟨bs', hi', hrooms.goto .outside trivial⟩
  rw [addresses_erase]
  refine hK.owns.give (u := .newThread K.machine.sched.running) trivial hheld
    (by simp [HeapMachine.holding, HeapMachine.goto, Inside.newThread]) fun o _ ho => ?_
  exact holding_goto hin (by simp) (fun he => absurd he ho) fun _ => rfl

/-- The machine takes a step, and its context comes out of the functions that use the heap. -/
lemma HeapMachine.Ok.leave (hK : K.Ok count) (hgood : ∃ V, Good count M V) (hlinked : Linked M)
    (hrun : M.sched.running = K.machine.sched.running) (hsub : K.machine.created ⊆ M.created)
    (hpc : ∀ c, c ≠ K.machine.sched.running → M.pc c = K.machine.pc c)
    (howns : Owns Set.univ (HeapMachine.goto { K with machine := M, heap := h } .outside).holding (addresses K.live))
    (hheap : ∃ bs, HeapInvariant h K.live bs ∧ Rooms K.inside bs) :
    HeapMachine.Ok count (HeapMachine.goto { K with machine := M, heap := h } .outside) := by
  refine ⟨hgood, hlinked, howns, ?_, ?_, ?_, ?_⟩
  · intro p hp
    have hp' : p ∉ K.machine.created := fun hm => hp (hsub hm)
    have hc : Context.thread p ≠ M.sched.running :=
      fun he => hp' (hK.linked.sched.executing p (hrun.symm.trans he.symm))
    exact (Function.update_of_ne hc ..).trans (hK.fresh p hp')
  · intro c hc
    have hc' : c ≠ M.sched.running := hc
    simp only [HeapMachine.goto, Function.update_of_ne hc']
    exact hK.settled c (hrun ▸ hc')
  · intro c n hn
    by_cases hc : c = M.sched.running
    · simp only [HeapMachine.goto, hc, Function.update_self] at hn
      cases hn
    · simp only [HeapMachine.goto, Function.update_of_ne hc] at hn
      exact ⟨(hpc c (hrun ▸ hc)).trans (hK.creates c n hn).1, (hK.creates c n hn).2⟩
  · simp only [HeapMachine.goto, Function.update_self]
    obtain ⟨bs, hi, hr⟩ := hheap
    exact ⟨bs, hi, hr.goto .outside trivial⟩

/-- The context hands the `thread_t` and the stack over to the new thread. -/
lemma HeapMachine.Ok.handed (hK : K.Ok count) {t stack fn arg stackSize : UInt32}
    (hin : K.inside K.machine.sched.running = .preparing t stack fn arg stackSize) (h0 : stack ≠ 0)
    (htC : t.toNat ∉ K.machine.created) (hrun : M.sched.running = K.machine.sched.running)
    (hcreated : M.created = insert t.toNat K.machine.created)
    (hstack : (M.sched.threads t.toNat).stack = some stack.toNat)
    (hothers : ∀ p, p ≠ t.toNat → (M.sched.threads p).stack = (K.machine.sched.threads p).stack) :
    Owns Set.univ (HeapMachine.goto { K with machine := M, heap := h } .outside).holding (addresses K.live) := by
  have hmem : ∀ p, p ≠ t.toNat → (p ∈ M.created ↔ p ∈ K.machine.created) := by
    intro p hp
    rw [hcreated, Finset.mem_insert, or_iff_right hp]
  have hne : Context.thread t.toNat ≠ K.machine.sched.running :=
    fun he => htC (hK.linked.sched.executing _ he.symm)
  have hfreed : ∀ c, Function.update K.inside K.machine.sched.running .outside c ≠ .freed ↔ K.inside c ≠ .freed := by
    intro c
    by_cases hc : c = K.machine.sched.running
    · simp [hc, hin]
    · rw [Function.update_of_ne hc]
  let f : Keeper → Option ℕ := Function.update
    (Function.update K.holding (.newThread K.machine.sched.running) none) (.thread t.toNat) (some t.toNat)
  have hthread : Owns Set.univ f (addresses K.live) := by
    refine hK.owns.handOver (u := .newThread K.machine.sched.running) (v := .thread t.toNat) trivial ?_ ?_ ?_
    · simp [f]
    · simp [f, HeapMachine.holding, hin, Inside.newThread]
    · intro o _ hou hov
      simp only [f, Function.update_of_ne hov, Function.update_of_ne hou]
  refine hthread.handOver (u := .newStack K.machine.sched.running) (v := .stack t.toNat) trivial ?_ ?_ ?_
  · simp [HeapMachine.holding, HeapMachine.goto, hrun, Inside.newStack]
  · have hplace : K.inside (.thread t.toNat) = .outside := hK.fresh _ htC
    simp [f, HeapMachine.holding, HeapMachine.goto, hrun, hcreated, hstack, hin, Inside.newStack, h0, hne, hplace]
  · intro o _ hou hov
    cases o with
    | client q =>
      have hold : f (.client q) = K.holding (.client q) := by simp [f]
      rw [hold]
      rfl
    | thread p =>
      by_cases hp : p = t.toNat
      · simp [f, HeapMachine.holding, HeapMachine.goto, hp, hcreated]
      · simp [f, HeapMachine.holding, HeapMachine.goto, hp, hmem p hp]
    | stack p =>
      have hp : p ≠ t.toNat := fun he => hov (congrArg Keeper.stack he)
      have hold : f (.stack p) = K.holding (.stack p) := by simp [f]
      rw [hold]
      simp only [HeapMachine.holding, HeapMachine.goto, hrun, hfreed, hmem p hp, hothers p hp]
    | newThread c =>
      by_cases hc : c = K.machine.sched.running
      · simp [f, HeapMachine.holding, HeapMachine.goto, hrun, hc, Inside.newThread]
      · simp [f, HeapMachine.holding, HeapMachine.goto, hrun, hc]
    | newStack c =>
      have hc : c ≠ K.machine.sched.running := fun he => hou (congrArg Keeper.newStack he)
      simp [f, HeapMachine.holding, HeapMachine.goto, hrun, hc]

/-- The new thread enters the run queue. -/
lemma HeapMachine.Ok.made (hK : K.Ok count) {t stack fn arg stackSize : UInt32}
    (hin : K.inside K.machine.sched.running = .preparing t stack fn arg stackSize) (h0 : stack ≠ 0)
    (hM : createThread K.machine t.toNat stack.toNat stackSize = some M)
    (hheap : ∃ bs, HeapInvariant h K.live bs ∧ Rooms K.inside bs) :
    HeapMachine.Goes count K (HeapMachine.goto { K with machine := M, heap := h } .outside) := by
  have hheld : K.holding (.newThread K.machine.sched.running) = some t.toNat := by
    rw [HeapMachine.holding, hin, Inside.newThread]
  have htC : t.toNat ∉ K.machine.created := by
    intro hC
    cases hK.owns.distinct (.thread t.toNat) trivial (.newThread _) trivial _ (if_pos hC) hheld
  have hpc : K.machine.pc K.machine.sched.running = .user := (hK.creates _ stackSize (by rw [hin]; rfl)).1
  have hstep : Scheduler.step K.machine (.create (some t.toNat) (some stack.toNat) stackSize) = some M := by
    have hfresh : ∀ u ∈ some t.toNat, u ∉ K.machine.created := by simpa using htC
    simp only [Scheduler.step, hpc]
    rw [if_pos hfresh]
    exact hM
  obtain ⟨V, hV⟩ := hK.placed
  obtain ⟨hgood, hdead⟩ := GoodStep.keeps hV
    ⟨.create (some t.toNat) (some stack.toNat) stackSize, fun hb => hb.elim, hstep⟩
  obtain ⟨hlinked, -, hcreated, hsame, hstack, hothers⟩ := hK.linked.create hstep
  have hrun : M.sched.running = K.machine.sched.running := running_kept hstep fun hc => hc.elim
  exact ⟨hK.leave hgood hlinked hrun (hcreated ▸ Finset.subset_insert _ _) (fun c _ => congrFun hsame c)
    (hK.handed hin h0 htC hrun hcreated hstack hothers) hheap, hdead⟩

/-- `thread_create` goes on, with a stack that holds the first frame. -/
theorem HeapMachine.Ok.createRest (hK : K.Ok count) (hund : K.Undisturbed .createRest)
    (hs : K.Steps .createRest K') : HeapMachine.Goes count K K' := by
  simp only [HeapMachine.Steps, HeapMachine.step] at hs
  have hfits := hund.2 rfl
  generalize hin : K.inside K.machine.sched.running = i at hs hfits
  cases i with
  | finding curr fn arg stackSize => exact hK.takeThread hin hs
  | creating t fn arg stackSize => exact hK.searchStack hin hs
  | findingStack t curr fn arg stackSize => exact hK.takeStack hin hfits hs
  | preparing t stack fn arg stackSize =>
    rw [HeapMachine.createRest] at hs
    split at hs
    · rename_i h0
      subst h0
      obtain ⟨h, hfree, rfl⟩ := Option.map_eq_some_iff.mp hs
      exact hK.undo hin hfree
    · rename_i h0
      obtain ⟨M, hM, rfl⟩ := Option.map_eq_some_iff.mp hs
      obtain ⟨bs, hi, hr⟩ := hK.heapAt hin
      have hroom := hr K.machine.sched.running
      rw [hin] at hroom
      obtain ⟨hframe, hblock⟩ := hroom h0
      exact hK.made hin h0 hM ⟨bs, prepareStack_invariant hi fn arg K.trampoline hblock hframe.1 hframe.2, hr⟩
  | _ => cases hs

/-- The first half of the `kfree` of a stack. -/
theorem HeapMachine.Ok.freeStack (hK : K.Ok count) (hs : K.Steps .freeStack K') : HeapMachine.Goes count K K' := by
  simp only [HeapMachine.Steps, HeapMachine.step, Option.ite_none_right_eq_some] at hs
  obtain ⟨⟨hin, -⟩, hcall⟩ := hs
  obtain ⟨bs, hi, hr⟩ := hK.heapAt hin
  rw [HeapMachine.freeStack, Option.map_eq_some_iff] at hcall
  obtain ⟨p, hp, hcall⟩ := hcall
  have hnf : K.inside (.thread p) ≠ .freed := by
    rw [← hK.linked.sched.active p hp, hin]
    simp
  dsimp only at hcall
  split at hcall
  · obtain rfl := hcall
    refine hK.goto (h := K.heap) (hK.owns.forget fun o _ r hr => ?_) (fun _ hn => by cases hn)
      ⟨bs, hi, hr.goto .freed trivial⟩
    have hsame : (K.goto .freed).holding o = K.holding o := by
      refine holding_goto hin (fun u hu hc => ?_) (fun _ => rfl) fun _ => rfl
      -- the stack that is given up is held no longer
      simp [hu, HeapMachine.holding, HeapMachine.goto, hc] at hr
    rw [← hsame, hr]
  · rename_i hstack
    obtain rfl := hcall
    rw [not_or, not_not] at hstack
    refine hK.pass hin (by simp) rfl rfl (fun _ hn => by cases hn)
      ⟨K.heap, bs, p, _, hi, hr.goto (.freeing _ _) trivial, hp, ?_, rfl, hstack.1, hstack.2, rfl, rfl⟩
    cases hst : (K.machine.sched.threads p).stack with
    | none => exact absurd (by simp [hst]) hstack.1
    | some k =>
      have hheld : K.holding (.stack p) = some k := by
        rw [HeapMachine.holding, if_pos ⟨hK.linked.sched.current p hp, hnf⟩, hst]
      obtain ⟨q, -, rfl⟩ := hK.owns.taken (.stack p) trivial k hheld
      simp [HeapMachine.goto, hst]

lemma HeapMachine.step_freeStackRest (hs : K.step .freeStackRest = some K') : ∃ block merges,
    K.inside K.machine.sched.running = .freeing block merges ∧
      (K.freeStackRest block merges).map (HeapMachine.goto · .freed) = some K' := by
  cases hi : K.inside K.machine.sched.running with
  | freeing block merges => exact ⟨block, merges, rfl, by simpa only [HeapMachine.step, hi] using hs⟩
  | _ => simp [HeapMachine.step, hi] at hs

/-- The rest of the `kfree` of a stack. -/
theorem HeapMachine.Ok.freeStackRest (hK : K.Ok count) (hs : K.Steps .freeStackRest K') :
    HeapMachine.Goes count K K' := by
  obtain ⟨block, merges, hin, hcall⟩ := step_freeStackRest hs
  obtain ⟨h, bs, p, q, hi, hr, hp, hst, rfl, hq, hmagic, hmid, rfl⟩ := hK.heapAt hin
  have hrun := hK.linked.sched.active p hp
  have hnf : K.inside (.thread p) ≠ .freed := by simp [← hrun, hin]
  have hheld : K.holding (.stack p) = some q.toNat := by
    rw [HeapMachine.holding, if_pos ⟨hK.linked.sched.current p hp, hnf⟩, hst]
  obtain ⟨h', bs', hfree, hi', hrooms⟩ := hK.gives hi hr hheld (by simp)
  have hback : q - blockHeader + blockHeader = q := UInt32.sub_add_cancel q blockHeader
  rw [kfree_eq hq hmagic, ← hmid] at hfree
  simp only [HeapMachine.freeStackRest, hfree, Option.map_some, Option.some.injEq, hback] at hcall
  rw [← hcall]
  refine hK.goto ?_ (fun _ hn => by cases hn) ⟨bs', hi', hrooms.goto .freed trivial⟩
  rw [addresses_erase]
  refine hK.owns.give (u := .stack p) trivial hheld (by simp [HeapMachine.holding, HeapMachine.goto, ← hrun]) ?_
  intro o _ ho
  refine holding_goto hin (fun u hu hc => ?_) (fun _ => rfl) fun _ => rfl
  rw [hu, Context.thread.inj (hc.trans hrun)] at ho
  exact absurd rfl ho

/-- A thread that has given its stack back is no longer current. -/
theorem HeapMachine.Ok.exitClear (hK : K.Ok count) (hs : K.Steps .exitClear K') : HeapMachine.Goes count K K' := by
  simp only [HeapMachine.Steps, HeapMachine.step, Option.ite_none_right_eq_some, Option.map_eq_some_iff] at hs
  obtain ⟨hin, M, hM, rfl⟩ := hs
  obtain ⟨V, hV⟩ := hK.placed
  obtain ⟨hgood, hdead⟩ := GoodStep.keeps hV ⟨.exitClear, fun hb => hb.elim, hM⟩
  obtain ⟨p, hp, hlinked, hcreated, hrun, hnone, hothers, hpc⟩ := hK.linked.exitClear hM
  have hpr := hK.linked.sched.active p hp
  refine ⟨hK.leave hgood hlinked hrun hcreated.ge hpc (hK.owns.forget fun o _ r hr => ?_) (hK.heapAt hin), hdead⟩
  cases o with
  | client q => exact hr
  | thread u => simpa only [HeapMachine.holding, HeapMachine.goto, hcreated] using hr
  | stack u =>
    by_cases hup : u = p
    · simp [HeapMachine.holding, hup, HeapMachine.goto, hnone] at hr
    · have hu : Context.thread u ≠ K.machine.sched.running := by
        rw [hpr]
        exact fun he => hup (Context.thread.inj he)
      simpa only [HeapMachine.holding, HeapMachine.goto, hcreated, hrun, Function.update_of_ne hu, hothers u hup]
        using hr
  | newThread c =>
    by_cases hc : c = K.machine.sched.running
    · simp [HeapMachine.holding, HeapMachine.goto, hrun, hc, Inside.newThread] at hr
    · simpa only [HeapMachine.holding, HeapMachine.goto, hrun, Function.update_of_ne hc] using hr
  | newStack c =>
    by_cases hc : c = K.machine.sched.running
    · simp [HeapMachine.holding, HeapMachine.goto, hrun, hc, Inside.newStack] at hr
    · simpa only [HeapMachine.holding, HeapMachine.goto, hrun, Function.update_of_ne hc] using hr

/-- Other users of the heap call it, or somebody stores into what they have. -/
lemma HeapMachine.Ok.used (hK : K.Ok count) (hin : K.inside K.machine.sched.running = .outside)
    {clients : Finset UInt32}
    (howns : Owns Set.univ (HeapMachine.holding { K with heap := h, live := live, clients := clients })
      (addresses live))
    (hheap : ∃ bs, HeapInvariant h live bs ∧ Rooms K.inside bs) :
    HeapMachine.Goes count K { K with heap := h, live := live, clients := clients } := by
  refine ⟨⟨hK.placed, hK.linked, howns, hK.fresh, hK.settled, hK.creates, ?_⟩, fun _ hp => hp⟩
  simp only [hin]
  exact hheap

theorem HeapMachine.Ok.malloc (hK : K.Ok count) {n : UInt32} (hs : K.Steps (.malloc n) K') :
    HeapMachine.Goes count K K' := by
  simp only [HeapMachine.Steps, HeapMachine.step, Option.ite_none_right_eq_some, Option.map_eq_some_iff] at hs
  obtain ⟨⟨hin, -⟩, ⟨p, h'⟩, hk, rfl⟩ := hs
  obtain ⟨bs, hi, hr⟩ := hK.heapAt hin
  have hsame : kmalloc K.heap n = some (0, K.heap) → HeapMachine.Goes count K
      (if p = 0 then { K with heap := h' }
        else { K with heap := h', live := insert p K.live, clients := insert p K.clients }) := by
    intro hfail
    rw [hk, Option.some.injEq, Prod.mk.injEq] at hfail
    rw [if_pos hfail.1, hfail.2]
    exact ⟨hK, fun _ hp => hp⟩
  by_cases hn : n = 0
  · exact hsame (if_pos hn)
  rcases hi.kmalloc_used hn with ⟨-, hfail⟩ | ⟨q, h₁, bs₁, -, -, hq0, hqnew, hk₁, hi₁, hkeep, -⟩
  · exact hsame hfail
  · rw [hk, Option.some.injEq, Prod.mk.injEq] at hk₁
    obtain ⟨rfl, rfl⟩ := hk₁
    dsimp only
    rw [if_neg hq0]
    refine hK.used hin ?_ ⟨bs₁, hi₁, hr.keep fun b hb hused _ => hkeep b hb hused⟩
    rw [addresses_insert]
    refine hK.owns.take (u := .client p) (fun hm => hqnew (mem_addresses.mp hm)) (by simp [HeapMachine.holding]) ?_
    intro o _ ho
    cases o with
    | client r =>
      have hr : r ≠ p := fun he => ho (congrArg Keeper.client he)
      simp [HeapMachine.holding, hr]
    | _ => rfl

theorem HeapMachine.Ok.free (hK : K.Ok count) {p : UInt32} (hs : K.Steps (.free p) K') :
    HeapMachine.Goes count K K' := by
  simp only [HeapMachine.Steps, HeapMachine.step, Option.ite_none_right_eq_some, Option.map_eq_some_iff] at hs
  obtain ⟨⟨hin, -, hp⟩, h', hk, rfl⟩ := hs
  obtain ⟨bs, hi, hr⟩ := hK.heapAt hin
  have hheld : K.holding (.client p) = some p.toNat := if_pos hp
  obtain ⟨h₁, bs₁, hk₁, hi₁, hrooms⟩ := hK.gives hi hr hheld (by simp)
  obtain rfl : h' = h₁ := Option.some.inj (hk.symm.trans hk₁)
  refine hK.used hin ?_ ⟨bs₁, hi₁, hrooms⟩
  rw [addresses_erase]
  refine hK.owns.give (u := .client p) trivial hheld (by simp [HeapMachine.holding]) ?_
  intro o _ ho
  cases o with
  | client r =>
    have hr : r ≠ p := fun he => ho (congrArg Keeper.client he)
    simp [HeapMachine.holding, hr]
  | _ => rfl

theorem HeapMachine.Ok.store (hK : K.Ok count) {p : UInt32} {a : ℕ} {b : UInt8} (hs : K.Steps (.store p a b) K') :
    HeapMachine.Goes count K K' := by
  simp only [HeapMachine.Steps, HeapMachine.step, Option.ite_none_right_eq_some, Option.some.injEq] at hs
  obtain ⟨⟨hin, hp, hlo, hhi⟩, rfl⟩ := hs
  obtain ⟨bs, hi, hr⟩ := hK.heapAt hin
  have hlive : p ∈ K.live := by
    rcases hp with hp | ⟨q, hq, hnf, hst⟩
    · exact mem_addresses.mp (hK.owns.taken (.client p) trivial _ (if_pos hp))
    · exact mem_addresses.mp (hK.owns.taken (.stack q) trivial _ ((if_pos ⟨hq, hnf⟩).trans hst))
  exact hK.used hin hK.owns ⟨bs, hi.store hlive hlo hhi b, hr⟩

/-- Every step in which nobody blocks with an empty run queue and no context is disturbed in the heap. -/
theorem HeapMachine.Ok.step (hK : K.Ok count) {a : Act} (ha : K.Ready a ∧ K.Undisturbed a) (hs : K.Steps a K') :
    HeapMachine.Goes count K K' := by
  cases a with
  | sched op => exact hK.sched ha.1 ha.2 hs
  | create fn arg stackSize => exact hK.create hs
  | createRest => exact hK.createRest ha.2 hs
  | freeStack => exact hK.freeStack hs
  | freeStackRest => exact hK.freeStackRest hs
  | exitClear => exact hK.exitClear hs
  | malloc n => exact hK.malloc hs
  | free p => exact hK.free hs
  | store p a b => exact hK.store hs

end Invariant

end SBoy28.Scheduler
