import Mathlib.Data.Finset.Insert
import Mathlib.Logic.Function.Basic
import Mathlib.Logic.Relation

/-!
# Threads, mutexes and semaphores

The run queue and the wait queues of `scheduler.c` are singly linked through the one `next`
field of `thread_t`. Every critical section runs with interrupts disabled on one processor,
so each is one step here and the spin lock is never contended. A dereference of the null
pointer is `none`.

`esp` is the stack on which a context was suspended; it is identified with the context
whose registers were pushed there.
-/

namespace SBoy28.Scheduler

/-- The address of a `thread_t`. -/
abbrev ThreadPtr := ℕ

inductive ThreadState where
  | ready
  | running
  | zombie
  | sleeping
  deriving DecidableEq, Repr

/-- Who executes: the context that entered `kmain`, or the one of a created thread. -/
inductive Context where
  | boot
  | thread (t : ThreadPtr)
  deriving DecidableEq, Repr

structure Thread where
  esp : Context
  id : UInt32
  stack : Option ℕ
  stackSize : UInt32
  state : ThreadState
  next : Option ThreadPtr
  deriving DecidableEq, Repr

structure Queue where
  head : Option ThreadPtr
  tail : Option ThreadPtr
  deriving DecidableEq, Repr

structure Mutex where
  locked : Bool
  wait : Queue

structure Semaphore where
  count : Int32
  wait : Queue

abbrev Threads := ThreadPtr → Thread

/-- The statics of the scheduler, the objects it works on, and the executing context. -/
structure Sched where
  threads : Threads
  run : Queue
  current : Option ThreadPtr
  nextTid : UInt32
  mutexes : ℕ → Mutex
  semaphores : ℕ → Semaphore
  running : Context

def threadDefaultStack : UInt32 := 8 * 1024

def setNext (th : Threads) (t : ThreadPtr) (v : Option ThreadPtr) : Threads :=
  Function.update th t { th t with next := v }

def setState (th : Threads) (t : ThreadPtr) (v : ThreadState) : Threads :=
  Function.update th t { th t with state := v }

def setEsp (th : Threads) (t : ThreadPtr) (c : Context) : Threads :=
  Function.update th t { th t with esp := c }

/-- `t->next = NULL` and the append behind `tail`, written out in `enqueue_thread_locked`,
`mutex_lock` and `sem_wait`. -/
def pushBack (th : Threads) (q : Queue) (t : ThreadPtr) : Option (Threads × Queue) :=
  let th := setNext th t none
  if q.head = none then some (th, ⟨some t, some t⟩)
  else q.tail.map (fun u => (setNext th u (some t), ⟨q.head, some t⟩))

/-- The head moved on to its successor, written out in `dequeue_thread_locked`,
`mutex_unlock` and `sem_post`. -/
def popFront (th : Threads) (q : Queue) (t : ThreadPtr) : Queue :=
  ⟨(th t).next, if (th t).next = none then none else q.tail⟩

def enqueueThreadLocked (s : Sched) (t : ThreadPtr) : Option Sched :=
  (pushBack s.threads s.run t).map (fun r => { s with threads := r.1, run := r.2 })

def dequeueThreadLocked (s : Sched) : Option ThreadPtr × Sched :=
  match s.run.head with
  | none => (none, s)
  | some t => (some t, { s with run := popFront s.threads s.run t, threads := setNext s.threads t none })

/-- The caller's registers stay on its stack, whose address goes to `prev->esp` unless `prev`
is null; execution continues on the stack in `next->esp`. -/
def contextSwitch (s : Sched) (prev : Option ThreadPtr) (next : ThreadPtr) : Sched :=
  match prev with
  | none => { s with running := (s.threads next).esp }
  | some p =>
    let th := setEsp s.threads p s.running
    { s with threads := th, running := (th next).esp }

def schedule (s : Sched) : Option Sched :=
  match dequeueThreadLocked s with
  | (none, s) => some s
  | (some next, s) =>
    let prev := s.current
    let requeued :=
      match prev with
      | none => some s
      | some p =>
        if (s.threads p).state = ThreadState.running then
          enqueueThreadLocked { s with threads := setState s.threads p .ready } p
        else some s
    requeued.map fun s =>
      contextSwitch { s with threads := setState s.threads next .running, current := some next }
        prev next

/-- `thread_system_init`: what was in memory before does not matter. -/
def threadSystemInit (s : Sched) : Sched :=
  { s with run := ⟨none, none⟩, current := none, nextTid := 1 }

def mutexInit : Mutex := ⟨false, ⟨none, none⟩⟩

def semInit (count : Int32) : Semaphore := ⟨count, ⟨none, none⟩⟩

/-- `thread_create` with the results of its two calls of `kmalloc`: the thread id and the new
state. No tick comes in between, and the stack holds the 48 bytes of `prepare_stack`, which would
otherwise go over whatever is below it. -/
def threadCreate (s : Sched) (t : Option ThreadPtr) (stack : Option ℕ) (stackSize : UInt32) :
    Option (UInt32 × Sched) :=
  let stackSize := if stackSize = 0 then threadDefaultStack else stackSize
  match t, stack with
  | none, _ => some (0, s)
  | some _, none => some (0, s)
  | some t, some stack =>
    let id := s.nextTid
    let thread : Thread := ⟨.thread t, id, some stack, stackSize, .ready, none⟩
    let s := { s with threads := Function.update s.threads t thread, nextTid := id + 1 }
    (enqueueThreadLocked s t).map (fun s => (id, s))

/-- The test that `thread_yield` makes before it calls `schedule`. -/
def yieldReturns (s : Sched) : Bool :=
  s.run.head = none ∨ s.run.head = s.current

/-- The append of the current thread to a wait queue, in state `THREAD_SLEEPING`. -/
def sleepOn (s : Sched) (q : Queue) : Option (Sched × Queue) :=
  s.current.bind fun p =>
    (pushBack (setState s.threads p .sleeping) q p).map
      (fun r => ({ s with threads := r.1 }, r.2))

/-- The head of a wait queue made ready, or `none` for an empty queue. -/
def wakeHead (s : Sched) (q : Queue) : Option (Option (Sched × Queue)) :=
  match q.head with
  | none => some none
  | some t =>
    let q := popFront s.threads q t
    (enqueueThreadLocked { s with threads := setState s.threads t .ready } t).map
      (fun s => some (s, q))

def setMutex (s : Sched) (mtx : ℕ) (v : Mutex) : Sched :=
  { s with mutexes := Function.update s.mutexes mtx v }

def setSemaphore (s : Sched) (sem : ℕ) (v : Semaphore) : Sched :=
  { s with semaphores := Function.update s.semaphores sem v }

/-- The critical section of `mutex_lock`; the flag says that it goes on to `schedule`. -/
def mutexLock (s : Sched) (mtx : ℕ) : Option (Sched × Bool) :=
  if (s.mutexes mtx).locked = false then
    some (setMutex s mtx { s.mutexes mtx with locked := true }, false)
  else
    (sleepOn s (s.mutexes mtx).wait).map
      (fun r => (setMutex r.1 mtx { s.mutexes mtx with wait := r.2 }, true))

def mutexUnlock (s : Sched) (mtx : ℕ) : Option Sched :=
  (wakeHead s (s.mutexes mtx).wait).map fun
    | some r => setMutex r.1 mtx { s.mutexes mtx with wait := r.2 }
    | none => setMutex s mtx { s.mutexes mtx with locked := false }

/-- The critical section of `sem_wait`; the flag says that it goes on to `schedule`. -/
def semWait (s : Sched) (sem : ℕ) : Option (Sched × Bool) :=
  if 0 < (s.semaphores sem).count then
    some (setSemaphore s sem { s.semaphores sem with count := (s.semaphores sem).count - 1 }, false)
  else
    (sleepOn s (s.semaphores sem).wait).map
      (fun r => (setSemaphore r.1 sem { s.semaphores sem with wait := r.2 }, true))

def semPost (s : Sched) (sem : ℕ) : Option Sched :=
  (wakeHead s (s.semaphores sem).wait).map fun
    | some r => setSemaphore r.1 sem { s.semaphores sem with wait := r.2 }
    | none => setSemaphore s sem { s.semaphores sem with count := (s.semaphores sem).count + 1 }

/-- `current->state = THREAD_ZOMBIE` in `thread_exit`. -/
def exitMark (s : Sched) (p : ThreadPtr) : Sched :=
  { s with threads := setState s.threads p .zombie }

/-- `thread_exit` between that and its call of `schedule`. -/
def exitClear (s : Sched) : Option Sched :=
  s.current.map fun p =>
    { s with threads := Function.update s.threads p { s.threads p with stack := none }, current := none }

/-- Where a context is: in its own code, or inside a call of the scheduler that has not
returned. `halt` is the endless loop at the end of `thread_exit`. -/
inductive Pc where
  | user
  | yielding
  | locking (mtx : ℕ)
  | waiting (sem : ℕ)
  | exiting
  | cleared
  | halt
  deriving DecidableEq, Repr

/-- What is observed: returns of `mutex_lock` and `sem_wait`, calls of the other two. -/
inductive Event where
  | locked (c : Context) (mtx : ℕ)
  | unlocked (c : Context) (mtx : ℕ)
  | waited (c : Context) (sem : ℕ)
  | posted (c : Context) (sem : ℕ)
  deriving DecidableEq, Repr

/-- The scheduler with the contexts that call it, the threads created so far, and the events
seen so far, latest first. -/
structure Machine where
  sched : Sched
  pc : Context → Pc
  created : Finset ThreadPtr
  history : List Event

/-- The context that executes after a switch returns from its call. -/
def resume (M : Machine) : Machine :=
  let c := M.sched.running
  match M.pc c with
  | .locking mtx =>
    { M with pc := Function.update M.pc c .user, history := .locked c mtx :: M.history }
  | .waiting sem =>
    { M with pc := Function.update M.pc c .user, history := .waited c sem :: M.history }
  | _ => M

/-- The executing context calls `schedule` and is to go on at `k`. -/
def callSchedule (M : Machine) (k : Pc) : Option Machine :=
  (schedule M.sched).map fun s =>
    resume { M with sched := s, pc := Function.update M.pc M.sched.running k }

/-- Since its last return from `mutex_lock` on `mtx`, the context has not called
`mutex_unlock` on it. -/
def holds : List Event → Context → ℕ → Bool
  | [], _, _ => false
  | .locked c' mtx' :: h, c, mtx => if c' = c ∧ mtx' = mtx then true else holds h c mtx
  | .unlocked c' mtx' :: h, c, mtx => if c' = c ∧ mtx' = mtx then false else holds h c mtx
  | _ :: h, c, mtx => holds h c mtx

/-- The steps of the executing context and of the timer. `thread_yield` and `thread_exit` are
not critical sections as a whole, so a tick may come between their parts. -/
inductive Op where
  | create (t : Option ThreadPtr) (stack : Option ℕ) (stackSize : UInt32)
  | yieldTest
  | yieldSwitch
  | tick
  | exitMark
  | exitClear
  | exitSwitch
  | lock (mtx : ℕ)
  | unlock (mtx : ℕ)
  | wait (sem : ℕ)
  | post (sem : ℕ)
  deriving DecidableEq, Repr

/-- One step, or `none` if the executing context cannot make it: it is elsewhere in its code,
`kmalloc` would hand out a live `thread_t`, or a null pointer is dereferenced. `thread_create` is
one step here, without a tick inside of it, and its stack has room for the first frame, so that
`prepare_stack` writes over no `thread_t`. -/
def step (M : Machine) (op : Op) : Option Machine :=
  let c := M.sched.running
  let log := fun (e : Event) (s : Sched) => { M with sched := s, history := e :: M.history }
  match op, M.pc c with
  | .create t stack size, .user =>
    if ∀ u ∈ t, u ∉ M.created then
      (threadCreate M.sched t stack size).map fun r =>
        { M with
          sched := r.2
          created :=
            match t, stack with
            | some t, some _ => insert t M.created
            | _, _ => M.created }
    else none
  | .yieldTest, .user =>
    if yieldReturns M.sched then some M
    else some { M with pc := Function.update M.pc c .yielding }
  | .yieldSwitch, .yielding => callSchedule M .user
  | .tick, pc => if M.sched.run.head = none then some M else callSchedule M pc
  | .exitMark, .user =>
    match M.sched.current with
    | none => some M
    | some p =>
      some { M with sched := exitMark M.sched p, pc := Function.update M.pc c .exiting }
  | .exitClear, .exiting =>
    (exitClear M.sched).map fun s => { M with sched := s, pc := Function.update M.pc c .cleared }
  | .exitSwitch, .cleared => callSchedule M .halt
  | .lock mtx, .user =>
    (mutexLock M.sched mtx).bind fun r =>
      if r.2 then callSchedule { M with sched := r.1 } (.locking mtx)
      else some (log (.locked c mtx) r.1)
  | .unlock mtx, .user => (mutexUnlock M.sched mtx).map (log (.unlocked c mtx))
  | .wait sem, .user =>
    (semWait M.sched sem).bind fun r =>
      if r.2 then callSchedule { M with sched := r.1 } (.waiting sem)
      else some (log (.waited c sem) r.1)
  | .post sem, .user => (semPost M.sched sem).map (log (.posted c sem))
  | _, _ => none

/-- A tick interrupts a context anywhere, and it goes on where it was. -/
lemma step_tick (M : Machine) :
    step M .tick =
      if M.sched.run.head = none then some M else callSchedule M (M.pc M.sched.running) := by
  simp only [step]

/-- The machine when `thread_system_init` returns, all mutexes and semaphores initialised. -/
def start (s : Sched) (count : ℕ → Int32) : Machine where
  sched := { threadSystemInit s with
    mutexes := fun _ => mutexInit
    semaphores := fun i => semInit (count i)
    running := .boot }
  pc := fun _ => .user
  created := ∅
  history := []

/-- The machine after a list of steps. -/
def run (M : Machine) (ops : List Op) : Option Machine :=
  ops.foldlM step M

/-- The step is a call of `mutex_lock` or `sem_wait` that blocks. -/
def Blocks (M : Machine) : Op → Prop
  | .lock mtx => (M.sched.mutexes mtx).locked = true
  | .wait sem => ¬0 < (M.sched.semaphores sem).count
  | _ => False

/-- A step that does not block while the run queue is empty. -/
def GoodStep (M M' : Machine) : Prop :=
  ∃ op, (Blocks M op → M.sched.run.head ≠ none) ∧ step M op = some M'

/-- The states reached through such steps. -/
def Reached (s : Sched) (count : ℕ → Int32) (M : Machine) : Prop :=
  Relation.ReflTransGen GoodStep (start s count) M

/-- A call of `mutex_unlock` is made by a context that holds the mutex. `mutex_unlock` itself does not
test this. -/
def UnlocksOwn (M : Machine) : Op → Prop
  | .unlock mtx => holds M.history M.sched.running mtx = true
  | _ => True

/-- A good step in which nobody unlocks the mutex of another one. -/
def OwnStep (M M' : Machine) : Prop :=
  ∃ op, (Blocks M op → M.sched.run.head ≠ none) ∧ UnlocksOwn M op ∧ step M op = some M'

/-- The states reached through steps in which only the holder of a mutex unlocks it. -/
def ReachedByOwners (s : Sched) (count : ℕ → Int32) (M : Machine) : Prop :=
  Relation.ReflTransGen OwnStep (start s count) M

end SBoy28.Scheduler
