import SBoy28.Lib.Sections
import SBoy28.Scheduler.Contexts

/-!
# The critical sections of the scheduler

`scheduler.c` instruction by instruction as far as the interrupt flag and the spin lock go: `save_irq_state`,
`spinlock_lock`, the work on the queues in pieces, `spinlock_unlock`, `context_switch` and `restore_irq_state`. The
timer may interrupt wherever interrupts are enabled. The machine that the other files are about, in which every
section is one step, has all the states that this one reaches.
-/

namespace SBoy28.Scheduler
open Lib

section Model

/-- The call of `dequeue_thread_locked` in `schedule`. With an empty run queue the call of `schedule` is at its end;
`k` is where its caller is then. -/
def dequeuePiece (k : Pc → Pc) (M : Machine) : Option Machine :=
  if M.sched.run.head = none then
    some (resume { M with pc := Function.update M.pc M.sched.running (k (M.pc M.sched.running)) })
  else some { M with sched := (dequeueThreadLocked M.sched).2 }

/-- `prev` goes back to the run queue if it is running. -/
def requeue (prev : Option ThreadPtr) (s : Sched) : Option Sched :=
  match prev with
  | none => some s
  | some p =>
    if (s.threads p).state = ThreadState.running then
      enqueueThreadLocked { s with threads := setState s.threads p .ready } p
    else some s

def requeuePiece (prev : Option ThreadPtr) (M : Machine) : Option Machine :=
  (requeue prev M.sched).map fun s => { M with sched := s }

/-- `next->state = THREAD_RUNNING; current = next`. -/
def dispatch (next : ThreadPtr) (s : Sched) : Sched :=
  { s with threads := setState s.threads next .running, current := some next }

def dispatchPiece (next : ThreadPtr) (M : Machine) : Option Machine := some { M with sched := dispatch next M.sched }

/-- `context_switch`, with which the caller's call is at its end as soon as the caller executes again. -/
def switchPiece (k : Pc → Pc) (prev : Option ThreadPtr) (next : ThreadPtr) (M : Machine) : Option Machine :=
  some (resume { M with
    sched := contextSwitch M.sched prev next
    pc := Function.update M.pc M.sched.running (k (M.pc M.sched.running)) })

/-- `schedule`, and then `rest`. -/
def scheduleCode (k : Pc → Pc) (rest : Code Machine) : Code Machine :=
  .saveIrq <| .lock <| .act (dequeuePiece k) fun M =>
    match M.sched.run.head with
    | none => .unlock <| .restoreIrq rest
    | some next =>
      .act (requeuePiece M.sched.current) fun _ =>
        .act (dispatchPiece next) fun _ =>
          .unlock <| .switch (switchPiece k M.sched.current next) <| .restoreIrq rest

/-- The work of `mutex_lock` or of `sem_wait` on its object or on the wait queue: `part` says whether the caller has
to sleep, and otherwise it has what it asked for. -/
def blockingPiece (part : Sched → Option (Sched × Bool)) (event : Context → Event) (M : Machine) : Option Machine :=
  (part M.sched).map fun r =>
    if r.2 then { M with sched := r.1 } else { M with sched := r.1, history := event M.sched.running :: M.history }

/-- A call that is one section with one piece of work. -/
def sectionCode (op : Op) : Code Machine :=
  .saveIrq <| .lock <| .act (step · op) fun _ => .unlock <| .restoreIrq .done

/-- `mutex_lock` and `sem_wait`: a section, and `schedule` if the caller has to sleep. -/
def blockingCode (part : Sched → Option (Sched × Bool)) (event : Context → Event) (k : Pc) : Code Machine :=
  .saveIrq <| .lock <| .act (blockingPiece part event) fun M =>
    if (part M.sched).any Prod.snd then .unlock <| scheduleCode (fun _ => k) <| .restoreIrq .done
    else .unlock <| .restoreIrq .done

def mutexLockCode (mtx : ℕ) : Code Machine := blockingCode (mutexLock · mtx) (.locked · mtx) (.locking mtx)

def semWaitCode (sem : ℕ) : Code Machine := blockingCode (semWait · sem) (.waited · sem) (.waiting sem)

def threadYieldCode : Code Machine :=
  .act (step · .yieldTest) fun M => if yieldReturns M.sched then .done else scheduleCode (fun _ => .user) .done

/-- `thread_exit` from `current->stack = NULL` on. -/
def exitClearCode : Code Machine := .act (step · .exitClear) fun _ => scheduleCode (fun _ => .halt) .halt

def threadExitCode : Code Machine :=
  .act (step · .exitMark) fun M => if M.sched.current = none then .done else exitClearCode

/-- `scheduler_tick_from_irq`, and then the end of the interrupt. -/
def tickCode (c : Code Machine) : Code Machine :=
  .act some fun M => if M.sched.run.head = none then c else scheduleCode id c

/-- The calls that a context can make. `thread_create` calls `kmalloc` and counts `next_tid` without any lock, so it
is for code that runs with interrupts disabled. -/
inductive Calls : Bool → Code Machine → Prop where
  | create (t : Option ThreadPtr) (stack : Option ℕ) (stackSize : UInt32) :
      Calls false (.act (step · (.create t stack stackSize)) fun _ => .done)
  | yield (flag : Bool) : Calls flag threadYieldCode
  | exit (flag : Bool) : Calls flag threadExitCode
  | lock (flag : Bool) (mtx : ℕ) : Calls flag (mutexLockCode mtx)
  | unlock (flag : Bool) (mtx : ℕ) : Calls flag (sectionCode (.unlock mtx))
  | wait (flag : Bool) (sem : ℕ) : Calls flag (semWaitCode sem)
  | post (flag : Bool) (sem : ℕ) : Calls flag (sectionCode (.post sem))

def runningOf (M : Machine) : Context := M.sched.running

abbrev Kernel := Uniprocessor Machine Context

/-- One instruction of the kernel, or what comes from outside. -/
def Kernel.Step : Kernel → Kernel → Prop := Uniprocessor.Step runningOf tickCode Calls

/-- `kmain` after `thread_system_init`, with interrupts disabled. A thread starts in `thread_trampoline` with `sti`.
-/
def Kernel.start (s : Sched) (count : ℕ → Int32) : Kernel where
  data := Scheduler.start s count
  locked := false
  interrupts := false
  code c := if c = .boot then .done else .sti .done
  saved _ := []
  level c := decide (c ≠ .boot)

end Model

section Discipline

variable {M M' : Machine} {k : Pc → Pc} {rest c : Code Machine}

lemma running_resume (M : Machine) : runningOf (resume M) = runningOf M := by
  rw [resume_eq]
  rfl

lemma running_dequeuePiece (h : dequeuePiece k M = some M') : runningOf M' = runningOf M := by
  unfold dequeuePiece at h
  split at h
  · cases h
    exact running_resume _
  · cases h
    unfold dequeueThreadLocked runningOf
    cases M.sched.run.head <;> rfl

lemma running_requeue {prev : Option ThreadPtr} {s s' : Sched} (h : requeue prev s = some s') :
    s'.running = s.running := by
  unfold requeue at h
  split at h
  · cases h
    rfl
  · split at h
    · have hrun := running_enqueue h
      exact hrun
    · cases h
      rfl

lemma running_requeuePiece {prev : Option ThreadPtr} (h : requeuePiece prev M = some M') :
    runningOf M' = runningOf M := by
  rw [requeuePiece, Option.map_eq_some_iff] at h
  obtain ⟨s, hs, rfl⟩ := h
  exact running_requeue hs

lemma running_dispatchPiece {next : ThreadPtr} (h : dispatchPiece next M = some M') :
    runningOf M' = runningOf M := by
  cases h
  rfl

lemma running_sleepOn {s : Sched} {q : Queue} {r : Sched × Queue} (h : sleepOn s q = some r) :
    r.1.running = s.running := by
  rw [sleepOn, Option.bind_eq_some_iff] at h
  obtain ⟨p, -, hp⟩ := h
  rw [Option.map_eq_some_iff] at hp
  obtain ⟨r', -, rfl⟩ := hp
  rfl

lemma running_mutexLock {s : Sched} {mtx : ℕ} {r : Sched × Bool} (h : mutexLock s mtx = some r) :
    r.1.running = s.running := by
  unfold mutexLock at h
  split at h
  · cases h
    rfl
  · rw [Option.map_eq_some_iff] at h
    obtain ⟨r', hr', rfl⟩ := h
    exact running_sleepOn hr'

lemma running_semWait {s : Sched} {sem : ℕ} {r : Sched × Bool} (h : semWait s sem = some r) :
    r.1.running = s.running := by
  unfold semWait at h
  split at h
  · cases h
    rfl
  · rw [Option.map_eq_some_iff] at h
    obtain ⟨r', hr', rfl⟩ := h
    exact running_sleepOn hr'

lemma running_blockingPiece {part : Sched → Option (Sched × Bool)} {event : Context → Event}
    (hpart : ∀ {s r}, part s = some r → r.1.running = s.running) (h : blockingPiece part event M = some M') :
    runningOf M' = runningOf M := by
  rw [blockingPiece, Option.map_eq_some_iff] at h
  obtain ⟨r, hr, rfl⟩ := h
  have hrun := hpart hr
  split <;> exact hrun

/-- `schedule` keeps to the discipline, also inside a section that has given the lock back. -/
lemma scheduleCode_safe (h : rest.Safe runningOf false false) (off : Bool) :
    (scheduleCode k rest).Safe runningOf false off := by
  refine ⟨rfl, rfl, rfl, fun M M' hM => running_dequeuePiece hM, fun M => ?_⟩
  dsimp only
  cases M.sched.run.head with
  | none => exact ⟨rfl, rfl, h⟩
  | some next =>
    exact ⟨fun M M' hM => running_requeuePiece hM, fun _ => ⟨fun M M' hM => running_dispatchPiece hM, fun _ =>
      ⟨rfl, rfl, rfl, rfl, h⟩⟩⟩

/-- It comes back with the flag with which it is called. -/
lemma scheduleCode_balanced {b flag : Bool} {saved : List Bool} (h : rest.Balanced b flag saved) :
    (scheduleCode k rest).Balanced b flag saved := by
  intro M
  dsimp only
  cases M.sched.run.head with
  | none => exact ⟨flag, saved, rfl, h⟩
  | some next => exact fun _ _ => ⟨flag, saved, rfl, h⟩

lemma sectionCode_safe {op : Op} (h : ∀ M M', step M op = some M' → runningOf M' = runningOf M) (off : Bool) :
    (sectionCode op).Safe runningOf false off :=
  ⟨rfl, rfl, rfl, h, fun _ => ⟨rfl, rfl, rfl⟩⟩

lemma blockingCode_safe {part : Sched → Option (Sched × Bool)} {event : Context → Event} {pc : Pc}
    (hpart : ∀ {s r}, part s = some r → r.1.running = s.running) (off : Bool) :
    (blockingCode part event pc).Safe runningOf false off := by
  refine ⟨rfl, rfl, rfl, fun M M' hM => running_blockingPiece hpart hM, fun M => ?_⟩
  dsimp only
  split
  · have hrest : (Code.restoreIrq .done).Safe runningOf false false := ⟨rfl, rfl⟩
    exact ⟨rfl, scheduleCode_safe hrest true⟩
  · exact ⟨rfl, rfl, rfl⟩

lemma blockingCode_balanced {part : Sched → Option (Sched × Bool)} {event : Context → Event} {pc : Pc} (flag : Bool) :
    (blockingCode part event pc).Balanced flag flag [] := by
  intro M
  dsimp only
  split
  · exact scheduleCode_balanced ⟨flag, [], rfl, rfl, rfl⟩
  · exact ⟨flag, [], rfl, rfl, rfl⟩

/-- A step that does not call `schedule` leaves the processor to its context. -/
lemma running_step {op : Op} (hop : ∀ M, ¬CallsSchedule M op) (h : step M op = some M') :
    runningOf M' = runningOf M :=
  running_kept h fun hc => absurd hc (hop M)

theorem disciplined : Disciplined runningOf tickCode Calls where
  handler_safe c hc := by
    refine ⟨fun M M' hM => by cases hM; rfl, fun M => ?_⟩
    dsimp only
    split
    · exact ⟨rfl, hc⟩
    · have hrest : (Code.restoreIrq c).Safe runningOf false false := ⟨rfl, hc⟩
      exact scheduleCode_safe hrest true
  handler_balanced b saved c hc := by
    intro M
    dsimp only
    split
    · exact hc
    · exact scheduleCode_balanced hc
  call_safe flag c hc := by
    cases hc with
    | create t stack size => exact ⟨fun M M' hM => running_step (fun M => id) hM, fun _ => rfl⟩
    | yield =>
      refine ⟨fun M M' hM => running_step (fun M => id) hM, fun M => ?_⟩
      dsimp only
      split
      · exact rfl
      · have hrest : Code.done.Safe runningOf false false := rfl
        exact scheduleCode_safe hrest _
    | exit =>
      refine ⟨fun M M' hM => running_step (fun M => id) hM, fun M => ?_⟩
      dsimp only
      split
      · exact rfl
      · have hrest : Code.halt.Safe runningOf false false := rfl
        exact ⟨fun M M' hM => running_step (fun M => id) hM, fun _ => scheduleCode_safe hrest _⟩
    | lock _ mtx => exact blockingCode_safe running_mutexLock _
    | unlock _ mtx => exact sectionCode_safe (fun M M' hM => running_step (fun M => id) hM) _
    | wait _ sem => exact blockingCode_safe running_semWait _
    | post _ sem => exact sectionCode_safe (fun M M' hM => running_step (fun M => id) hM) _
  call_balanced flag c hc := by
    cases hc with
    | create t stack size => exact fun _ => ⟨rfl, rfl⟩
    | yield =>
      intro M
      dsimp only
      split
      · exact ⟨rfl, rfl⟩
      · exact scheduleCode_balanced ⟨rfl, rfl⟩
    | exit =>
      intro M
      dsimp only
      split
      · exact ⟨rfl, rfl⟩
      · exact fun _ => scheduleCode_balanced trivial
    | lock _ mtx => exact blockingCode_balanced flag
    | unlock _ mtx => exact fun _ => ⟨flag, [], rfl, rfl, rfl⟩
    | wait _ sem => exact blockingCode_balanced flag
    | post _ sem => exact fun _ => ⟨flag, [], rfl, rfl, rfl⟩

end Discipline

section Pieces

variable {M M' : Machine} {k : Pc → Pc} {rest : Code Machine} {P : Machine → Code Machine → Prop}

lemma schedule_eq {s : Sched} {next : ThreadPtr} (h : s.run.head = some next) :
    schedule s = (requeue s.current (dequeueThreadLocked s).2).map fun s' =>
      contextSwitch (dispatch next s') s.current next := by
  unfold schedule dequeueThreadLocked
  rw [h]
  dsimp only
  cases s.current <;> rfl

/-- The pieces of `schedule` make the step `schedule` of the machine. -/
lemma commits_scheduleCode
    (h : ∀ M', callSchedule M (k (M.pc M.sched.running)) = some M' → P M' (.restoreIrq rest)) :
    (scheduleCode k rest).Commits P M := by
  intro M₁ h₁
  unfold callSchedule at h
  unfold dequeuePiece at h₁
  dsimp only
  cases hhead : M.sched.run.head with
  | none =>
    rw [schedule_empty hhead] at h
    rw [if_pos hhead] at h₁
    exact h M₁ h₁
  | some next =>
    have hrun : (dequeueThreadLocked M.sched).2.running = M.sched.running := by
      rw [dequeueThreadLocked, hhead]
    rw [if_neg (by simp [hhead])] at h₁
    cases h₁
    intro M₂ h₂ M₃ h₃ M₄ h₄
    rw [requeuePiece, Option.map_eq_some_iff] at h₂
    obtain ⟨s, hs, rfl⟩ := h₂
    have hrunning : (dispatch next s).running = M.sched.running := (running_requeue hs).trans hrun
    cases h₃
    cases h₄
    dsimp only
    rw [hrunning]
    apply h
    rw [schedule_eq hhead, hs]
    rfl

end Pieces

section Atomicity

variable {M M' M₀ : Machine} {flag : Bool} {c : Code Machine} {pc : Pc}

/-- What a context can be about to do between its sections, by where it is in the machine with atomic sections. -/
inductive FollowsPc : Pc → Code Machine → Prop where
  | done : FollowsPc .user .done
  | call {flag : Bool} {c : Code Machine} (h : Calls flag c) : FollowsPc .user c
  | restoreIrq {pc : Pc} {c : Code Machine} (h : FollowsPc pc c) : FollowsPc pc (.restoreIrq c)
  | sti {pc : Pc} {c : Code Machine} (h : FollowsPc pc c) : FollowsPc pc (.sti c)
  | yielding : FollowsPc .yielding (scheduleCode (fun _ => .user) .done)
  | exiting : FollowsPc .exiting exitClearCode
  | cleared : FollowsPc .cleared (scheduleCode (fun _ => .halt) .halt)
  | halt : FollowsPc .halt .halt

/-- A context that has been put to sleep is in its own code as soon as it executes again. -/
def Follows (M : Machine) (r : Context) (c : Code Machine) : Prop :=
  FollowsPc (resumePc (M.pc r)) c ∧ (r = runningOf M → resumePc (M.pc r) = M.pc r)

def AtomicStep (M M' : Machine) : Prop := ∃ op, step M op = some M'

/-- The first instruction is not one of a section. -/
def betweenSections : Code Machine → Bool
  | .lock _ => false
  | .unlock _ => false
  | .switch _ _ => false
  | _ => true

lemma FollowsPc.betweenSections (h : FollowsPc pc c) : betweenSections c = true := by
  cases h with
  | call h => cases h <;> rfl
  | _ => rfl

lemma resumePc_idem (pc : Pc) : resumePc (resumePc pc) = resumePc pc := by
  cases pc <;> rfl

/-- Where the contexts are after a call of `schedule`. -/
lemma callSchedule_pc {k : Pc} (h : callSchedule M k = some M') :
    (∀ r, resumePc (M'.pc r) = resumePc (Function.update M.pc M.sched.running k r)) ∧
      resumePc (M'.pc (runningOf M')) = M'.pc (runningOf M') := by
  rw [callSchedule, Option.map_eq_some_iff] at h
  obtain ⟨s, -, rfl⟩ := h
  rw [resume_eq]
  refine ⟨fun r => ?_, ?_⟩
  · dsimp only
    by_cases hr : r = s.running
    · rw [hr, Function.update_self, resumePc_idem]
    · rw [Function.update_of_ne hr]
  · unfold runningOf
    dsimp only
    rw [Function.update_self, resumePc_idem]

/-- A step of the machine that calls `schedule`. -/
lemma commit_callSchedule {k : Pc} {op : Op} (hstep : step M₀ op = some M') (hpc : M.pc = M₀.pc)
    (hrun : runningOf M = runningOf M₀) (h : callSchedule M k = some M') (hc : FollowsPc (resumePc k) c) :
    Commit AtomicStep Follows M₀ (runningOf M₀) M' c := by
  obtain ⟨hafter, hresumed⟩ := callSchedule_pc h
  have hrun' : M.sched.running = runningOf M₀ := hrun
  rw [hpc, hrun'] at hafter
  refine ⟨⟨op, hstep⟩, ⟨?_, fun hr => by rw [hr]; exact hresumed⟩, fun r hr c' hc' => ⟨?_, fun hr' => ?_⟩⟩
  · rw [hafter, Function.update_self]
    exact hc
  · rw [hafter, Function.update_of_ne hr]
    exact hc'.1
  · rw [hr']
    exact hresumed

/-- A step of the machine after which the same context executes. -/
lemma commit_step {op : Op} (hstep : step M op = some M') (hrun : runningOf M' = runningOf M)
    (hpc : ∀ r ≠ runningOf M, M'.pc r = M.pc r) (hfixed : resumePc (M'.pc (runningOf M)) = M'.pc (runningOf M))
    (hc : FollowsPc (M'.pc (runningOf M)) c) : Commit AtomicStep Follows M (runningOf M) M' c := by
  refine ⟨⟨op, hstep⟩, ⟨?_, fun _ => hfixed⟩, fun r hr c' hc' => ⟨?_, fun hr' => ?_⟩⟩
  · rw [hfixed]
    exact hc
  · rw [hpc r hr]
    exact hc'.1
  · exact absurd (hr'.trans hrun) hr

/-- The data that a quiet step of the machine leaves alone. -/
lemma commit_same {op : Op} (hpc : M.pc (runningOf M) = .user) (hop : ∀ M, ¬CallsSchedule M op)
    (hsame : M'.pc = M.pc) (hstep : step M op = some M') (hc : FollowsPc .user c) :
    Commit AtomicStep Follows M (runningOf M) M' c := by
  refine commit_step hstep (running_step hop hstep) (fun r _ => by rw [hsame]) ?_ ?_
  · rw [hsame, hpc]
    rfl
  · rw [hsame, hpc]
    exact hc

/-- Who wakes another thread stays where it is. -/
lemma pc_wakes {op : Op} (hop : (∃ mtx, op = .unlock mtx) ∨ ∃ sem, op = .post sem)
    (hpc : M.pc M.sched.running = .user) (h : step M op = some M') : M'.pc = M.pc := by
  rcases hop with ⟨mtx, rfl⟩ | ⟨sem, rfl⟩
  all_goals
    simp only [step, hpc] at h
    rw [Option.map_eq_some_iff] at h
    obtain ⟨s, -, rfl⟩ := h
    rfl

lemma pc_create {t : Option ThreadPtr} {stack : Option ℕ} {size : UInt32} (hpc : M.pc M.sched.running = .user)
    (h : step M (.create t stack size) = some M') : M'.pc = M.pc := by
  simp only [step, hpc] at h
  split at h
  · rw [Option.map_eq_some_iff] at h
    obtain ⟨s, -, rfl⟩ := h
    rfl
  · cases h

/-- `mutex_lock` or `sem_wait` is one step of the machine, with the call of `schedule` in it if the caller has to
sleep. -/
lemma commits_blockingCode {part : Sched → Option (Sched × Bool)} {event : Context → Event} {k : Pc} (op : Op)
    (hpart : ∀ {s r}, part s = some r → r.1.running = s.running) (hk : resumePc k = .user)
    (hpc : M.pc M.sched.running = .user)
    (hstep : step M op = (part M.sched).bind fun r =>
      if r.2 then callSchedule { M with sched := r.1 } k
      else some { M with sched := r.1, history := event M.sched.running :: M.history }) :
    (blockingCode part event k).Commits (Commit AtomicStep Follows M (runningOf M)) M := by
  intro M₁ h₁
  have hrun := running_blockingPiece hpart h₁
  rw [blockingPiece, Option.map_eq_some_iff] at h₁
  obtain ⟨r, hr, rfl⟩ := h₁
  rw [hr, Option.bind_some] at hstep
  dsimp only
  rw [hr, Option.any_some]
  cases hflag : r.2 with
  | false =>
    rw [hflag] at hstep hrun
    have huser : M.pc (runningOf M) = .user := hpc
    refine commit_step hstep hrun (fun _ _ => rfl) ?_ ?_
    all_goals simp only [Bool.false_eq_true, if_false]
    · rw [huser]
      rfl
    · rw [huser]
      exact .restoreIrq .done
  | true =>
    rw [hflag] at hstep hrun
    refine commits_scheduleCode fun M' hM' => ?_
    have hcall : callSchedule { M with sched := r.1 } k = some M' := hM'
    have hrun' : runningOf { M with sched := r.1 } = runningOf M := hrun
    refine commit_callSchedule (M := { M with sched := r.1 }) (hstep.trans hcall) rfl hrun' hcall ?_
    rw [hk]
    exact .restoreIrq (.restoreIrq .done)

/-- A call that is one section. -/
lemma commits_sectionCode {op : Op} (hpc : M.pc (runningOf M) = .user) (hop : ∀ M, ¬CallsSchedule M op)
    (hsame : ∀ M', step M op = some M' → M'.pc = M.pc) :
    (sectionCode op).Commits (Commit AtomicStep Follows M (runningOf M)) M :=
  fun M' hM' => commit_same hpc hop (hsame M' hM') hM' (.restoreIrq .done)

lemma commits_call (h : Calls flag (.saveIrq c)) (hpc : M.pc (runningOf M) = .user) :
    c.Commits (Commit AtomicStep Follows M (runningOf M)) M := by
  have hpc' : M.pc M.sched.running = .user := hpc
  have hwhole : (Code.saveIrq c).Commits (Commit AtomicStep Follows M (runningOf M)) M := by
    generalize hcode : Code.saveIrq c = code at h
    cases h with
    | create t stack size => cases hcode
    | yield => cases hcode
    | exit => cases hcode
    | lock _ mtx => exact commits_blockingCode (.lock mtx) running_mutexLock rfl hpc' (by simp only [step, hpc'])
    | unlock _ mtx => exact commits_sectionCode hpc (fun _ => id) fun M' hM' => pc_wakes (.inl ⟨mtx, rfl⟩) hpc' hM'
    | wait _ sem => exact commits_blockingCode (.wait sem) running_semWait rfl hpc' (by simp only [step, hpc'])
    | post _ sem => exact commits_sectionCode hpc (fun _ => id) fun M' hM' => pc_wakes (.inr ⟨sem, rfl⟩) hpc' hM'
  exact hwhole

/-- A section of which the machine has made the first part of the call before. -/
lemma commits_schedule {k : Pc} (op : Op) {rest : Code Machine} (hstep : step M op = callSchedule M k)
    (hc : FollowsPc (resumePc k) (.restoreIrq rest)) :
    (scheduleCode (fun _ => k) rest).Commits (Commit AtomicStep Follows M (runningOf M)) M :=
  commits_scheduleCode fun _ hM' => commit_callSchedule (hstep.trans hM') rfl rfl hM' hc

lemma FollowsPc.commits (h : FollowsPc (M.pc (runningOf M)) (.saveIrq c)) :
    c.Commits (Commit AtomicStep Follows M (runningOf M)) M := by
  have hwhole : (Code.saveIrq c).Commits (Commit AtomicStep Follows M (runningOf M)) M := by
    generalize hpc : M.pc (runningOf M) = pc at h
    have hpc' : M.pc M.sched.running = pc := hpc
    generalize hcode : Code.saveIrq c = code at h
    cases h with
    | done => cases hcode
    | call h =>
      subst hcode
      have hc := commits_call h hpc
      exact hc
    | restoreIrq h => cases hcode
    | sti h => cases hcode
    | yielding => exact commits_schedule .yieldSwitch (by simp only [step, hpc']) (.restoreIrq .done)
    | exiting => cases hcode
    | cleared => exact commits_schedule .exitSwitch (by simp only [step, hpc']) (.restoreIrq .halt)
    | halt => cases hcode
  exact hwhole

/-- What `thread_exit` does after its test. -/
lemma commit_exitClear (hpc : M.pc (runningOf M) = .exiting) (hs : step M .exitClear = some M') :
    Commit AtomicStep Follows M (runningOf M) M' (scheduleCode (fun _ => .halt) .halt) := by
  have hrun := running_step (fun _ => id) hs
  have hstep := hs
  have hpc' : M.pc M.sched.running = .exiting := hpc
  simp only [step, hpc'] at hs
  rw [Option.map_eq_some_iff] at hs
  obtain ⟨s, -, rfl⟩ := hs
  have hcleared : Function.update M.pc M.sched.running .cleared (runningOf M) = .cleared := Function.update_self _ _ _
  refine commit_step hstep hrun (fun r hr => Function.update_of_ne hr _ _) ?_ ?_
  · exact (congrArg resumePc hcleared).trans hcleared.symm
  · dsimp only
    rw [hcleared]
    exact .cleared

lemma commit_yieldTest (hpc : M.pc (runningOf M) = .user) (hs : step M .yieldTest = some M') :
    Commit AtomicStep Follows M (runningOf M) M'
      (if yieldReturns M.sched then .done else scheduleCode (fun _ => .user) .done) := by
  have hrun := running_step (fun _ => id) hs
  have hstep := hs
  have hpc' : M.pc M.sched.running = .user := hpc
  simp only [step, hpc'] at hs
  by_cases hreturns : yieldReturns M.sched = true
  · rw [if_pos hreturns] at hs ⊢
    cases hs
    exact commit_same hpc (fun _ => id) rfl hstep .done
  · rw [if_neg hreturns] at hs ⊢
    cases hs
    have hyielding : Function.update M.pc M.sched.running .yielding (runningOf M) = .yielding :=
      Function.update_self _ _ _
    refine commit_step hstep hrun (fun r hr => Function.update_of_ne hr _ _) ?_ ?_
    · exact (congrArg resumePc hyielding).trans hyielding.symm
    · dsimp only
      rw [hyielding]
      exact .yielding

lemma commit_exitMark (hpc : M.pc (runningOf M) = .user) (hs : step M .exitMark = some M') :
    Commit AtomicStep Follows M (runningOf M) M' (if M.sched.current = none then .done else exitClearCode) := by
  have hrun := running_step (fun _ => id) hs
  have hstep := hs
  have hpc' : M.pc M.sched.running = .user := hpc
  simp only [step, hpc'] at hs
  cases hcurrent : M.sched.current with
  | none =>
    rw [hcurrent] at hs
    cases hs
    rw [if_pos rfl]
    exact commit_same hpc (fun _ => id) rfl hstep .done
  | some p =>
    rw [hcurrent] at hs
    cases hs
    rw [if_neg (by simp)]
    have hexiting : Function.update M.pc M.sched.running .exiting (runningOf M) = .exiting :=
      Function.update_self _ _ _
    refine commit_step hstep hrun (fun r hr => Function.update_of_ne hr _ _) ?_ ?_
    · exact (congrArg resumePc hexiting).trans hexiting.symm
    · dsimp only
      rw [hexiting]
      exact .exiting

/-- A piece of work outside sections. -/
lemma FollowsPc.act {f : Machine → Option Machine} {k : Machine → Code Machine}
    (h : FollowsPc (M.pc (runningOf M)) (.act f k)) (hf : f M = some M') :
    Commit AtomicStep Follows M (runningOf M) M' (k M) := by
  generalize hpc : M.pc (runningOf M) = pc at h
  generalize hcode : Code.act f k = code at h
  cases h with
  | call h =>
    cases h with
    | create t stack size =>
      cases hcode
      have hpc' : M.pc M.sched.running = .user := hpc
      exact commit_same hpc (fun _ => id) (pc_create hpc' hf) hf .done
    | yield =>
      cases hcode
      exact commit_yieldTest hpc hf
    | exit =>
      cases hcode
      exact commit_exitMark hpc hf
    | _ => cases hcode
  | exiting =>
    cases hcode
    exact commit_exitClear hpc hf
  | _ => cases hcode

/-- The timer may interrupt a context anywhere between its sections. -/
lemma FollowsPc.tick (h : FollowsPc (resumePc (M.pc (runningOf M))) c)
    (hfixed : resumePc (M.pc (runningOf M)) = M.pc (runningOf M)) :
    (tickCode (.restoreIrq c)).Commits (Commit AtomicStep Follows M (runningOf M)) M := by
  intro M₁ h₁
  cases h₁
  dsimp only
  by_cases hhead : M.sched.run.head = none
  · rw [if_pos hhead]
    have hstep : step M .tick = some M := by rw [step_tick, if_pos hhead]
    rw [hfixed] at h
    exact commit_step hstep rfl (fun _ _ => rfl) hfixed (.restoreIrq h)
  · rw [if_neg hhead]
    refine commits_scheduleCode fun M' hM' => ?_
    have hstep : step M .tick = some M' := by
      rw [step_tick, if_neg hhead]
      exact hM'
    exact commit_callSchedule hstep rfl rfl hM' (.restoreIrq (.restoreIrq h))

theorem atomic : Atomic runningOf tickCode Calls AtomicStep Follows where
  restoreIrq {M r c} h := by
    obtain ⟨hpc, hfixed⟩ := h
    refine ⟨?_, hfixed⟩
    generalize hcode : Code.restoreIrq c = code at hpc
    generalize resumePc (M.pc r) = pc at hpc
    cases hpc with
    | restoreIrq h =>
      cases hcode
      exact h
    | call h => cases h <;> cases hcode
    | _ => cases hcode
  sti {M r c} h := by
    obtain ⟨hpc, hfixed⟩ := h
    refine ⟨?_, hfixed⟩
    generalize hcode : Code.sti c = code at hpc
    generalize resumePc (M.pc r) = pc at hpc
    cases hpc with
    | sti h =>
      cases hcode
      exact h
    | call h => cases h <;> cases hcode
    | _ => cases hcode
  lock h := absurd h.1.betweenSections Bool.false_ne_true
  unlock h := absurd h.1.betweenSections Bool.false_ne_true
  switch h := absurd h.1.betweenSections Bool.false_ne_true
  saveIrq {M c} h := by
    obtain ⟨hpc, hfixed⟩ := h
    rw [hfixed rfl] at hpc
    exact hpc.commits
  act {M f k M'} h hf := by
    obtain ⟨hpc, hfixed⟩ := h
    rw [hfixed rfl] at hpc
    exact hpc.act hf
  interrupt {M c} h := h.1.tick (h.2 rfl)
  call {M flag c} h hc := by
    obtain ⟨hpc, hfixed⟩ := h
    refine ⟨?_, hfixed⟩
    generalize hcode : Code.done = code at hpc
    generalize resumePc (M.pc (runningOf M)) = pc at hpc
    cases hpc with
    | done => exact .call hc
    | call h => exact .call hc
    | _ => cases hcode

end Atomicity

section Runs

variable {s : Sched} {count : ℕ → Int32} {m : Kernel}

lemma start_inv (s : Sched) (count : ℕ → Int32) : (Kernel.start s count).Inv runningOf := by
  refine ⟨fun _ => rfl, ⟨false, fun _ => rfl, rfl⟩, fun c hc => ?_, ⟨rfl, rfl⟩, fun c hc => ?_⟩
  · have hboot : c ≠ .boot := hc
    simp only [Kernel.start, hboot, if_false]
    exact ⟨rfl, rfl⟩
  · have hboot : c ≠ .boot := hc
    simp only [Kernel.start, hboot, if_false]
    exact ⟨by simp [hboot], rfl⟩

lemma start_quiet (s : Sched) (count : ℕ → Int32) :
    (Kernel.start s count).Quiet Follows (Scheduler.start s count) := by
  refine ⟨rfl, fun c => ⟨?_, fun _ => rfl⟩⟩
  by_cases hboot : c = .boot
  · simp only [Kernel.start, hboot, if_true]
    exact .done
  · simp only [Kernel.start, hboot, if_false]
    exact .sti .done

/-- However the timer interrupts the contexts between their instructions, `sched_lock` is free whenever a context
tries to take it, it is held only with interrupts disabled, every call comes back with the interrupt flag with which
it was made, and wherever interrupts are enabled the scheduler is in a state of the machine in which every section
is one step. -/
theorem sections_atomic (h : Relation.ReflTransGen Kernel.Step (Kernel.start s count) m) :
    (∀ c, m.code (runningOf m.data) = .lock c → m.locked = false) ∧
    (m.locked = true → m.interrupts = false) ∧
    (m.code (runningOf m.data) = .done → m.interrupts = m.level (runningOf m.data)) ∧
    (m.interrupts = true → ∃ ops, run (start s count) ops = some m.data) := by
  have hinv := (start_inv s count).run disciplined h
  obtain ⟨hlock, hflag⟩ := hinv.uncontended
  refine ⟨hlock, hinv.disabled, hflag, fun hon => ?_⟩
  obtain ⟨M, hrun, htracks⟩ := Uniprocessor.Tracks.run disciplined atomic (start_inv s count) (start_quiet s count) h
  have hdata : m.data = M := by
    cases htracks with
    | inl hquiet => exact hquiet.1
    | inr hbusy =>
      rw [hbusy.disabled] at hon
      cases hon
  rw [hdata]
  clear hdata htracks hinv
  induction hrun with
  | refl => exact ⟨[], rfl⟩
  | tail _ hs ih =>
    obtain ⟨ops, hops⟩ := ih
    obtain ⟨op, hop⟩ := hs
    refine ⟨ops ++ [op], ?_⟩
    unfold run at hops ⊢
    rw [List.foldlM_append, hops]
    simp [hop]

/-- The boot context creates a thread and enables interrupts, the timer interrupts it, and the thread starts. -/
theorem sections_atomic_tick : ∃ m : Kernel, m.interrupts = true ∧ runningOf m.data = .thread 1 ∧
    ∃ ops, run (start coldBoot fun _ => 0) ops = some m.data := by
  have hrun : Relation.ReflTransGen Kernel.Step (Kernel.start coldBoot fun _ => 0) _ :=
    .head (.call _ rfl (.create (some 1) (some 0) 0)) <| .head (.exec rfl) <| .head (.enable rfl) <|
      .head (.interrupt rfl) <| .head (.exec rfl) <| .head (.exec rfl) <| .head (.exec rfl) <| .head (.exec rfl) <|
      .head (.exec rfl) <| .head (.exec rfl) <| .head (.exec rfl) <| .head (.exec rfl) <| .head (.exec rfl) .refl
  exact ⟨_, rfl, rfl, (sections_atomic hrun).2.2.2 rfl⟩

end Runs

end SBoy28.Scheduler
