import SBoy28.Scheduler.Steps

/-!
# The pointers of the scheduler on every run

A step that blocks with an empty run queue leaves the placement of the threads in disorder. Even
then every pointer that the scheduler holds is to a created thread, and the executing context is the
one of the current thread.
-/

namespace SBoy28.Scheduler
open Lib

variable {C : Finset ThreadPtr} {M M' : Machine} {s s' : Sched} {th th' : Threads} {q q' : Queue}
  {t p : ThreadPtr}

/-- The pointer is null or points to one of the threads in `C`. -/
def PtrIn (C : Finset ThreadPtr) (o : Option ThreadPtr) : Prop := ∀ p, o = some p → p ∈ C

structure QueueIn (C : Finset ThreadPtr) (q : Queue) : Prop where
  head : PtrIn C q.head
  tail : PtrIn C q.tail

structure ThreadsIn (C : Finset ThreadPtr) (th : Threads) : Prop where
  next : ∀ p ∈ C, PtrIn C (nextOf th p)
  esp : ∀ p ∈ C, (th p).esp = .thread p

/-- No thread got or lost a stack. -/
def SameStacks (th th' : Threads) : Prop := ∀ p, (th' p).stack = (th p).stack

structure SchedIn (C : Finset ThreadPtr) (s : Sched) : Prop where
  threads : ThreadsIn C s.threads
  queue : ∀ i, QueueIn C (s.queue i)
  current : PtrIn C s.current
  executing : ∀ p, s.running = .thread p → p ∈ C
  active : ∀ p, s.current = some p → s.running = .thread p

/-- The operation stays within `C`, moves no stack, and the caller goes on. -/
structure Stays (C : Finset ThreadPtr) (s s' : Sched) : Prop where
  inside : SchedIn C s'
  stack : SameStacks s.threads s'.threads
  running : s'.running = s.running
  current : s'.current = s.current

section Threads

lemma ptrIn_none : PtrIn C none := by
  intro p h
  cases h

lemma ptrIn_some (ht : t ∈ C) : PtrIn C (some t) := by
  intro p h
  exact Option.some.inj h ▸ ht

lemma SameStacks.trans {th'' : Threads} (h : SameStacks th th') (h' : SameStacks th' th'') :
    SameStacks th th'' := fun p => (h' p).trans (h p)

lemma stack_setNext (v : Option ThreadPtr) : SameStacks th (setNext th t v) := by
  intro p
  by_cases hp : p = t <;> simp [setNext, hp]

lemma stack_setState (v : ThreadState) : SameStacks th (setState th t v) := by
  intro p
  by_cases hp : p = t <;> simp [setState, hp]

lemma stack_setEsp (c : Context) : SameStacks th (setEsp th t c) := by
  intro p
  by_cases hp : p = t <;> simp [setEsp, hp]

lemma ThreadsIn.setNext (h : ThreadsIn C th) {v : Option ThreadPtr} (hv : PtrIn C v) :
    ThreadsIn C (setNext th t v) where
  next p hp := by
    rw [nextOf_setNext]
    by_cases hpt : p = t
    · rwa [hpt, Function.update_self]
    · rw [Function.update_of_ne hpt]
      exact h.next p hp
  esp p hp := (sameButNext_setNext th t v).esp p ▸ h.esp p hp

lemma ThreadsIn.setState (h : ThreadsIn C th) (v : ThreadState) : ThreadsIn C (setState th t v) where
  next p hp := by
    rw [nextOf_setState]
    exact h.next p hp
  esp p hp := by
    rw [esp_setState]
    exact h.esp p hp

lemma ThreadsIn.setEsp (h : ThreadsIn C th) : ThreadsIn C (setEsp th t (.thread t)) where
  next p hp := by
    rw [nextOf_setEsp]
    exact h.next p hp
  esp p hp := by
    rw [esp_setEsp]
    split
    · rename_i hpt
      rw [hpt]
    · exact h.esp p hp

lemma pushBack_in (h : ThreadsIn C th) (hq : QueueIn C q) (ht : t ∈ C) (hs : pushBack th q t = some (th', q')) :
    ThreadsIn C th' ∧ QueueIn C q' ∧ SameStacks th th' := by
  have h₁ : ThreadsIn C (setNext th t none) := h.setNext ptrIn_none
  simp only [pushBack] at hs
  split at hs
  · simp only [Option.some.injEq, Prod.mk.injEq] at hs
    obtain ⟨rfl, rfl⟩ := hs
    exact ⟨h₁, ⟨ptrIn_some ht, ptrIn_some ht⟩, stack_setNext none⟩
  · simp only [Option.map_eq_some_iff, Prod.mk.injEq] at hs
    obtain ⟨u, -, rfl, rfl⟩ := hs
    exact ⟨h₁.setNext (ptrIn_some ht), ⟨hq.head, ptrIn_some ht⟩,
      (stack_setNext none).trans (stack_setNext _)⟩

lemma popFront_in (h : ThreadsIn C th) (hq : QueueIn C q) (ht : t ∈ C) : QueueIn C (popFront th q t) where
  head := h.next t ht
  tail := by
    simp only [popFront]
    split
    · exact ptrIn_none
    · exact hq.tail

end Threads

section Operations

lemma SchedIn.congr (h : SchedIn C s) (hth : ThreadsIn C s'.threads) (hq : ∀ i, QueueIn C (s'.queue i))
    (hr : s'.running = s.running) (hc : s'.current = s.current) : SchedIn C s' where
  threads := hth
  queue := hq
  current := hc ▸ h.current
  executing := hr ▸ h.executing
  active := hr ▸ hc ▸ h.active

lemma Stays.trans {s'' : Sched} (h : Stays C s s') (h' : Stays C s' s'') : Stays C s s'' where
  inside := h'.inside
  stack := h.stack.trans h'.stack
  running := h'.running.trans h.running
  current := h'.current.trans h.current

lemma SchedIn.queues (h : SchedIn C s) (hrun : QueueIn C s'.run) (hmtx : s'.mutexes = s.mutexes)
    (hsem : s'.semaphores = s.semaphores) (i : QueueId) : QueueIn C (s'.queue i) := by
  cases i with
  | run => exact hrun
  | mutex mtx =>
    rw [Sched.queue, hmtx]
    exact h.queue (.mutex mtx)
  | sem sem =>
    rw [Sched.queue, hsem]
    exact h.queue (.sem sem)

lemma SchedIn.setState (h : SchedIn C s) (t : ThreadPtr) (v : ThreadState) :
    Stays C s { s with threads := setState s.threads t v } where
  inside := h.congr (h.threads.setState v) (h.queues (h.queue .run) rfl rfl) rfl rfl
  stack := stack_setState v
  running := rfl
  current := rfl

lemma enqueue_in (h : SchedIn C s) (ht : t ∈ C) (hs : enqueueThreadLocked s t = some s') : Stays C s s' := by
  rw [enqueueThreadLocked, Option.map_eq_some_iff] at hs
  obtain ⟨r, hr, rfl⟩ := hs
  obtain ⟨hth, hq, hst⟩ := pushBack_in h.threads (h.queue .run) ht hr
  exact ⟨h.congr hth (h.queues hq rfl rfl) rfl rfl, hst, rfl, rfl⟩

lemma dequeue_in (h : SchedIn C s) (ht : s.run.head = some t) :
    Stays C s { s with run := popFront s.threads s.run t, threads := setNext s.threads t none } := by
  have htC := (h.queue .run).head t ht
  have hrun := popFront_in h.threads (h.queue .run) htC
  exact ⟨h.congr (h.threads.setNext ptrIn_none) (h.queues hrun rfl rfl) rfl rfl, stack_setNext none, rfl, rfl⟩

/-- The last part of `schedule`: `t` becomes the current thread and its context goes on. -/
lemma dispatch_in (h : SchedIn C s) (ht : t ∈ C) :
    let s' := contextSwitch { s with threads := setState s.threads t .running, current := some t } s.current t
    SchedIn C s' ∧ SameStacks s.threads s'.threads := by
  have hth : ThreadsIn C (setState s.threads t .running) := h.threads.setState .running
  have hqueue : ∀ (th : Threads) (c : Option ThreadPtr) (k : Context) (i : QueueId),
      QueueIn C (Sched.queue { s with threads := th, current := c, running := k } i) :=
    fun _ _ _ => h.queues (h.queue .run) rfl rfl
  have hrun : ∀ {th : Threads}, ThreadsIn C th → (th t).esp = .thread t := fun hth => hth.esp t ht
  cases hc : s.current with
  | none =>
    refine ⟨⟨hth, hqueue _ _ _, ptrIn_some ht, ?_, ?_⟩, stack_setState _⟩
    · intro p hp
      rw [contextSwitch, hrun hth, Context.thread.injEq] at hp
      exact hp ▸ ht
    · intro p hp
      rw [contextSwitch, hrun hth, ← Option.some.inj hp]
  | some c =>
    -- the caller's context is saved in the current thread, which is its own
    have hesp : ThreadsIn C (setEsp (setState s.threads t .running) c s.running) := by
      rw [h.active c hc]
      exact hth.setEsp
    refine ⟨⟨hesp, hqueue _ _ _, ptrIn_some ht, ?_, ?_⟩, (stack_setState _).trans (stack_setEsp _)⟩
    · intro p hp
      simp only [contextSwitch] at hp
      rw [hrun hesp, Context.thread.injEq] at hp
      exact hp ▸ ht
    · intro p hp
      simp only [contextSwitch]
      rw [hrun hesp, ← Option.some.inj hp]

/-- `schedule` goes on in the context of a thread of `C`, or in the same one. -/
lemma schedule_in (h : SchedIn C s) (hs : schedule s = some s') :
    SchedIn C s' ∧ SameStacks s.threads s'.threads := by
  cases ht : s.run.head with
  | none =>
    rw [schedule_empty ht, Option.some.injEq] at hs
    exact hs ▸ ⟨h, fun _ => rfl⟩
  | some t =>
    have htC := (h.queue .run).head t ht
    have hdeq := dequeue_in h ht
    -- the caller is put back or not, and then `t` is dispatched
    have hdispatch : ∀ s₂, Stays C s s₂ →
        some (contextSwitch { s₂ with threads := setState s₂.threads t .running, current := some t }
          s.current t) = some s' → SchedIn C s' ∧ SameStacks s.threads s'.threads := by
      intro s₂ hst hs₂
      obtain ⟨hin, hstack⟩ := dispatch_in hst.inside htC
      rw [hst.current, Option.some.inj hs₂] at hin hstack
      exact ⟨hin, hst.stack.trans hstack⟩
    simp only [schedule, dequeueThreadLocked, ht] at hs
    cases hc : s.current with
    | none =>
      rw [hc] at hdispatch
      simp only [hc, Option.map_some] at hs
      exact hdispatch _ hdeq hs
    | some c =>
      rw [hc] at hdispatch
      simp only [hc] at hs
      split at hs
      · rw [Option.map_eq_some_iff] at hs
        obtain ⟨s₂, henq, hs₂⟩ := hs
        rw [← hc] at henq
        have hstate := hdeq.trans (hdeq.inside.setState c .ready)
        exact hdispatch s₂ (hstate.trans (enqueue_in hstate.inside (h.current c hc) henq))
          (congrArg some hs₂)
      · exact hdispatch _ hdeq hs

lemma sleepOn_in (h : SchedIn C s) {i : QueueId} {r : Sched × Queue} (hs : sleepOn s (s.queue i) = some r) :
    Stays C s r.1 ∧ QueueIn C r.2 := by
  rw [sleepOn, Option.bind_eq_some_iff] at hs
  obtain ⟨p, hp, hs⟩ := hs
  rw [Option.map_eq_some_iff] at hs
  obtain ⟨r, hr, rfl⟩ := hs
  have hstate := h.setState p .sleeping
  obtain ⟨hth, hq, hst⟩ := pushBack_in hstate.inside.threads (h.queue i) (h.current p hp) hr
  exact ⟨hstate.trans ⟨hstate.inside.congr hth (h.queues (h.queue .run) rfl rfl) rfl rfl, hst, rfl, rfl⟩, hq⟩

lemma wakeHead_in (h : SchedIn C s) {i : QueueId} {r : Sched × Queue}
    (hs : wakeHead s (s.queue i) = some (some r)) : Stays C s r.1 ∧ QueueIn C r.2 := by
  simp only [wakeHead] at hs
  split at hs
  · cases hs
  · rename_i t ht
    have htC := (h.queue i).head t ht
    simp only [Option.map_eq_some_iff, Option.some.injEq] at hs
    obtain ⟨s', hs', rfl⟩ := hs
    have hstate := h.setState t .ready
    exact ⟨hstate.trans (enqueue_in hstate.inside htC hs'), popFront_in h.threads (h.queue i) htC⟩

/-- One queue is written, and the lock or the count that it belongs to. -/
lemma SchedIn.replace (h : SchedIn C s) {i : QueueId} (hq : QueueIn C q)
    (hqueue : ∀ j, s'.queue j = if j = i then q else s.queue j) (hth : s'.threads = s.threads)
    (hr : s'.running = s.running) (hc : s'.current = s.current) : Stays C s s' := by
  refine ⟨h.congr (hth ▸ h.threads) (fun j => ?_) hr hc, hth ▸ fun _ => rfl, hr, hc⟩
  rw [hqueue j]
  split
  · exact hq
  · exact h.queue j

lemma SchedIn.setMutex (h : SchedIn C s) (mtx : ℕ) {v : Mutex} (hv : QueueIn C v.wait) :
    Stays C s (setMutex s mtx v) := by
  refine h.replace hv (i := .mutex mtx) (fun j => ?_) rfl rfl rfl
  cases j with
  | mutex m => by_cases hm : m = mtx <;> simp [Sched.queue, Scheduler.setMutex, hm]
  | _ => simp [Sched.queue, Scheduler.setMutex]

lemma SchedIn.setSemaphore (h : SchedIn C s) (sem : ℕ) {v : Semaphore} (hv : QueueIn C v.wait) :
    Stays C s (setSemaphore s sem v) := by
  refine h.replace hv (i := .sem sem) (fun j => ?_) rfl rfl rfl
  cases j with
  | sem k => by_cases hk : k = sem <;> simp [Sched.queue, Scheduler.setSemaphore, hk]
  | _ => simp [Sched.queue, Scheduler.setSemaphore]

lemma mutexLock_in (h : SchedIn C s) {mtx : ℕ} {r : Sched × Bool} (hs : mutexLock s mtx = some r) :
    Stays C s r.1 := by
  simp only [mutexLock] at hs
  split at hs
  · rw [← Option.some.inj hs]
    exact h.setMutex mtx (h.queue (.mutex mtx))
  · rw [Option.map_eq_some_iff] at hs
    obtain ⟨r', hr', rfl⟩ := hs
    obtain ⟨hst, hq⟩ := @sleepOn_in C s h (.mutex mtx) r' hr'
    exact hst.trans (hst.inside.setMutex mtx hq)

lemma semWait_in (h : SchedIn C s) {sem : ℕ} {r : Sched × Bool} (hs : semWait s sem = some r) :
    Stays C s r.1 := by
  simp only [semWait] at hs
  split at hs
  · rw [← Option.some.inj hs]
    exact h.setSemaphore sem (h.queue (.sem sem))
  · rw [Option.map_eq_some_iff] at hs
    obtain ⟨r', hr', rfl⟩ := hs
    obtain ⟨hst, hq⟩ := @sleepOn_in C s h (.sem sem) r' hr'
    exact hst.trans (hst.inside.setSemaphore sem hq)

lemma mutexUnlock_in (h : SchedIn C s) {mtx : ℕ} (hs : mutexUnlock s mtx = some s') : Stays C s s' := by
  rw [mutexUnlock, Option.map_eq_some_iff] at hs
  obtain ⟨r, hr, rfl⟩ := hs
  cases r with
  | none => exact h.setMutex mtx (h.queue (.mutex mtx))
  | some r =>
    obtain ⟨hst, hq⟩ := @wakeHead_in C s h (.mutex mtx) r hr
    exact hst.trans (hst.inside.setMutex mtx hq)

lemma semPost_in (h : SchedIn C s) {sem : ℕ} (hs : semPost s sem = some s') : Stays C s s' := by
  rw [semPost, Option.map_eq_some_iff] at hs
  obtain ⟨r, hr, rfl⟩ := hs
  cases r with
  | none => exact h.setSemaphore sem (h.queue (.sem sem))
  | some r =>
    obtain ⟨hst, hq⟩ := @wakeHead_in C s h (.sem sem) r hr
    exact hst.trans (hst.inside.setSemaphore sem hq)

end Operations

section Machine

/-- The scheduler's pointers are to created threads, and a thread that does not exist is nowhere in
the scheduler's code. -/
structure Linked (M : Machine) : Prop where
  sched : SchedIn M.created M.sched
  fresh : ∀ p, p ∉ M.created → M.pc (.thread p) = .user

/-- A step of the scheduler that neither creates a thread nor ends one. -/
def Op.plain : Op → Bool
  | .create _ _ _ => false
  | .exitMark => false
  | .exitClear => false
  | .exitSwitch => false
  | _ => true

/-- The step leaves the threads, their stacks and the ended contexts alone. -/
structure Quiet (M M' : Machine) : Prop where
  linked : Linked M'
  created : M'.created = M.created
  stack : SameStacks M.sched.threads M'.sched.threads
  halt : ∀ c, M'.pc c = .halt → M.pc c = .halt

lemma start_linked (s : Sched) (count : ℕ → Int32) : Linked (start s count) where
  sched := by
    refine ⟨⟨?_, ?_⟩, ?_, ptrIn_none, ?_, ?_⟩
    · intro p hp
      simp [start] at hp
    · intro p hp
      simp [start] at hp
    · intro i
      cases i with
      | run => exact ⟨ptrIn_none, ptrIn_none⟩
      | mutex mtx => exact ⟨ptrIn_none, ptrIn_none⟩
      | sem sem => exact ⟨ptrIn_none, ptrIn_none⟩
    · intro p hp
      cases hp
    · intro p hp
      cases hp
  fresh p _ := rfl

lemma resumePc_halt {pc : Pc} (h : resumePc pc = .halt) : pc = .halt := by
  cases pc <;> simp_all [resumePc]

lemma callSchedule_in (h : Linked M) {k : Pc} (hs : callSchedule M k = some M') :
    Linked M' ∧ M'.created = M.created ∧ SameStacks M.sched.threads M'.sched.threads ∧
      ∀ c, M'.pc c = .halt → M.pc c = .halt ∨ c = M.sched.running ∧ k = .halt := by
  rw [callSchedule, Option.map_eq_some_iff] at hs
  obtain ⟨s, hs, rfl⟩ := hs
  obtain ⟨hin, hstack⟩ := schedule_in h.sched hs
  rw [resume_eq]
  refine ⟨⟨hin, ?_⟩, rfl, hstack, ?_⟩
  · intro p hp
    have hne : (Context.thread p) ≠ M.sched.running := fun he => hp (h.sched.executing p he.symm)
    have hne' : (Context.thread p) ≠ s.running := fun he => hp (hin.executing p he.symm)
    simp only [Function.update_of_ne hne', Function.update_of_ne hne]
    exact h.fresh p hp
  · intro c hc
    have hbefore : Function.update M.pc M.sched.running k c = .halt := by
      by_cases hcs : c = s.running
      · subst hcs
        simp only [Function.update_self] at hc
        exact resumePc_halt hc
      · simpa only [Function.update_of_ne hcs] using hc
    by_cases hcr : c = M.sched.running
    · subst hcr
      rw [Function.update_self] at hbefore
      exact Or.inr ⟨rfl, hbefore⟩
    · rw [Function.update_of_ne hcr] at hbefore
      exact Or.inl hbefore

lemma Linked.quiet_refl (h : Linked M) : Quiet M M := ⟨h, rfl, fun _ => rfl, fun _ hc => hc⟩

/-- The executing context goes on at another place. -/
lemma Linked.goto (h : Linked M) (hin : SchedIn M.created s) (k : Pc) :
    Linked { M with sched := s, pc := Function.update M.pc M.sched.running k } := by
  refine ⟨hin, fun p hp => ?_⟩
  have hne : (Context.thread p) ≠ M.sched.running := fun he => hp (h.sched.executing p he.symm)
  exact (Function.update_of_ne hne ..).trans (h.fresh p hp)

lemma Linked.quiet_goto (h : Linked M) (hin : SchedIn M.created s) (hstack : SameStacks M.sched.threads s.threads)
    {k : Pc} (hk : k ≠ .halt) : Quiet M { M with sched := s, pc := Function.update M.pc M.sched.running k } := by
  refine ⟨h.goto hin k, rfl, hstack, fun c hc => ?_⟩
  by_cases hcr : c = M.sched.running
  · rw [hcr] at hc
    exact absurd ((Function.update_self ..).symm.trans hc) hk
  · exact (Function.update_of_ne hcr ..).symm.trans hc

/-- A critical section of the executing context, with what it adds to the history. -/
lemma Linked.quiet_sched (h : Linked M) (hst : Stays M.created M.sched s) (l : List Event) :
    Quiet M { M with sched := s, history := l } :=
  ⟨⟨hst.inside, h.fresh⟩, rfl, hst.stack, fun _ hc => hc⟩

lemma Linked.quiet_call (h : Linked M) {k : Pc} (hk : k = .halt → M.pc M.sched.running = .halt)
    (hs : callSchedule M k = some M') : Quiet M M' := by
  obtain ⟨hlinked, hcreated, hstack, hhalt⟩ := callSchedule_in h hs
  refine ⟨hlinked, hcreated, hstack, fun c hc => ?_⟩
  rcases hhalt c hc with hbefore | ⟨rfl, hkh⟩
  · exact hbefore
  · exact hk hkh

lemma Linked.quiet_sleep (h : Linked M) {k : Pc} (hk : k ≠ .halt) (hst : Stays M.created M.sched s)
    (hs : callSchedule { M with sched := s } k = some M') : Quiet M M' := by
  have hmid := h.quiet_sched hst M.history
  have hcall := @Linked.quiet_call { M with sched := s } M' hmid.linked k (fun he => absurd he hk) hs
  exact ⟨hcall.linked, hcall.created, hst.stack.trans hcall.stack, hcall.halt⟩

/-- Every step of the scheduler but the creation and the end of a thread is quiet. -/
theorem Linked.quiet (h : Linked M) {op : Op} (hop : op.plain = true) (hs : step M op = some M') : Quiet M M' := by
  cases op with
  | create t stack size => exact absurd hop (by simp [Op.plain])
  | exitMark => exact absurd hop (by simp [Op.plain])
  | exitClear => exact absurd hop (by simp [Op.plain])
  | exitSwitch => exact absurd hop (by simp [Op.plain])
  | yieldTest =>
    have hpc : M.pc M.sched.running = .user := step_pc hs rfl
    simp only [step, hpc] at hs
    split at hs
    · rw [← Option.some.inj hs]
      exact h.quiet_refl
    · rw [← Option.some.inj hs]
      exact h.quiet_goto h.sched (fun _ => rfl) (by simp)
  | yieldSwitch =>
    have hpc : M.pc M.sched.running = .yielding := step_pc hs rfl
    simp only [step, hpc] at hs
    exact h.quiet_call (fun he => by cases he) hs
  | tick =>
    rw [step_tick] at hs
    split at hs
    · rw [← Option.some.inj hs]
      exact h.quiet_refl
    · exact h.quiet_call (fun he => he) hs
  | lock mtx =>
    have hpc : M.pc M.sched.running = .user := step_pc hs rfl
    simp only [step, hpc, Option.bind_eq_some_iff] at hs
    obtain ⟨r, hr, hs⟩ := hs
    have hst := mutexLock_in h.sched hr
    split at hs
    · exact h.quiet_sleep (fun he => by cases he) hst hs
    · rw [← Option.some.inj hs]
      exact h.quiet_sched hst _
  | unlock mtx =>
    have hpc : M.pc M.sched.running = .user := step_pc hs rfl
    simp only [step, hpc] at hs
    rw [Option.map_eq_some_iff] at hs
    obtain ⟨s', hs', rfl⟩ := hs
    exact h.quiet_sched (mutexUnlock_in h.sched hs') _
  | wait sem =>
    have hpc : M.pc M.sched.running = .user := step_pc hs rfl
    simp only [step, hpc, Option.bind_eq_some_iff] at hs
    obtain ⟨r, hr, hs⟩ := hs
    have hst := semWait_in h.sched hr
    split at hs
    · exact h.quiet_sleep (fun he => by cases he) hst hs
    · rw [← Option.some.inj hs]
      exact h.quiet_sched hst _
  | post sem =>
    have hpc : M.pc M.sched.running = .user := step_pc hs rfl
    simp only [step, hpc] at hs
    rw [Option.map_eq_some_iff] at hs
    obtain ⟨s', hs', rfl⟩ := hs
    exact h.quiet_sched (semPost_in h.sched hs') _

lemma create_failed {t : Option ThreadPtr} {size : UInt32} (hs : step M (.create t none size) = some M') :
    M' = M := by
  have hpc : M.pc M.sched.running = .user := step_pc hs rfl
  simp only [step, hpc] at hs
  split at hs
  · cases t <;> simpa [threadCreate] using hs.symm
  · cases hs

lemma PtrIn.mono {C' : Finset ThreadPtr} {o : Option ThreadPtr} (h : PtrIn C o) (hsub : C ⊆ C') :
    PtrIn C' o := fun p hp => hsub (h p hp)

lemma ThreadsIn.insert (h : ThreadsIn C th) {thread : Thread} (hnext : thread.next = none)
    (hesp : thread.esp = .thread t) : ThreadsIn (insert t C) (Function.update th t thread) where
  next p hp := by
    by_cases hpt : p = t
    · subst hpt
      rw [nextOf, Function.update_self, hnext]
      exact ptrIn_none
    · rw [nextOf, Function.update_of_ne hpt]
      exact (h.next p (Finset.mem_of_mem_insert_of_ne hp hpt)).mono (Finset.subset_insert t C)
  esp p hp := by
    by_cases hpt : p = t
    · subst hpt
      rw [Function.update_self, hesp]
    · rw [Function.update_of_ne hpt]
      exact h.esp p (Finset.mem_of_mem_insert_of_ne hp hpt)

lemma SchedIn.insert (h : SchedIn C s) {thread : Thread} (hnext : thread.next = none)
    (hesp : thread.esp = .thread t) (id : UInt32) :
    SchedIn (insert t C) { s with threads := Function.update s.threads t thread, nextTid := id } where
  threads := h.threads.insert hnext hesp
  queue i := by
    have hq : QueueIn C (Sched.queue { s with threads := Function.update s.threads t thread, nextTid := id } i) :=
      h.queues (h.queue .run) rfl rfl i
    exact ⟨hq.head.mono (Finset.subset_insert t C), hq.tail.mono (Finset.subset_insert t C)⟩
  current := h.current.mono (Finset.subset_insert t C)
  executing p hp := Finset.mem_insert_of_mem (h.executing p hp)
  active := h.active

/-- A created thread is new and has its stack; nothing else changes. -/
theorem Linked.create (h : Linked M) {stack : ℕ} {size : UInt32}
    (hs : step M (.create (some t) (some stack) size) = some M') :
    Linked M' ∧ t ∉ M.created ∧ M'.created = insert t M.created ∧ M'.pc = M.pc ∧
      (M'.sched.threads t).stack = some stack ∧
      ∀ p, p ≠ t → (M'.sched.threads p).stack = (M.sched.threads p).stack := by
  have hpc : M.pc M.sched.running = .user := step_pc hs rfl
  simp only [step, hpc] at hs
  split at hs
  · rename_i hnew
    have htC : t ∉ M.created := hnew t rfl
    simp only [threadCreate, Option.map_map, Option.map_eq_some_iff] at hs
    obtain ⟨s', hs', rfl⟩ := hs
    have hst := enqueue_in (h.sched.insert rfl rfl _) (Finset.mem_insert_self t M.created) hs'
    refine ⟨⟨hst.inside, fun p hp => ?_⟩, htC, rfl, rfl, ?_, fun p hp => ?_⟩
    · exact h.fresh p (fun hm => hp (Finset.mem_insert_of_mem hm))
    · exact (hst.stack t).trans (by simp)
    · exact (hst.stack p).trans (by simp [hp])
  · cases hs

/-- The current thread gives its stack up and is no longer current. -/
lemma SchedIn.clear (h : SchedIn C s) {thread : Thread} (hnext : thread.next = (s.threads p).next)
    (hesp : thread.esp = (s.threads p).esp) :
    SchedIn C { s with threads := Function.update s.threads p thread, current := none } where
  threads := by
    refine ⟨fun u hu => ?_, fun u hu => ?_⟩
    · have hu' := h.threads.next u hu
      by_cases hup : u = p
      · subst hup
        simpa [nextOf, hnext] using hu'
      · simpa [nextOf, hup] using hu'
    · have hu' := h.threads.esp u hu
      by_cases hup : u = p
      · subst hup
        simpa [hesp] using hu'
      · simpa [hup] using hu'
  queue := h.queues (h.queue .run) rfl rfl
  current := ptrIn_none
  executing := h.executing
  active u hu := by cases hu

/-- The part of `thread_exit` before `kfree`. -/
lemma Linked.exitMark (h : Linked M) (hs : step M .exitMark = some M') :
    Quiet M M' ∧ M'.sched.current = M.sched.current ∧ ∀ c, c ≠ M.sched.running → M'.pc c = M.pc c := by
  have hpc : M.pc M.sched.running = .user := step_pc hs rfl
  simp only [step, hpc] at hs
  split at hs
  · obtain rfl := Option.some.inj hs
    exact ⟨h.quiet_refl, rfl, fun _ _ => rfl⟩
  · rename_i p hp
    obtain rfl := Option.some.inj hs
    have hst := h.sched.setState p .zombie
    exact ⟨h.quiet_goto hst.inside hst.stack (by simp), rfl, fun c hc => Function.update_of_ne hc ..⟩

/-- The part of `thread_exit` behind `kfree`. -/
lemma Linked.exitClear (h : Linked M) (hs : step M .exitClear = some M') :
    ∃ p, M.sched.current = some p ∧ Linked M' ∧ M'.created = M.created ∧ M'.sched.running = M.sched.running ∧
      (M'.sched.threads p).stack = none ∧
      (∀ u, u ≠ p → (M'.sched.threads u).stack = (M.sched.threads u).stack) ∧
      ∀ c, c ≠ M.sched.running → M'.pc c = M.pc c := by
  have hpc : M.pc M.sched.running = .exiting := step_pc hs rfl
  simp only [step, hpc, Scheduler.exitClear, Option.map_map, Option.map_eq_some_iff] at hs
  obtain ⟨p, hp, rfl⟩ := hs
  have hin : SchedIn M.created { M.sched with
      threads := Function.update M.sched.threads p { M.sched.threads p with stack := none }, current := none } :=
    h.sched.clear rfl rfl
  refine ⟨p, hp, h.goto hin .cleared, rfl, rfl, ?_, fun u hu => ?_, fun c hc => Function.update_of_ne hc ..⟩
  · simp
  · simp [hu]

/-- `thread_exit` of a current thread, in its three parts. -/
theorem Linked.exit (h : Linked M) {M₁ M₂ : Machine} (hp : M.sched.current = some p)
    (h₁ : step M .exitMark = some M₁) (h₂ : step M₁ .exitClear = some M₂)
    (h₃ : step M₂ .exitSwitch = some M') :
    Linked M' ∧ p ∈ M.created ∧ M'.created = M.created ∧
      (M₁.sched.threads p).stack = (M.sched.threads p).stack ∧ (M'.sched.threads p).stack = none ∧
      (∀ u, u ≠ p → (M'.sched.threads u).stack = (M.sched.threads u).stack) ∧
      ∀ c, M'.pc c = .halt → M.pc c = .halt ∨ c = .thread p := by
  obtain ⟨hmark, hcur, hpc₁⟩ := h.exitMark h₁
  obtain ⟨q, hq, hclear, hcreated₂, hrun₂, hnone, hothers, hpc₂⟩ := hmark.linked.exitClear h₂
  obtain rfl : p = q := Option.some.inj (hp.symm.trans (hcur.symm.trans hq))
  have hrun : M.sched.running = .thread p := h.sched.active p hp
  have hrun₁ : M₁.sched.running = .thread p := hmark.linked.sched.active p hq
  have hpc : M₂.pc M₂.sched.running = .cleared := step_pc h₃ rfl
  simp only [step, hpc] at h₃
  obtain ⟨hlinked, hcreated, hstack, hhalt⟩ := callSchedule_in hclear h₃
  refine ⟨hlinked, h.sched.current p hp, hcreated.trans (hcreated₂.trans hmark.created), hmark.stack p,
    (hstack p).trans hnone, fun u hu => ?_, fun c hc => ?_⟩
  · exact (hstack u).trans ((hothers u hu).trans (hmark.stack u))
  · rcases hhalt c hc with hbefore | ⟨hcr, -⟩
    · by_cases hcp : c = .thread p
      · exact Or.inr hcp
      · rw [hpc₂ c (hrun₁ ▸ hcp), hpc₁ c (hrun ▸ hcp)] at hbefore
        exact Or.inl hbefore
    · exact Or.inr (hcr.trans (hrun₂.trans hrun₁))

end Machine

end SBoy28.Scheduler
