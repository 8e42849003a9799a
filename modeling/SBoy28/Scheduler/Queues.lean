import SBoy28.Scheduler.Model
import SBoy28.Lib.Queue

/-!
# What the operations do to the queues

`Views s V` reads every queue of the scheduler as a list. On such a view the pointer
operations of the scheduler append at the back and take from the front, and `schedule`
dispatches the head of the run queue.
-/

namespace SBoy28.Scheduler
open Lib

/-- The queues: the run queue and one wait queue for each mutex and semaphore. -/
inductive QueueId where
  | run
  | mutex (mtx : ℕ)
  | sem (sem : ℕ)
  deriving DecidableEq

def Sched.queue (s : Sched) : QueueId → Queue
  | .run => s.run
  | .mutex mtx => (s.mutexes mtx).wait
  | .sem sem => (s.semaphores sem).wait

def nextOf (th : Threads) (t : ThreadPtr) : Option ThreadPtr := (th t).next

abbrev View := QueueId → List ThreadPtr

def Views (s : Sched) (V : View) : Prop :=
  ∀ i, IsQueue (nextOf s.threads) (s.queue i).head (s.queue i).tail (V i)

/-- No thread is in two queues. -/
def Apart (V : View) : Prop := ∀ i j p, p ∈ V i → p ∈ V j → i = j

/-- Only links differ. -/
def SameButNext (th th' : Threads) : Prop := ∀ p, th' p = { th p with next := (th' p).next }

section Threads

variable (th : Threads) (t p : ThreadPtr)

lemma nextOf_setNext (v : Option ThreadPtr) :
    nextOf (setNext th t v) = Function.update (nextOf th) t v := by
  funext p
  by_cases hp : p = t
  · subst hp
    simp [nextOf, setNext]
  · simp [nextOf, setNext, hp]

@[simp] lemma nextOf_setState (v : ThreadState) : nextOf (setState th t v) = nextOf th := by
  funext p
  by_cases hp : p = t
  · subst hp
    simp [nextOf, setState]
  · simp [nextOf, setState, hp]

@[simp] lemma nextOf_setEsp (v : Context) : nextOf (setEsp th t v) = nextOf th := by
  funext p
  by_cases hp : p = t
  · subst hp
    simp [nextOf, setEsp]
  · simp [nextOf, setEsp, hp]

@[simp] lemma state_setState (v : ThreadState) :
    (setState th t v p).state = if p = t then v else (th p).state := by
  by_cases hp : p = t <;> simp [setState, hp]

@[simp] lemma esp_setState (v : ThreadState) : (setState th t v p).esp = (th p).esp := by
  by_cases hp : p = t <;> simp [setState, hp]

@[simp] lemma state_setEsp (v : Context) : (setEsp th t v p).state = (th p).state := by
  by_cases hp : p = t <;> simp [setEsp, hp]

@[simp] lemma esp_setEsp (v : Context) :
    (setEsp th t v p).esp = if p = t then v else (th p).esp := by
  by_cases hp : p = t <;> simp [setEsp, hp]

lemma sameButNext_setNext (v : Option ThreadPtr) : SameButNext th (setNext th t v) := by
  intro p
  by_cases hp : p = t <;> simp [setNext, hp]

end Threads

lemma SameButNext.trans {th₁ th₂ th₃ : Threads} (h : SameButNext th₁ th₂)
    (h' : SameButNext th₂ th₃) : SameButNext th₁ th₃ := by
  intro p
  rw [h' p, h p]

lemma SameButNext.state {th th' : Threads} (h : SameButNext th th') (p : ThreadPtr) :
    (th' p).state = (th p).state := by rw [h p]

lemma SameButNext.esp {th th' : Threads} (h : SameButNext th th') (p : ThreadPtr) :
    (th' p).esp = (th p).esp := by rw [h p]

/-- The append written out in three places of the source. -/
theorem pushBack_spec {th : Threads} {q : Queue} {l : List ThreadPtr} {t : ThreadPtr}
    (hq : IsQueue (nextOf th) q.head q.tail l) (ht : t ∉ l) :
    ∃ th' q', pushBack th q t = some (th', q') ∧
      IsQueue (nextOf th') q'.head q'.tail (l ++ [t]) ∧ SameButNext th th' ∧
      ∀ p, p ≠ t → p ∉ l → nextOf th' p = nextOf th p := by
  by_cases hh : q.head = none
  · have hl : l = [] := by
      have := hq.1
      rw [hh] at this
      exact this.eq_nil
    subst hl
    refine ⟨setNext th t none, ⟨some t, some t⟩, ?_, ?_, sameButNext_setNext th t none, ?_⟩
    · simp [pushBack, hh]
    · apply isQueue_singleton
      simp [nextOf_setNext]
    · intro p hp _
      simp [nextOf_setNext, hp]
  · obtain ⟨u, hu⟩ : ∃ u, q.tail = some u := by
      rw [hq.2]
      cases hl : l.getLast? with
      | none =>
        rw [List.getLast?_eq_none_iff] at hl
        exact absurd (by rw [hq.head, hl]; rfl) hh
      | some u => exact ⟨u, rfl⟩
    have hul : u ∈ l := List.mem_of_getLast? (hq.2.symm.trans hu)
    have hut : u ≠ t := fun h => ht (h ▸ hul)
    refine ⟨setNext (setNext th t none) u (some t), ⟨q.head, some t⟩, ?_, ?_, ?_, ?_⟩
    · simp [pushBack, hh, hu]
    · rw [hu] at hq
      apply hq.push
      · simp [nextOf_setNext, hut.symm]
      · simp [nextOf_setNext]
      · intro a ha hau
        have hat : a ≠ t := fun h => ht (h ▸ ha)
        simp [nextOf_setNext, hau, hat]
    · exact (sameButNext_setNext th t none).trans (sameButNext_setNext _ u _)
    · intro p hp hpl
      have hpu : p ≠ u := fun h => hpl (h ▸ hul)
      simp [nextOf_setNext, hp, hpu]

/-- Taking the head off, written out in three places of the source. -/
theorem popFront_spec {th : Threads} {q : Queue} {l : List ThreadPtr} {t : ThreadPtr}
    (hq : IsQueue (nextOf th) q.head q.tail l) (ht : q.head = some t) :
    ∃ rest, l = t :: rest ∧
      IsQueue (nextOf th) (popFront th q t).head (popFront th q t).tail rest := by
  rw [ht] at hq
  exact hq.pop

variable {s : Sched} {V : View}

lemma Views.run (h : Views s V) :
    IsQueue (nextOf s.threads) s.run.head s.run.tail (V .run) := h .run

lemma Views.congr {s' : Sched} (h : Views s V) (hq : ∀ i, s'.queue i = s.queue i)
    (he : ∀ i, ∀ p ∈ V i, nextOf s'.threads p = nextOf s.threads p) : Views s' V := by
  intro i
  rw [hq i]
  exact (h i).congr (he i)

/-- One queue gets a new chain; the links of the others are untouched. -/
lemma Views.update {s' : Sched} {i : QueueId} {l : List ThreadPtr} (h : Views s V)
    (hi : IsQueue (nextOf s'.threads) (s'.queue i).head (s'.queue i).tail l)
    (hq : ∀ j, j ≠ i → s'.queue j = s.queue j)
    (he : ∀ j, j ≠ i → ∀ p ∈ V j, nextOf s'.threads p = nextOf s.threads p) :
    Views s' (Function.update V i l) := by
  intro j
  by_cases hj : j = i
  · subst hj
    rwa [Function.update_self]
  · rw [Function.update_of_ne hj, hq j hj]
    exact (h j).congr (he j hj)

theorem enqueue_spec {t : ThreadPtr} (hv : Views s V) (hd : Apart V) (ht : ∀ i, t ∉ V i) :
    ∃ th q, enqueueThreadLocked s t = some { s with threads := th, run := q } ∧
      SameButNext s.threads th ∧
      Views { s with threads := th, run := q } (Function.update V .run (V .run ++ [t])) := by
  obtain ⟨th, q, hpush, hq, hsame, hframe⟩ := pushBack_spec hv.run (ht .run)
  refine ⟨th, q, by simp [enqueueThreadLocked, hpush], hsame, ?_⟩
  apply hv.update hq
  · intro j hj
    cases j <;> first | rfl | exact absurd rfl hj
  · intro j hj p hp
    apply hframe p
    · rintro rfl
      exact ht j hp
    · intro hpr
      exact hj (hd _ _ _ hp hpr)

theorem dequeue_spec {t : ThreadPtr} {rest : List ThreadPtr} (hv : Views s V) (hd : Apart V)
    (hr : V .run = t :: rest) :
    ∃ q, dequeueThreadLocked s =
        (some t, { s with run := q, threads := setNext s.threads t none }) ∧
      Views { s with run := q, threads := setNext s.threads t none } (Function.update V .run rest) := by
  have hq := hv.run
  have hhead : s.run.head = some t := by rw [hq.head, hr]; rfl
  obtain ⟨rest', hl, hpop⟩ := popFront_spec hq hhead
  rw [hr] at hl
  obtain rfl : rest = rest' := by simpa using hl
  have hnd : (t :: rest).Nodup := hr ▸ hq.nodup
  refine ⟨popFront s.threads s.run t, by simp [dequeueThreadLocked, hhead], ?_⟩
  apply hv.update
  · apply hpop.congr
    intro p hp
    have hpt : p ≠ t := fun h => (List.nodup_cons.mp hnd).1 (h ▸ hp)
    simp [nextOf_setNext, hpt]
  · intro j hj
    cases j <;> first | rfl | exact absurd rfl hj
  · intro j hj p hp
    have hpt : p ≠ t := by
      rintro rfl
      exact hj (hd _ _ _ hp (by simp [hr]))
    simp [nextOf_setNext, hpt]

section ContextSwitch

variable (s) (prev : Option ThreadPtr) (t p : ThreadPtr)

@[simp] lemma nextOf_contextSwitch :
    nextOf (contextSwitch s prev t).threads = nextOf s.threads := by
  cases prev <;> simp [contextSwitch]

@[simp] lemma state_contextSwitch :
    ((contextSwitch s prev t).threads p).state = (s.threads p).state := by
  cases prev <;> simp [contextSwitch]

@[simp] lemma esp_contextSwitch :
    ((contextSwitch s prev t).threads p).esp =
      if prev = some p then s.running else (s.threads p).esp := by
  cases prev <;> simp [contextSwitch, eq_comm]

lemma running_contextSwitch (h : prev ≠ some t) :
    (contextSwitch s prev t).running = (s.threads t).esp := by
  cases prev with
  | none => rfl
  | some c =>
    have hct : t ≠ c := fun e => h (e ▸ rfl)
    simp [contextSwitch, hct]

@[simp] lemma current_contextSwitch : (contextSwitch s prev t).current = s.current := by
  cases prev <;> rfl

@[simp] lemma mutexes_contextSwitch : (contextSwitch s prev t).mutexes = s.mutexes := by
  cases prev <;> rfl

@[simp] lemma semaphores_contextSwitch :
    (contextSwitch s prev t).semaphores = s.semaphores := by
  cases prev <;> rfl

end ContextSwitch

/-- The current thread if `schedule` puts it back into the run queue. -/
def requeued (s : Sched) : List ThreadPtr :=
  match s.current with
  | none => []
  | some p => if (s.threads p).state = .running then [p] else []

lemma mem_requeued {p : ThreadPtr} :
    p ∈ requeued s ↔ s.current = some p ∧ (s.threads p).state = .running := by
  unfold requeued
  cases hc : s.current with
  | none => simp
  | some c =>
    by_cases hs : (s.threads c).state = .running
    · simp only [hs, ite_true, List.mem_singleton, Option.some.injEq]
      constructor
      · rintro rfl
        exact ⟨rfl, hs⟩
      · rintro ⟨rfl, -⟩
        rfl
    · simp only [hs, ite_false, List.not_mem_nil, Option.some.injEq, false_iff, not_and]
      rintro rfl
      exact hs

lemma schedule_empty (h : s.run.head = none) : schedule s = some s := by
  simp [schedule, dequeueThreadLocked, h]

/-- `schedule` with a non-empty run queue: the head is dispatched, a running caller goes to
the back, and the caller's context is saved in its `thread_t`. -/
theorem schedule_spec {t : ThreadPtr} {rest : List ThreadPtr} (hv : Views s V) (hd : Apart V)
    (hr : V .run = t :: rest) (hne : s.current ≠ some t)
    (hout : ∀ p ∈ requeued s, ∀ i, p ∉ V i) :
    ∃ s', schedule s = some s' ∧ Views s' (Function.update V .run (rest ++ requeued s)) ∧
      s'.current = some t ∧ s'.running = (s.threads t).esp ∧ s'.mutexes = s.mutexes ∧
      s'.semaphores = s.semaphores ∧
      (∀ p, (s'.threads p).state =
        if p = t then .running else if p ∈ requeued s then .ready else (s.threads p).state) ∧
      ∀ p, (s'.threads p).esp = if s.current = some p then s.running else (s.threads p).esp := by
  obtain ⟨q, hdeq, hvd⟩ := dequeue_spec hv hd hr
  have hsub : ∀ i p, p ∈ Function.update V .run rest i → p ∈ V i := by
    intro i p hp
    by_cases hi : i = .run
    · subst hi
      rw [Function.update_self] at hp
      rw [hr]
      exact List.mem_cons_of_mem _ hp
    · rwa [Function.update_of_ne hi] at hp
  have hsd := sameButNext_setNext s.threads t none
  cases hc : s.current with
  | none =>
    have hre : requeued s = [] := by simp [requeued, hc]
    have hsched : schedule s = some (contextSwitch { s with
        run := q
        threads := setState (setNext s.threads t none) t .running
        current := some t } none t) := by
      simp only [schedule, hdeq, hc, Option.map_some]
    refine ⟨_, hsched, ?_, by simp, ?_, by simp, by simp, ?_, ?_⟩
    · rw [hre, List.append_nil]
      exact hvd.congr (fun i => by cases i <;> rfl) (fun i p _ => by simp)
    · rw [running_contextSwitch _ _ _ (by simp), esp_setState, hsd.esp]
    · intro p
      rw [hre, state_contextSwitch, state_setState, hsd.state]
      simp
    · intro p
      rw [esp_contextSwitch, esp_setState, hsd.esp]
  | some c =>
    have hct : t ≠ c := fun h => hne (h ▸ hc)
    have hct' : some c ≠ some t := by simpa using hct.symm
    by_cases hs : (s.threads c).state = .running
    · have hre : requeued s = [c] := by simp [requeued, hc, hs]
      have hcr : c ∈ requeued s := by simp [hre]
      have hsc : (setNext s.threads t none c).state = .running := by rw [hsd.state, hs]
      have hv₁ : Views { s with
          run := q
          threads := setState (setNext s.threads t none) c .ready } (Function.update V .run rest) :=
        hvd.congr (fun i => by cases i <;> rfl) (fun i p _ => by simp)
      obtain ⟨th, q', henq, hsame, hve⟩ := enqueue_spec hv₁
        (fun i j p hi hj => hd i j p (hsub i p hi) (hsub j p hj))
        (fun i hi => hout c hcr i (hsub i c hi))
      have hsched : schedule s = some (contextSwitch { s with
          run := q'
          threads := setState th t .running
          current := some t } (some c) t) := by
        simp only [hc] at henq
        simp only [schedule, hdeq, hc, hsc, ite_true, henq, Option.map_some]
      refine ⟨_, hsched, ?_, by simp, ?_, by simp, by simp, ?_, ?_⟩
      · rw [Function.update_self, Function.update_idem] at hve
        rw [hre]
        exact hve.congr (fun i => by cases i <;> rfl) (fun i p _ => by simp)
      · rw [running_contextSwitch _ _ _ hct', esp_setState, hsame.esp, esp_setState, hsd.esp]
      · intro p
        rw [hre, state_contextSwitch, state_setState, hsame.state, state_setState, hsd.state]
        simp
      · intro p
        rw [esp_contextSwitch, esp_setState, hsame.esp, esp_setState, hsd.esp]
    · have hre : requeued s = [] := by simp [requeued, hc, hs]
      have hsc : (setNext s.threads t none c).state ≠ .running := by rwa [hsd.state]
      have hsched : schedule s = some (contextSwitch { s with
          run := q
          threads := setState (setNext s.threads t none) t .running
          current := some t } (some c) t) := by
        simp only [schedule, hdeq, hc, hsc, ite_false, Option.map_some]
      refine ⟨_, hsched, ?_, by simp, ?_, by simp, by simp, ?_, ?_⟩
      · rw [hre, List.append_nil]
        exact hvd.congr (fun i => by cases i <;> rfl) (fun i p _ => by simp)
      · rw [running_contextSwitch _ _ _ hct', esp_setState, hsd.esp]
      · intro p
        rw [hre, state_contextSwitch, state_setState, hsd.state]
        simp
      · intro p
        rw [esp_contextSwitch, esp_setState, hsd.esp]

/-- The state with another queue in one place. -/
def setQueue (s : Sched) (i : QueueId) (q : Queue) : Sched :=
  match i with
  | .run => { s with run := q }
  | .mutex mtx => setMutex s mtx { s.mutexes mtx with wait := q }
  | .sem sem => setSemaphore s sem { s.semaphores sem with wait := q }

@[simp] lemma queue_setQueue (s : Sched) (i j : QueueId) (q : Queue) :
    (setQueue s i q).queue j = if j = i then q else s.queue j := by
  cases i with
  | run => cases j <;> simp [setQueue, Sched.queue]
  | mutex m =>
    cases j with
    | mutex m' => by_cases h : m' = m <;> simp [setQueue, setMutex, Sched.queue, h]
    | _ => simp [setQueue, setMutex, Sched.queue]
  | sem k =>
    cases j with
    | sem k' => by_cases h : k' = k <;> simp [setQueue, setSemaphore, Sched.queue, h]
    | _ => simp [setQueue, setSemaphore, Sched.queue]

@[simp] lemma threads_setQueue (s : Sched) (i : QueueId) (q : Queue) :
    (setQueue s i q).threads = s.threads := by cases i <;> rfl

@[simp] lemma current_setQueue (s : Sched) (i : QueueId) (q : Queue) :
    (setQueue s i q).current = s.current := by cases i <;> rfl

@[simp] lemma running_setQueue (s : Sched) (i : QueueId) (q : Queue) :
    (setQueue s i q).running = s.running := by cases i <;> rfl

@[simp] lemma locked_setQueue (s : Sched) (i : QueueId) (q : Queue) (mtx : ℕ) :
    ((setQueue s i q).mutexes mtx).locked = (s.mutexes mtx).locked := by
  cases i with
  | mutex m => by_cases h : mtx = m <;> simp [setQueue, setMutex, h]
  | _ => rfl

@[simp] lemma count_setQueue (s : Sched) (i : QueueId) (q : Queue) (sem : ℕ) :
    ((setQueue s i q).semaphores sem).count = (s.semaphores sem).count := by
  cases i with
  | sem k => by_cases h : sem = k <;> simp [setQueue, setSemaphore, h]
  | _ => rfl

/-- The current thread goes to sleep at the back of a wait queue. -/
theorem sleepOn_spec {p : ThreadPtr} {i : QueueId} (hv : Views s V) (hd : Apart V)
    (hc : s.current = some p) (hp : ∀ j, p ∉ V j) :
    ∃ th q, sleepOn s (s.queue i) = some ({ s with threads := th }, q) ∧
      (∀ r, (th r).state = if r = p then .sleeping else (s.threads r).state) ∧
      (∀ r, (th r).esp = (s.threads r).esp) ∧
      Views (setQueue { s with threads := th } i q) (Function.update V i (V i ++ [p])) := by
  have hq : IsQueue (nextOf (setState s.threads p .sleeping)) (s.queue i).head (s.queue i).tail
      (V i) := by
    rw [nextOf_setState]
    exact hv i
  obtain ⟨th, q, hpush, hq', hsame, hframe⟩ := pushBack_spec hq (hp i)
  refine ⟨th, q, by simp [sleepOn, hc, hpush], ?_, ?_, ?_⟩
  · intro r
    rw [hsame.state, state_setState]
  · intro r
    rw [hsame.esp, esp_setState]
  · apply hv.update
    · simpa using hq'
    · intro j hj
      cases j <;> simp [hj] <;> rfl
    · intro j hj r hr
      rw [threads_setQueue, hframe r (fun h => hp j (h ▸ hr)) (fun h => hj (hd _ _ _ hr h)),
        nextOf_setState]

lemma wakeHead_empty {i : QueueId} (hv : Views s V) (hi : V i = []) :
    wakeHead s (s.queue i) = some none := by
  have hh : (s.queue i).head = none := by
    rw [(hv i).head, hi]
    rfl
  simp [wakeHead, hh]

/-- The first sleeper of a wait queue moves to the back of the run queue. -/
theorem wakeHead_spec {t : ThreadPtr} {rest : List ThreadPtr} {i : QueueId} (hv : Views s V)
    (hd : Apart V) (hrun : i ≠ .run) (hi : V i = t :: rest) :
    ∃ th q q', wakeHead s (s.queue i) = some (some ({ s with threads := th, run := q }, q')) ∧
      (∀ r, (th r).state = if r = t then .ready else (s.threads r).state) ∧
      (∀ r, (th r).esp = (s.threads r).esp) ∧
      Views (setQueue { s with threads := th, run := q } i q')
        (Function.update (Function.update V i rest) .run (V .run ++ [t])) := by
  have hh : (s.queue i).head = some t := by
    rw [(hv i).head, hi]
    rfl
  obtain ⟨rest', hl, hpop⟩ := popFront_spec (hv i) hh
  rw [hi] at hl
  obtain rfl : rest = rest' := by simpa using hl
  have hti : t ∈ V i := by simp [hi]
  have htrun : t ∉ V .run := fun h => hrun (hd _ _ _ hti h)
  have hnd : (t :: rest).Nodup := hi ▸ (hv i).nodup
  have hq : IsQueue (nextOf (setState s.threads t .ready)) s.run.head s.run.tail (V .run) := by
    rw [nextOf_setState]
    exact hv.run
  obtain ⟨th, q, hpush, hq', hsame, hframe⟩ := pushBack_spec hq htrun
  have hkeep : ∀ r, r ≠ t → r ∉ V .run → nextOf th r = nextOf s.threads r := by
    intro r hr hrr
    rw [hframe r hr hrr, nextOf_setState]
  refine ⟨th, q, popFront s.threads (s.queue i) t, ?_, ?_, ?_, ?_⟩
  · simp [wakeHead, hh, enqueueThreadLocked, hpush]
  · intro r
    rw [hsame.state, state_setState]
  · intro r
    rw [hsame.esp, esp_setState]
  · intro j
    by_cases hjr : j = .run
    · subst hjr
      rw [Function.update_self, queue_setQueue, if_neg hrun.symm, threads_setQueue]
      exact hq'
    · rw [Function.update_of_ne hjr, queue_setQueue, threads_setQueue]
      by_cases hji : j = i
      · subst hji
        rw [Function.update_self, if_pos rfl]
        apply hpop.congr
        intro r hr
        refine hkeep r (fun h => (List.nodup_cons.mp hnd).1 (h ▸ hr)) (fun h => ?_)
        exact hrun (hd _ _ _ (by simp [hi, hr]) h)
      · rw [Function.update_of_ne hji, if_neg hji]
        have hsq : Sched.queue { s with threads := th, run := q } j = s.queue j := by
          cases j <;> first | rfl | exact absurd rfl hjr
        rw [hsq]
        apply (hv j).congr
        intro r hr
        refine hkeep r (fun h => hji (hd _ _ _ (h ▸ hr) hti)) (fun h => ?_)
        exact hjr (hd _ _ _ hr h)

/-- A created thread is ready at the back of the run queue. -/
theorem threadCreate_spec {t : ThreadPtr} {stack : ℕ} {size : UInt32} (hv : Views s V)
    (ht : ∀ i, t ∉ V i) (hd : Apart V) :
    ∃ th q, threadCreate s (some t) (some stack) size =
        some (s.nextTid, { s with threads := th, run := q, nextTid := s.nextTid + 1 }) ∧
      (∀ r, (th r).state = if r = t then .ready else (s.threads r).state) ∧
      (∀ r, (th r).esp = if r = t then .thread t else (s.threads r).esp) ∧
      Views { s with threads := th, run := q, nextTid := s.nextTid + 1 }
        (Function.update V .run (V .run ++ [t])) := by
  let thread : Thread := ⟨.thread t, s.nextTid, some stack,
    if size = 0 then threadDefaultStack else size, .ready, none⟩
  have hnext : ∀ r, r ≠ t → nextOf (Function.update s.threads t thread) r = nextOf s.threads r := by
    intro r hr
    simp [nextOf, hr]
  have hv₁ : Views { s with
      threads := Function.update s.threads t thread
      nextTid := s.nextTid + 1 } V :=
    hv.congr (fun i => by cases i <;> rfl) (fun i p hp => hnext p (fun h => ht i (h ▸ hp)))
  obtain ⟨th, q, henq, hsame, hv'⟩ := enqueue_spec hv₁ hd ht
  refine ⟨th, q, ?_, ?_, ?_, hv'⟩
  · simp only [threadCreate, thread] at henq ⊢
    rw [henq]
    rfl
  · intro r
    rw [hsame.state]
    by_cases hr : r = t
    · subst hr
      simp [thread]
    · simp [hr]
  · intro r
    rw [hsame.esp]
    by_cases hr : r = t
    · subst hr
      simp [thread]
    · simp [hr]

section Moves

variable {V V' : View} {p t : ThreadPtr} {rest : List ThreadPtr} {i k : QueueId}

/-- Every thread is in the queue where it was, but `p` is in `k` and nowhere else. -/
def Moves (V V' : View) (p : ThreadPtr) (k : QueueId) : Prop :=
  ∀ j, ∀ r ∈ V' j, r ∈ V j ∧ r ≠ p ∨ j = k ∧ r = p

lemma Moves.apart (hm : Moves V V' p k) (hd : Apart V) : Apart V' := by
  intro i j r hi hj
  rcases hm i r hi with ⟨hi, hn⟩ | ⟨rfl, rfl⟩
  · rcases hm j r hj with ⟨hj, -⟩ | ⟨-, e⟩
    · exact hd i j r hi hj
    · exact absurd e hn
  · rcases hm j r hj with ⟨-, hn⟩ | ⟨rfl, -⟩
    · exact absurd rfl hn
    · rfl

lemma moves_push (hp : ∀ j, p ∉ V j) (k : QueueId) :
    Moves V (Function.update V k (V k ++ [p])) p k := by
  intro j r hr
  by_cases hj : j = k
  · rw [hj, Function.update_self, List.mem_append, List.mem_singleton] at hr
    rw [hj]
    exact hr.imp (fun hr => ⟨hr, fun e => hp k (e ▸ hr)⟩) fun hr => ⟨rfl, hr⟩
  · rw [Function.update_of_ne hj] at hr
    exact Or.inl ⟨hr, fun e => hp j (e ▸ hr)⟩

lemma mem_push {j : QueueId} {r : ThreadPtr} (k : QueueId) (hr : r ∈ V j) :
    r ∈ Function.update V k (V k ++ [p]) j := by
  by_cases hj : j = k
  · subst hj
    simp [hr]
  · simpa [hj] using hr

/-- The first thread of a queue moves to the back of another one. -/
lemma moves_wake (hd : Apart V) (hnd : (V i).Nodup) (hi : i ≠ k) (hV : V i = t :: rest) :
    Moves V (Function.update (Function.update V i rest) k (V k ++ [t])) t k := by
  have ht : t ∈ V i := by simp [hV]
  rw [hV] at hnd
  have hout : ∀ j, t ∉ Function.update V i rest j := by
    intro j hj
    by_cases hji : j = i
    · rw [hji, Function.update_self] at hj
      exact (List.nodup_cons.mp hnd).1 hj
    · rw [Function.update_of_ne hji] at hj
      exact hji (hd _ _ _ hj ht)
  have hpush := moves_push hout k
  rw [Function.update_of_ne hi.symm] at hpush
  intro j r hr
  rcases hpush j r hr with ⟨hj, hn⟩ | hk
  · left
    refine ⟨?_, hn⟩
    by_cases hji : j = i
    · rw [hji, Function.update_self] at hj
      rw [hji, hV]
      exact List.mem_cons_of_mem _ hj
    · rwa [Function.update_of_ne hji] at hj
  · exact Or.inr hk

lemma mem_wake {j : QueueId} {r : ThreadPtr} (hi : i ≠ k) (hV : V i = t :: rest) (hr : r ∈ V j) (hn : r ≠ t) :
    r ∈ Function.update (Function.update V i rest) k (V k ++ [t]) j := by
  have hold : r ∈ Function.update V i rest j := by
    by_cases hj : j = i
    · subst hj
      rw [hV, List.mem_cons] at hr
      simpa [hn] using hr
    · simpa [hj] using hr
  have hpush := mem_push (p := t) k hold
  rwa [Function.update_of_ne hi.symm] at hpush

end Moves

end SBoy28.Scheduler
