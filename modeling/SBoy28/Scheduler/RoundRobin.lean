import SBoy28.Scheduler.Guarantees
import SBoy28.Lib.Fifo

/-!
# Round robin

The run queue is a line that `schedule` serves at the front. `thread_create`, `mutex_unlock`, `sem_post` and
`schedule` itself append to its back, and nothing else touches it. So a ready thread is dispatched after just
as many calls of `schedule` as there are threads in front of it.
-/

namespace SBoy28.Scheduler
open Lib

variable {s s' : Sched} {V : View} {p t : ThreadPtr} {rest : List ThreadPtr} {i : QueueId}

section Specification

/-- Calls of the scheduler on any state. `mutex_lock` and `sem_wait` go on to `schedule` if they block, and
`thread_yield`, the timer and the end of `thread_exit` are calls of `schedule`. -/
inductive SchedOp where
  | schedule
  | create (t : Option ThreadPtr) (stack : Option ℕ) (stackSize : UInt32)
  | unlock (mtx : ℕ)
  | post (sem : ℕ)
  | lock (mtx : ℕ)
  | wait (sem : ℕ)
  | exitMark
  | exitClear
  deriving DecidableEq, Repr

def Sched.perform (s : Sched) : SchedOp → Option Sched
  | .schedule => schedule s
  | .create t stack size => (threadCreate s t stack size).map Prod.snd
  | .unlock mtx => mutexUnlock s mtx
  | .post sem => semPost s sem
  | .lock mtx => (mutexLock s mtx).bind fun r => if r.2 then schedule r.1 else some r.1
  | .wait sem => (semWait s sem).bind fun r => if r.2 then schedule r.1 else some r.1
  | .exitMark =>
    match s.current with
    | none => some s
    | some p => some (exitMark s p)
  | .exitClear => exitClear s

/-- The call goes on to `schedule`. -/
def Dispatches (s : Sched) : SchedOp → Prop
  | .schedule => True
  | .lock mtx => (s.mutexes mtx).locked = true
  | .wait sem => ¬0 < (s.semaphores sem).count
  | _ => False

/-- The block of a new `thread_t` is not in use by the scheduler. -/
def Unused (s : Sched) (t : ThreadPtr) : Prop := s.current ≠ some t ∧ ∀ V, Views s V → ∀ i, t ∉ V i

/-- `kmalloc` hands out no `thread_t` in use, and a thread that blocks or exits is there. A call of `thread_create` is one
step: no tick comes inside of it, and the stack holds the first frame. -/
def Callable (s : Sched) : SchedOp → Prop
  | .create t _ _ => ∀ u ∈ t, Unused s u
  | .lock mtx => (s.mutexes mtx).locked = true → s.current ≠ none
  | .wait sem => ¬0 < (s.semaphores sem).count → s.current ≠ none
  | .exitClear => s.current ≠ none
  | _ => True

/-- Every queue is a chain of threads in its state, no thread is in two queues, and the current thread is
running or about to exit. -/
structure Placement (s : Sched) (V : View) : Prop where
  views : Views s V
  apart : Apart V
  queued : ∀ i, ∀ p ∈ V i, (s.threads p).state = i.state
  current : ∀ p, s.current = some p → (s.threads p).state = .running ∨ (s.threads p).state = .zombie

/-- Calls that lead from `s` to another state, where every call of `schedule` finds the run queue non-empty;
the list says what was current after each of these. -/
inductive SchedRun (s : Sched) : List (Option ThreadPtr) → Sched → Prop where
  | refl : SchedRun s [] s
  | quiet {D : List (Option ThreadPtr)} {s₁ s₂ : Sched} {op : SchedOp} (h : SchedRun s D s₁) (hop : Callable s₁ op)
    (hquiet : ¬Dispatches s₁ op) (hs : s₁.perform op = some s₂) : SchedRun s D s₂
  | dispatch {D : List (Option ThreadPtr)} {s₁ s₂ : Sched} {op : SchedOp} (h : SchedRun s D s₁)
    (hop : Callable s₁ op) (hdispatch : Dispatches s₁ op) (hready : s₁.run.head ≠ none)
    (hs : s₁.perform op = some s₂) : SchedRun s (D ++ [s₂.current]) s₂

end Specification

lemma Inv.placement {M : Machine} (h : Inv M V) : Placement M.sched V where
  views := h.views
  apart := h.apart
  queued i p hp := (h.placed i p hp).2.1
  current p hp := (h.current p hp).2.2.imp And.left And.left

section Steps

lemma QueueId.state_ne (i : QueueId) : i.state ≠ .running ∧ i.state ≠ .zombie := by
  cases i <;> simp [QueueId.state]

lemma QueueId.state_sleeping (hi : i ≠ .run) : i.state = .sleeping := by
  cases i with
  | run => exact absurd rfl hi
  | mutex mtx => rfl
  | sem sem => rfl

lemma Placement.current_out (h : Placement s V) (hc : s.current = some p) (i : QueueId) : p ∉ V i := by
  intro hp
  have hs := h.queued i p hp
  rcases h.current p hc with hr | hz
  · exact i.state_ne.1 (hs.symm.trans hr)
  · exact i.state_ne.2 (hs.symm.trans hz)

lemma Views.head_ne (hv : Views s V) (hne : s.run.head ≠ none) : ∃ t rest, V .run = t :: rest := by
  rw [hv.run.head] at hne
  cases hr : V .run with
  | nil =>
    rw [hr] at hne
    exact absurd rfl hne
  | cons t rest => exact ⟨t, rest, rfl⟩

/-- `schedule`, also for a caller that has just gone to sleep. -/
theorem schedule_placement (hv : Views s V) (hd : Apart V) (hq : ∀ i, ∀ p ∈ V i, (s.threads p).state = i.state)
    (hc : ∀ p, s.current = some p → p ∉ V .run) (hr : V .run = t :: rest) : ∃ s', schedule s = some s' ∧
      s'.current = some t ∧ Placement s' (Function.update V .run (rest ++ requeued s)) := by
  have ht : t ∈ V .run := by simp [hr]
  have hnd : (t :: rest).Nodup := hr ▸ hv.run.nodup
  have hout : ∀ p ∈ requeued s, ∀ i, p ∉ V i := by
    intro p hp i hi
    exact i.state_ne.1 ((hq i p hi).symm.trans (mem_requeued.mp hp).2)
  obtain ⟨s', hs, hviews, hcur, -, -, -, hstate, -⟩ := schedule_spec hv hd hr (fun h => hc t h ht) hout
  have hmem : ∀ i p, p ∈ Function.update V .run (rest ++ requeued s) i →
      p ∈ V i ∧ p ≠ t ∧ p ∉ requeued s ∨ i = .run ∧ p ≠ t ∧ p ∈ requeued s := by
    intro i p hp
    by_cases hi : i = .run
    · subst hi
      rw [Function.update_self, List.mem_append] at hp
      rcases hp with hp | hp
      · have hpV : p ∈ V .run := by simp [hr, hp]
        exact Or.inl ⟨hpV, fun e => (List.nodup_cons.mp hnd).1 (e ▸ hp), fun h => hout p h _ hpV⟩
      · exact Or.inr ⟨rfl, fun e => hout p hp .run (e ▸ ht), hp⟩
    · rw [Function.update_of_ne hi] at hp
      exact Or.inl ⟨hp, fun e => hi (hd _ _ _ (e ▸ hp) ht), fun h => hout p h i hp⟩
  refine ⟨s', hs, hcur, hviews, ?_, ?_, ?_⟩
  · intro i j p hi hj
    rcases hmem i p hi with ⟨hi, -, hn⟩ | ⟨rfl, -, hi⟩
    · rcases hmem j p hj with ⟨hj, -⟩ | ⟨-, -, hj⟩
      · exact hd i j p hi hj
      · exact absurd hj hn
    · rcases hmem j p hj with ⟨-, -, hn⟩ | ⟨rfl, -⟩
      · exact absurd hi hn
      · rfl
  · intro i p hp
    rw [hstate]
    rcases hmem i p hp with ⟨hp, hpt, hn⟩ | ⟨rfl, hpt, hp⟩
    · rw [if_neg hpt, if_neg hn, hq i p hp]
    · rw [if_neg hpt, if_pos hp]
      rfl
  · intro p hp
    obtain rfl : t = p := Option.some.inj (hcur.symm.trans hp)
    exact Or.inl ((hstate t).trans (if_pos rfl))

lemma Placement.congr (h : Placement s V) (hq : ∀ i, s'.queue i = s.queue i) (ht : s'.threads = s.threads)
    (hc : s'.current = s.current) : Placement s' V where
  views := h.views.congr hq fun i p _ => by rw [ht]
  apart := h.apart
  queued i p hp := by
    rw [ht]
    exact h.queued i p hp
  current p hp := by
    rw [ht]
    exact h.current p (hc ▸ hp)

lemma Placement.schedule (h : Placement s V) (hr : V .run = t :: rest) : ∃ s', schedule s = some s' ∧
    s'.current = some t ∧ Placement s' (Function.update V .run (rest ++ requeued s)) :=
  schedule_placement h.views h.apart h.queued (fun _ hc => h.current_out hc .run) hr

lemma Moves.queued {V' : View} {k : QueueId} (hm : Moves V V' p k)
    (hq : ∀ i, ∀ r ∈ V i, (s.threads r).state = i.state)
    (hs : ∀ r, (s'.threads r).state = if r = p then k.state else (s.threads r).state) :
    ∀ i, ∀ r ∈ V' i, (s'.threads r).state = i.state := by
  intro i r hr
  rw [hs r]
  rcases hm i r hr with ⟨hi, hn⟩ | ⟨rfl, rfl⟩
  · rw [if_neg hn, hq i r hi]
  · rw [if_pos rfl]

lemma Placement.wake (h : Placement s V) (hi : i ≠ .run) (hV : V i = t :: rest) :
    ∃ th q q', wakeHead s (s.queue i) = some (some ({ s with threads := th, run := q }, q')) ∧
      Placement (setQueue { s with threads := th, run := q } i q')
        (Function.update (Function.update V i rest) .run (V .run ++ [t])) := by
  obtain ⟨th, q, q', hwake, hstate, -, hviews⟩ := wakeHead_spec h.views h.apart hi hV
  have hmoves := moves_wake h.apart (h.views i).nodup hi hV
  refine ⟨th, q, q', hwake, hviews, hmoves.apart h.apart, ?_, ?_⟩
  · apply hmoves.queued h.queued
    intro r
    rw [threads_setQueue]
    exact hstate r
  · intro r hr
    rw [current_setQueue] at hr
    have hrt : r ≠ t := fun e => h.current_out hr i (by simp [hV, e])
    have hsr : (th r).state = (s.threads r).state := (hstate r).trans (if_neg hrt)
    rw [threads_setQueue, hsr]
    exact h.current r hr

/-- A current thread that goes to sleep and calls `schedule`. -/
lemma Placement.sleep (h : Placement s V) (hi : i ≠ .run) (hc : s.current = some p) (hr : V .run = t :: rest) :
    ∃ th q s', sleepOn s (s.queue i) = some ({ s with threads := th }, q) ∧
      Scheduler.schedule (setQueue { s with threads := th } i q) = some s' ∧ s'.current = some t ∧
      ∃ V', Placement s' V' ∧ V' .run = rest := by
  obtain ⟨th, q, hsleep, hstate, -, hviews⟩ := sleepOn_spec h.views h.apart hc (h.current_out hc)
  have hmoves := moves_push (h.current_out hc) i
  have hsleeping := QueueId.state_sleeping hi
  obtain ⟨s₁, hs₁⟩ : ∃ s₁, s₁ = setQueue { s with threads := th } i q := ⟨_, rfl⟩
  have hcurrent : s₁.current = some p := by rw [hs₁, current_setQueue, hc]
  have hthreads : ∀ r, (s₁.threads r).state = if r = p then i.state else (s.threads r).state := by
    intro r
    rw [hs₁, threads_setQueue, hsleeping]
    exact hstate r
  have hrun : Function.update V i (V i ++ [p]) .run = V .run := Function.update_of_ne hi.symm _ _
  obtain ⟨s', hs, hcur, hplaced⟩ := schedule_placement (hs₁ ▸ hviews) (hmoves.apart h.apart)
    (hmoves.queued h.queued hthreads)
    (by
      intro r hcr
      obtain rfl : p = r := Option.some.inj (hcurrent.symm.trans hcr)
      rw [hrun]
      exact h.current_out hc .run)
    (hrun.trans hr)
  have hnone : requeued s₁ = [] := by
    rw [List.eq_nil_iff_forall_not_mem]
    intro r hmem
    obtain ⟨hcr, hsr⟩ := mem_requeued.mp hmem
    obtain rfl : p = r := Option.some.inj (hcurrent.symm.trans hcr)
    rw [hthreads, if_pos rfl] at hsr
    exact i.state_ne.1 hsr
  refine ⟨th, q, s', hsleep, hs₁ ▸ hs, hcur, _, hplaced, ?_⟩
  rw [Function.update_self, hnone, List.append_nil]

/-- What a call does to the run queue. -/
def Step (s : Sched) (V : View) (op : SchedOp) (s' : Sched) : Prop :=
  ∃ V', Placement s' V' ∧ ((¬Dispatches s op ∧ ∃ l, V' .run = V .run ++ l) ∨
    (Dispatches s op ∧ ∃ t rest l, V .run = t :: rest ∧ V' .run = rest ++ l ∧ s'.current = some t))

lemma Placement.step_schedule (h : Placement s V) (hready : s.run.head ≠ none) :
    ∃ s', s.perform .schedule = some s' ∧ Step s V .schedule s' := by
  obtain ⟨t, rest, hr⟩ := h.views.head_ne hready
  obtain ⟨s', hs, hcur, hplaced⟩ := h.schedule hr
  exact ⟨s', hs, _, hplaced, Or.inr ⟨trivial, t, rest, _, hr, Function.update_self .., hcur⟩⟩

lemma Placement.step_create (h : Placement s V) {t : Option ThreadPtr} {stack : Option ℕ} {size : UInt32}
    (hop : Callable s (.create t stack size)) :
    ∃ s', s.perform (.create t stack size) = some s' ∧ Step s V (.create t stack size) s' := by
  have hsame : Step s V (.create t stack size) s := ⟨V, h, Or.inl ⟨id, [], (List.append_nil _).symm⟩⟩
  cases t with
  | none => exact ⟨s, rfl, hsame⟩
  | some t =>
    cases stack with
    | none => exact ⟨s, rfl, hsame⟩
    | some stack =>
      obtain ⟨hct, hout⟩ := hop t rfl
      have htV := hout V h.views
      obtain ⟨th, q, hcreate, hstate, -, hviews⟩ := @threadCreate_spec s V t stack size h.views htV h.apart
      have hmoves := moves_push htV .run
      refine ⟨{ s with threads := th, run := q, nextTid := s.nextTid + 1 }, ?_, _,
        ⟨hviews, hmoves.apart h.apart, hmoves.queued h.queued hstate, fun p hc => ?_⟩,
        Or.inl ⟨id, [t], Function.update_self ..⟩⟩
      · rw [Sched.perform, hcreate, Option.map_some]
      · have hpt : p ≠ t := fun e => hct (e ▸ hc)
        have hsp : (th p).state = (s.threads p).state := (hstate p).trans (if_neg hpt)
        rw [hsp]
        exact h.current p hc

/-- A wait queue without sleepers, or the first of them made ready. -/
lemma Placement.step_wake (h : Placement s V) {op : SchedOp} (hi : i ≠ .run) (hop : ¬Dispatches s op)
    (empty : Sched) (served : Sched × Queue → Sched)
    (hperform : s.perform op = (wakeHead s (s.queue i)).map fun r => r.elim empty served)
    (hempty : Placement empty V) (hserved : ∀ th q q',
      served ({ s with threads := th, run := q }, q') = setQueue { s with threads := th, run := q } i q') :
    ∃ s', s.perform op = some s' ∧ Step s V op s' := by
  cases hV : V i with
  | nil =>
    refine ⟨empty, ?_, V, hempty, Or.inl ⟨hop, [], (List.append_nil _).symm⟩⟩
    rw [hperform, wakeHead_empty h.views hV]
    rfl
  | cons t rest =>
    obtain ⟨th, q, q', hwake, hplaced⟩ := h.wake hi hV
    refine ⟨_, ?_, _, hplaced, Or.inl ⟨hop, [t], Function.update_self ..⟩⟩
    rw [hperform, hwake, Option.map_some, Option.elim_some, hserved]

lemma Placement.step_block (h : Placement s V) {op : SchedOp} (hi : i ≠ .run) (hop : Dispatches s op)
    (hcurrent : s.current ≠ none) (hready : s.run.head ≠ none) (after : Sched × Queue → Sched)
    (hperform : s.perform op = (sleepOn s (s.queue i)).bind fun r => Scheduler.schedule (after r))
    (hafter : ∀ th q, after ({ s with threads := th }, q) = setQueue { s with threads := th } i q) :
    ∃ s', s.perform op = some s' ∧ Step s V op s' := by
  obtain ⟨p, hc⟩ := Option.ne_none_iff_exists'.mp hcurrent
  obtain ⟨t, rest, hr⟩ := h.views.head_ne hready
  obtain ⟨th, q, s', hsleep, hs, hcur, V', hplaced, hrun⟩ := h.sleep hi hc hr
  refine ⟨s', ?_, V', hplaced, Or.inr ⟨hop, t, rest, [], hr, by rw [hrun, List.append_nil], hcur⟩⟩
  rw [hperform, hsleep, Option.bind_some, hafter, hs]

lemma Placement.setMutex (h : Placement s V) {mtx : ℕ} {v : Mutex} (hv : v.wait = (s.mutexes mtx).wait) :
    Placement (Scheduler.setMutex s mtx v) V := by
  refine h.congr (fun i => ?_) rfl rfl
  cases i with
  | mutex m => by_cases hm : m = mtx <;> simp [Sched.queue, Scheduler.setMutex, hm, hv]
  | _ => rfl

lemma Placement.setSemaphore (h : Placement s V) {sem : ℕ} {v : Semaphore} (hv : v.wait = (s.semaphores sem).wait) :
    Placement (Scheduler.setSemaphore s sem v) V := by
  refine h.congr (fun i => ?_) rfl rfl
  cases i with
  | sem k => by_cases hk : k = sem <;> simp [Sched.queue, Scheduler.setSemaphore, hk, hv]
  | _ => rfl

lemma Placement.step_unlock (h : Placement s V) (mtx : ℕ) :
    ∃ s', s.perform (.unlock mtx) = some s' ∧ Step s V (.unlock mtx) s' := by
  refine h.step_wake (i := .mutex mtx) (by simp) id
    (Scheduler.setMutex s mtx { s.mutexes mtx with locked := false })
    (fun r => Scheduler.setMutex r.1 mtx { s.mutexes mtx with wait := r.2 }) ?_ (h.setMutex rfl) fun th q q' => rfl
  rw [Sched.perform, mutexUnlock]
  congr 1
  funext r
  cases r <;> rfl

lemma Placement.step_post (h : Placement s V) (sem : ℕ) :
    ∃ s', s.perform (.post sem) = some s' ∧ Step s V (.post sem) s' := by
  refine h.step_wake (i := .sem sem) (by simp) id
    (Scheduler.setSemaphore s sem { s.semaphores sem with count := (s.semaphores sem).count + 1 })
    (fun r => Scheduler.setSemaphore r.1 sem { s.semaphores sem with wait := r.2 }) ?_ (h.setSemaphore rfl)
    fun th q q' => rfl
  rw [Sched.perform, semPost]
  congr 1
  funext r
  cases r <;> rfl

lemma Placement.step_lock (h : Placement s V) {mtx : ℕ} (hop : Callable s (.lock mtx))
    (hready : Dispatches s (.lock mtx) → s.run.head ≠ none) :
    ∃ s', s.perform (.lock mtx) = some s' ∧ Step s V (.lock mtx) s' := by
  by_cases hl : (s.mutexes mtx).locked = true
  · refine h.step_block (i := .mutex mtx) (by simp) hl (hop hl) (hready hl)
      (fun r => Scheduler.setMutex r.1 mtx { s.mutexes mtx with wait := r.2 }) ?_ fun th q => ?_
    · rw [Sched.perform, mutexLock, if_neg (by simp [hl]), Option.bind_map]
      rfl
    · simp [setQueue]
  · have hfree : (s.mutexes mtx).locked = false := by simpa using hl
    refine ⟨Scheduler.setMutex s mtx { s.mutexes mtx with locked := true }, ?_, V, h.setMutex rfl,
      Or.inl ⟨hl, [], (List.append_nil _).symm⟩⟩
    rw [Sched.perform, mutexLock, if_pos hfree]
    rfl

lemma Placement.step_wait (h : Placement s V) {sem : ℕ} (hop : Callable s (.wait sem))
    (hready : Dispatches s (.wait sem) → s.run.head ≠ none) :
    ∃ s', s.perform (.wait sem) = some s' ∧ Step s V (.wait sem) s' := by
  by_cases hl : 0 < (s.semaphores sem).count
  · refine ⟨Scheduler.setSemaphore s sem { s.semaphores sem with count := (s.semaphores sem).count - 1 }, ?_, V,
      h.setSemaphore rfl, Or.inl ⟨not_not.mpr hl, [], (List.append_nil _).symm⟩⟩
    rw [Sched.perform, semWait, if_pos hl]
    rfl
  · refine h.step_block (i := .sem sem) (by simp) hl (hop hl) (hready hl)
      (fun r => Scheduler.setSemaphore r.1 sem { s.semaphores sem with wait := r.2 }) ?_ fun th q => ?_
    · rw [Sched.perform, semWait, if_neg hl, Option.bind_map]
      rfl
    · simp [setQueue]

lemma Placement.step_exitMark (h : Placement s V) :
    ∃ s', s.perform .exitMark = some s' ∧ Step s V .exitMark s' := by
  cases hc : s.current with
  | none =>
    refine ⟨s, ?_, V, h, Or.inl ⟨id, [], (List.append_nil _).symm⟩⟩
    simp only [Sched.perform, hc]
  | some p =>
    refine ⟨exitMark s p, ?_, V, ⟨?_, h.apart, ?_, ?_⟩, Or.inl ⟨id, [], (List.append_nil _).symm⟩⟩
    · simp only [Sched.perform, hc]
    · exact h.views.congr (fun i => by cases i <;> rfl) fun i r _ => by simp [exitMark]
    · intro i r hr
      have hrp : r ≠ p := fun e => h.current_out hc i (e ▸ hr)
      rw [exitMark, state_setState, if_neg hrp, h.queued i r hr]
    · intro r hr
      obtain rfl : p = r := Option.some.inj (hc.symm.trans hr)
      rw [exitMark, state_setState, if_pos rfl]
      exact Or.inr rfl

lemma Placement.step_exitClear (h : Placement s V) (hop : s.current ≠ none) :
    ∃ s', s.perform .exitClear = some s' ∧ Step s V .exitClear s' := by
  obtain ⟨p, hc⟩ := Option.ne_none_iff_exists'.mp hop
  have hother : ∀ i, ∀ r ∈ V i,
      Function.update s.threads p { s.threads p with stack := none } r = s.threads r := by
    intro i r hr
    have hrp : r ≠ p := fun e => h.current_out hc i (e ▸ hr)
    exact Function.update_of_ne hrp _ _
  refine ⟨_, by rw [Sched.perform, exitClear, hc, Option.map_some], V, ⟨?_, h.apart, ?_, ?_⟩,
    Or.inl ⟨id, [], (List.append_nil _).symm⟩⟩
  · exact h.views.congr (fun i => by cases i <;> rfl) fun i r hr => by simp only [nextOf, hother i r hr]
  · intro i r hr
    exact (congrArg Thread.state (hother i r hr)).trans (h.queued i r hr)
  · intro r hr
    cases hr

/-- Every call goes through, serves the run queue at its front just if it dispatches, and lets it grow at its
back only. -/
theorem Placement.step (h : Placement s V) {op : SchedOp} (hop : Callable s op)
    (hready : Dispatches s op → s.run.head ≠ none) : ∃ s', s.perform op = some s' ∧ Step s V op s' := by
  cases op with
  | schedule => exact h.step_schedule (hready trivial)
  | create t stack size => exact h.step_create hop
  | unlock mtx => exact h.step_unlock mtx
  | post sem => exact h.step_post sem
  | lock mtx => exact h.step_lock hop hready
  | wait sem => exact h.step_wait hop hready
  | exitMark => exact h.step_exitMark
  | exitClear => exact h.step_exitClear hop

end Steps

section Results

variable {D : List (Option ThreadPtr)}

/-- The run queue is a line served at the front. -/
theorem SchedRun.fifo (hrun : SchedRun s D s') (h : Placement s V) :
    ∃ V' d, Placement s' V' ∧ D = d.map some ∧ Fifo (V .run) d (V' .run) := by
  induction hrun with
  | refl => exact ⟨V, [], h, rfl, .refl⟩
  | @quiet D s₁ s₂ op _ hop hquiet hs ih =>
    obtain ⟨V₁, d, h₁, rfl, hfifo⟩ := ih
    obtain ⟨s₂', hs', V₂, h₂, hcases⟩ := h₁.step hop fun hd => absurd hd hquiet
    obtain rfl : s₂ = s₂' := Option.some.inj (hs.symm.trans hs')
    rcases hcases with ⟨-, l, hl⟩ | ⟨hd, -⟩
    · exact ⟨V₂, d, h₂, rfl, hl ▸ hfifo.arrive l⟩
    · exact absurd hd hquiet
  | @dispatch D s₁ s₂ op _ hop hdispatch hready hs ih =>
    obtain ⟨V₁, d, h₁, rfl, hfifo⟩ := ih
    obtain ⟨s₂', hs', V₂, h₂, hcases⟩ := h₁.step hop fun _ => hready
    obtain rfl : s₂ = s₂' := Option.some.inj (hs.symm.trans hs')
    rcases hcases with ⟨hq, -⟩ | ⟨-, t, rest, l, hr, hl, hcur⟩
    · exact absurd hdispatch hq
    · rw [hr] at hfifo
      refine ⟨V₂, d ++ [t], h₂, ?_, hl ▸ hfifo.serve l⟩
      rw [hcur, List.map_append, List.map_singleton]

/-- The thread at an index is not dispatched before its turn, and dispatched at its turn. -/
lemma SchedRun.turn (hrun : SchedRun s D s') (h : Placement s V) {i : ℕ} (hp : (V .run)[i]? = some p) :
    (D.length ≤ i → s'.current ≠ some p) ∧ (i < D.length → D[i]? = some (some p)) := by
  obtain ⟨V', d, h', rfl, hfifo⟩ := hrun.fifo h
  rw [List.length_map]
  constructor
  · intro hi hc
    exact h'.current_out hc .run (List.mem_of_getElem? (hfifo.waiting hp hi))
  · intro hi
    rw [List.getElem?_map, hfifo.served hp hi, Option.map_some]

/-- From any state that satisfies the placement invariant, over any calls whose calls of `schedule` find the run
queue non-empty: the thread at index `i` of the run queue becomes current at the call of `schedule` number `i + 1`
and not before. A running thread that calls `schedule` is current again only after all threads that were in the
run queue, once each and in their order. None of these calls uses a null pointer. -/
theorem round_robin (h : Placement s V) :
    (∀ D s', SchedRun s D s' → ∀ (i : ℕ) p, (V .run)[i]? = some p →
      (D.length ≤ i → s'.current ≠ some p) ∧ (i < D.length → D[i]? = some (some p))) ∧
    (∀ p s₁ D s', s.current = some p → (s.threads p).state = .running → s.run.head ≠ none →
      schedule s = some s₁ → SchedRun s₁ D s' → s'.current = some p →
        (V .run ++ [p]).map some <+: s₁.current :: D) ∧
    ∀ D s' op, SchedRun s D s' → Callable s' op → (Dispatches s' op → s'.run.head ≠ none) →
      ∃ s'', s'.perform op = some s'' := by
  refine ⟨fun D s' hrun i p hp => hrun.turn h hp, ?_, ?_⟩
  · intro p s₁ D s' hc hs hready hsched hrun hagain
    obtain ⟨t, rest, hr⟩ := h.views.head_ne hready
    obtain ⟨s₁', hs₁, hcur, h₁⟩ := h.schedule hr
    obtain rfl : s₁ = s₁' := Option.some.inj (hsched.symm.trans hs₁)
    have hre : requeued s = [p] := by simp [requeued, hc, hs]
    obtain ⟨V', d, h', rfl, hfifo⟩ := hrun.fifo h₁
    rw [Function.update_self, hre] at hfifo
    have hp : (rest ++ [p])[rest.length]? = some p := by simp
    have hlen : (rest ++ [p]).length ≤ d.length := by
      by_contra hshort
      have hle : d.length ≤ rest.length := by
        rw [Nat.not_le, List.length_append, List.length_singleton] at hshort
        omega
      exact h'.current_out hagain .run (List.mem_of_getElem? (hfifo.waiting hp hle))
    have hprefix := (hfifo.isPrefix_served hlen).map some
    rw [hr, hcur, List.cons_append, List.map_cons, List.cons_prefix_cons]
    exact ⟨rfl, hprefix⟩
  · intro D s' op hrun hop hready
    obtain ⟨V', -, h', -, -⟩ := hrun.fifo h
    obtain ⟨s'', hs, -⟩ := h'.step hop hready
    exact ⟨s'', hs⟩

/-- In every reached state of the machine the ready threads get their turns. -/
theorem Reached.turns {count : ℕ → Int32} {M : Machine} (h : Reached s count M) :
    ∃ V, Placement M.sched V ∧ ∀ D s', SchedRun M.sched D s' → ∀ (i : ℕ) p, (V .run)[i]? = some p →
      (D.length ≤ i → s'.current ≠ some p) ∧ (i < D.length → D[i]? = some (some p)) := by
  obtain ⟨V, hV⟩ := h.good
  exact ⟨V, hV.inv.placement, fun D s' hrun i p hp => hrun.turn hV.inv.placement hp⟩

/-- Thread 0 runs, and threads 1 and 2 are ready. -/
def twoReady : Sched where
  threads t := ⟨.thread t, 0, none, 0, if t = 0 then .running else .ready, if t = 1 then some 2 else none⟩
  run := ⟨some 1, some 2⟩
  current := some 0
  nextTid := 3
  mutexes _ := mutexInit
  semaphores _ := semInit 0
  running := .thread 0

def twoReadyView : View
  | .run => [1, 2]
  | _ => []

lemma twoReady_placement : Placement twoReady twoReadyView where
  views i := by
    cases i with
    | run => exact ⟨⟨rfl, rfl, rfl⟩, rfl⟩
    | mutex mtx => exact isQueue_nil
    | sem sem => exact isQueue_nil
  apart := by
    intro i j p hi hj
    cases i <;> cases j <;> simp [twoReadyView] at hi hj ⊢
  queued := by
    intro i p hp
    cases i with
    | run =>
      have hne : p ≠ 0 := by
        rintro rfl
        simp [twoReadyView] at hp
      exact if_neg hne
    | mutex mtx => cases hp
    | sem sem => cases hp
  current := by
    intro p hp
    obtain rfl : 0 = p := Option.some.inj hp
    exact Or.inl rfl

/-- The first call of `schedule` dispatches thread 1. -/
theorem round_robin_two : ∃ s, twoReady.perform .schedule = some s ∧ s.current = some 1 := by
  have hready : Dispatches twoReady .schedule → twoReady.run.head ≠ none := fun _ => by simp [twoReady]
  obtain ⟨s, hs⟩ := (round_robin twoReady_placement).2.2 [] twoReady .schedule .refl trivial hready
  have hrun := @SchedRun.dispatch twoReady [] twoReady s .schedule .refl trivial trivial (hready trivial) hs
  have hturn := ((round_robin twoReady_placement).1 _ s hrun 0 1 rfl).2 Nat.zero_lt_one
  exact ⟨s, hs, Option.some.inj hturn⟩

end Results

end SBoy28.Scheduler
