import SBoy28.Scheduler.Queues
import Mathlib.Algebra.Order.Ring.Int

/-!
# The scheduler invariant

`Inv M V` says where every thread is: in one of the queues of the view `V`, or current. A
step first brings the caller into the state in which it hands over the processor
(`Handover`), and `schedule` then re-establishes the invariant for the next thread.
-/

namespace SBoy28.Scheduler
open Lib

def QueueId.state : QueueId → ThreadState
  | .run => .ready
  | _ => .sleeping

/-- Where a queued thread goes on when it is dispatched. -/
def PcOk : QueueId → Pc → Prop
  | .run, pc => pc = .user ∨ pc = .yielding ∨ (∃ mtx, pc = .locking mtx) ∨ ∃ sem, pc = .waiting sem
  | .mutex mtx, pc => pc = .locking mtx
  | .sem sem, pc => pc = .waiting sem

variable {M M' : Machine} {V : View}

structure Inv (M : Machine) (V : View) : Prop where
  views : Views M.sched V
  placed : ∀ i, ∀ p ∈ V i, p ∈ M.created ∧ (M.sched.threads p).state = i.state ∧
    (M.sched.threads p).esp = .thread p ∧ PcOk i (M.pc (.thread p))
  current : ∀ p, M.sched.current = some p → p ∈ M.created ∧ M.sched.running = .thread p ∧
    (((M.sched.threads p).state = .running ∧
        (M.pc (.thread p) = .user ∨ M.pc (.thread p) = .yielding)) ∨
      ((M.sched.threads p).state = .zombie ∧ M.pc (.thread p) = .exiting))
  idle : M.sched.current = none →
    (M.sched.running = .boot ∧ (M.pc .boot = .user ∨ M.pc .boot = .yielding)) ∨
    ∃ p ∈ M.created, M.sched.running = .thread p ∧ (M.sched.threads p).state = .zombie ∧
      (M.pc (.thread p) = .cleared ∨ M.pc (.thread p) = .halt)
  cover : ∀ p ∈ M.created, (M.sched.threads p).state = .zombie ∨ M.sched.current = some p ∨
    ∃ i, p ∈ V i
  fresh : ∀ p, p ∉ M.created → M.pc (.thread p) = .user

/-- The caller is about to call `schedule` and to go on at `k`. -/
structure Handover (M : Machine) (V : View) (k : Pc) : Prop where
  views : Views M.sched V
  apart : Apart V
  placed : ∀ i, ∀ p ∈ V i, p ∈ M.created ∧ (M.sched.threads p).state = i.state ∧
    (M.sched.current ≠ some p → M.sched.running ≠ .thread p ∧
      (M.sched.threads p).esp = .thread p ∧ PcOk i (M.pc (.thread p)))
  current : ∀ p, M.sched.current = some p → p ∈ M.created ∧ M.sched.running = .thread p ∧
    (((M.sched.threads p).state = .running ∧ (∀ i, p ∉ V i) ∧ (k = .user ∨ k = .yielding)) ∨
      (∃ i, i ≠ .run ∧ p ∈ V i ∧ PcOk i k) ∨
      ((M.sched.threads p).state = .zombie ∧ ∀ i, p ∉ V i))
  cover : ∀ p ∈ M.created, (M.sched.threads p).state = .zombie ∨ M.sched.current = some p ∨
    ∃ i, p ∈ V i
  fresh : ∀ p, p ∉ M.created → M.pc (.thread p) = .user ∧ M.sched.running ≠ .thread p

lemma Inv.apart (h : Inv M V) : Apart V := by
  intro i j p hi hj
  obtain ⟨-, hsi, -, hpi⟩ := h.placed i p hi
  obtain ⟨-, hsj, -, hpj⟩ := h.placed j p hj
  have hs : i.state = j.state := hsi.symm.trans hsj
  cases i <;> cases j <;> simp_all [QueueId.state, PcOk]

lemma Inv.current_out (h : Inv M V) {p : ThreadPtr} (hc : M.sched.current = some p)
    (i : QueueId) : p ∉ V i := by
  intro hp
  obtain ⟨-, hs, -, -⟩ := h.placed i p hp
  obtain ⟨-, -, ⟨hr, -⟩ | ⟨hz, -⟩⟩ := h.current p hc
  · rw [hr] at hs
    cases i <;> simp [QueueId.state] at hs
  · rw [hz] at hs
    cases i <;> simp [QueueId.state] at hs

lemma Inv.zombie_out (h : Inv M V) {p : ThreadPtr} (hz : (M.sched.threads p).state = .zombie)
    (i : QueueId) : p ∉ V i := by
  intro hp
  obtain ⟨-, hs, -, -⟩ := h.placed i p hp
  rw [hz] at hs
  cases i <;> simp [QueueId.state] at hs

/-- The executing context is the current thread, or no thread of a queue. -/
lemma Inv.running_out (h : Inv M V) {p : ThreadPtr} {i : QueueId} (hp : p ∈ V i) :
    M.sched.running ≠ .thread p := by
  intro hr
  cases hc : M.sched.current with
  | some c =>
    obtain ⟨-, hrc, -⟩ := h.current c hc
    rw [hr, Context.thread.injEq] at hrc
    exact h.current_out (hrc ▸ hc) i hp
  | none =>
    obtain ⟨hb, -⟩ | ⟨z, -, hrz, hz, -⟩ := h.idle hc
    · rw [hr] at hb
      exact absurd hb (by simp)
    · rw [hr, Context.thread.injEq] at hrz
      exact h.zombie_out (hrz ▸ hz) i hp

lemma Inv.running_created (h : Inv M V) {p : ThreadPtr} (hr : M.sched.running = .thread p) :
    p ∈ M.created := by
  cases hc : M.sched.current with
  | some c =>
    obtain ⟨hm, hrc, -⟩ := h.current c hc
    rw [hr, Context.thread.injEq] at hrc
    exact hrc ▸ hm
  | none =>
    obtain ⟨hb, -⟩ | ⟨z, hm, hrz, -, -⟩ := h.idle hc
    · rw [hr] at hb
      exact absurd hb (by simp)
    · rw [hr, Context.thread.injEq] at hrz
      exact hrz ▸ hm

section Resume

/-- How a context goes on once it executes again. -/
def resumePc : Pc → Pc
  | .locking _ => .user
  | .waiting _ => .user
  | pc => pc

def resumeEvents (c : Context) : Pc → List Event
  | .locking mtx => [.locked c mtx]
  | .waiting sem => [.waited c sem]
  | _ => []

lemma resume_eq (M : Machine) :
    resume M = { M with
      pc := Function.update M.pc M.sched.running (resumePc (M.pc M.sched.running))
      history := resumeEvents M.sched.running (M.pc M.sched.running) ++ M.history } := by
  have hself : ∀ x, M.pc M.sched.running = x → Function.update M.pc M.sched.running x = M.pc := by
    intro x hx
    rw [← hx, Function.update_eq_self]
  cases h : M.pc M.sched.running with
  | locking mtx => simp [resume, h, resumePc, resumeEvents]
  | waiting sem => simp [resume, h, resumePc, resumeEvents]
  | _ => simp [resume, h, resumePc, resumeEvents, hself _ h]

end Resume

/-- The context holds the mutex, or `mutex_unlock` has handed it over and the context is
waiting to be dispatched. -/
def Owner (M : Machine) (V : View) (mtx : ℕ) (c : Context) : Prop :=
  holds M.history c mtx = true ∨ ∃ p ∈ V .run, c = .thread p ∧ M.pc c = .locking mtx

def isWaited (sem : ℕ) : Event → Bool
  | .waited _ sem' => sem' = sem
  | _ => false

def isPosted (sem : ℕ) : Event → Bool
  | .posted _ sem' => sem' = sem
  | _ => false

/-- Returned calls of `sem_wait`, and those that `sem_post` has served but that have not been
dispatched yet. -/
def served (M : Machine) (V : View) (sem : ℕ) : ℕ :=
  M.history.countP (isWaited sem) + (V .run).countP (fun p => M.pc (.thread p) = .waiting sem)

lemma holds_resumeEvents (h : List Event) (c c' : Context) (pc : Pc) (mtx : ℕ) :
    holds (resumeEvents c pc ++ h) c' mtx = true ↔
      (c = c' ∧ pc = .locking mtx) ∨ holds h c' mtx = true := by
  cases pc with
  | locking m =>
    by_cases hc : c = c' ∧ m = mtx
    · obtain ⟨rfl, rfl⟩ := hc
      simp [resumeEvents, holds]
    · have hn : ¬(c = c' ∧ Pc.locking m = .locking mtx) := by simpa using hc
      simp only [resumeEvents, List.cons_append, List.nil_append, holds, hc, ite_false, hn,
        false_or]
  | _ => simp [resumeEvents, holds]

lemma isWaited_resumeEvents (c : Context) (pc : Pc) (sem : ℕ) :
    (resumeEvents c pc).countP (isWaited sem) = if pc = .waiting sem then 1 else 0 := by
  cases pc with
  | waiting k => by_cases hk : k = sem <;> simp [resumeEvents, isWaited, hk]
  | _ => simp [resumeEvents, isWaited]

lemma isPosted_resumeEvents (c : Context) (pc : Pc) (sem : ℕ) :
    (resumeEvents c pc).countP (isPosted sem) = 0 := by
  cases pc <;> simp [resumeEvents, isPosted]

/-- A step that moves no mutex and no semaphore token. -/
structure SameTokens (M : Machine) (V : View) (M' : Machine) (V' : View) : Prop where
  owner : ∀ mtx c, Owner M' V' mtx c ↔ Owner M V mtx c
  served : ∀ sem, served M' V' sem = served M V sem
  posted : ∀ sem, M'.history.countP (isPosted sem) = M.history.countP (isPosted sem)
  locked : ∀ mtx, (M'.sched.mutexes mtx).locked = (M.sched.mutexes mtx).locked
  count : ∀ sem, (M'.sched.semaphores sem).count = (M.sched.semaphores sem).count

section Dispatch

variable {k : Pc} {t : ThreadPtr} {rest : List ThreadPtr}

lemma Handover.current_ne (h : Handover M V k) (ht : t ∈ V .run) : M.sched.current ≠ some t := by
  intro hc
  obtain ⟨-, -, ⟨-, hout, -⟩ | ⟨i, hi, hp, -⟩ | ⟨-, hout⟩⟩ := h.current t hc
  · exact hout _ ht
  · exact hi (h.apart _ _ _ hp ht)
  · exact hout _ ht

lemma Handover.requeued_out (h : Handover M V k) {p : ThreadPtr} (hp : p ∈ requeued M.sched) :
    (∀ i, p ∉ V i) ∧ (k = .user ∨ k = .yielding) := by
  obtain ⟨hc, hs⟩ := mem_requeued.mp hp
  obtain ⟨-, -, ⟨-, hout, hk⟩ | ⟨i, hi, hpi, -⟩ | ⟨hz, -⟩⟩ := h.current p hc
  · exact ⟨hout, hk⟩
  · have hsi := (h.placed i p hpi).2.1
    rw [hs] at hsi
    cases i <;> simp [QueueId.state] at hsi
  · rw [hs] at hz
    cases hz

/-- Where a created thread is when `schedule` dispatches `t`. -/
lemma Handover.cover_cases (h : Handover M V k) (hr : V .run = t :: rest) {p : ThreadPtr}
    (hp : p ∈ M.created) : p = t ∨ p ∈ requeued M.sched ∨ (∃ i, i ≠ .run ∧ p ∈ V i) ∨ p ∈ rest ∨
      (M.sched.threads p).state = .zombie := by
  rcases h.cover p hp with hz | hc | ⟨i, hpi⟩
  · simp [hz]
  · obtain ⟨-, -, ⟨hs, -, -⟩ | ⟨j, hj, hpj, -⟩ | ⟨hz, -⟩⟩ := h.current p hc
    · simp [mem_requeued, hc, hs]
    · exact Or.inr (Or.inr (Or.inl ⟨j, hj, hpj⟩))
    · simp [hz]
  · by_cases hi : i = .run
    · rw [hi, hr, List.mem_cons] at hpi
      rcases hpi with rfl | hpi <;> simp [*]
    · exact Or.inr (Or.inr (Or.inl ⟨i, hi, hpi⟩))

/-- The machine after `schedule` has dispatched `t`. -/
def dispatched (M : Machine) (k : Pc) (t : ThreadPtr) (s : Sched) : Machine where
  sched := s
  pc := Function.update (Function.update M.pc M.sched.running k) (.thread t)
    (resumePc (M.pc (.thread t)))
  created := M.created
  history := resumeEvents (.thread t) (M.pc (.thread t)) ++ M.history

variable {s : Sched}

lemma dispatched_pc_running {p : ThreadPtr} (hp : p ≠ t) (hr : M.sched.running = .thread p) :
    (dispatched M k t s).pc (.thread p) = k := by
  have hpt : Context.thread p ≠ .thread t := by simpa using hp
  simp [dispatched, hpt, hr]

lemma dispatched_pc_other {p : ThreadPtr} (hp : p ≠ t) (hr : M.sched.running ≠ .thread p) :
    (dispatched M k t s).pc (.thread p) = M.pc (.thread p) := by
  have hpt : Context.thread p ≠ .thread t := by simpa using hp
  simp [dispatched, hpt, hr.symm]

lemma Handover.queued_pc (h : Handover M V k) (hr : V .run = t :: rest) {p : ThreadPtr}
    (hp : p ∈ rest) : (dispatched M k t s).pc (.thread p) = M.pc (.thread p) := by
  have hpV : p ∈ V .run := by simp [hr, hp]
  have hnd : (t :: rest).Nodup := hr ▸ (h.views .run).nodup
  have hpt : p ≠ t := fun e => (List.nodup_cons.mp hnd).1 (e ▸ hp)
  apply dispatched_pc_other hpt
  exact ((h.placed .run p hpV).2.2 (h.current_ne hpV)).1

lemma Handover.requeued_pc (h : Handover M V k) (hr : V .run = t :: rest) {p : ThreadPtr}
    (hp : p ∈ requeued M.sched) :
    (dispatched M k t s).pc (.thread p) = .user ∨ (dispatched M k t s).pc (.thread p) = .yielding := by
  obtain ⟨hout, hk⟩ := h.requeued_out hp
  have hpt : p ≠ t := fun e => hout .run (by simp [e, hr])
  rwa [dispatched_pc_running hpt (h.current p (mem_requeued.mp hp).1).2.1]

section Placed

variable (h : Handover M V k) (hr : V .run = t :: rest)
  (hstate : ∀ p, (s.threads p).state =
    if p = t then .running else if p ∈ requeued M.sched then .ready else (M.sched.threads p).state)
  (hesp : ∀ p, (s.threads p).esp = if M.sched.current = some p then M.sched.running else (M.sched.threads p).esp)
include h hstate

lemma Handover.state_queued {i : QueueId} {p : ThreadPtr} (hp : p ∈ V i) (hpt : p ≠ t) :
    (s.threads p).state = i.state := by
  rw [hstate, if_neg hpt, if_neg (fun hq => (h.requeued_out hq).1 i hp)]
  exact (h.placed i p hp).2.1

include hr

lemma Handover.state_zombie {p : ThreadPtr} (hz : (M.sched.threads p).state = .zombie) :
    (s.threads p).state = .zombie := by
  have hpt : p ≠ t := by
    rintro rfl
    have hready := (h.placed .run p (by simp [hr])).2.1
    rw [hz] at hready
    cases hready
  have hpq : p ∉ requeued M.sched := by
    intro hq
    rw [(mem_requeued.mp hq).2] at hz
    cases hz
  rw [hstate, if_neg hpt, if_neg hpq, hz]

include hesp

/-- A thread behind `t` in the run queue. -/
lemma Handover.placed_rest {p : ThreadPtr} (hp : p ∈ rest) : p ∈ M.created ∧ (s.threads p).state = .ready ∧
    (s.threads p).esp = .thread p ∧ PcOk .run ((dispatched M k t s).pc (.thread p)) := by
  have hpV : p ∈ V .run := by simp [hr, hp]
  have hnd : (t :: rest).Nodup := hr ▸ (h.views .run).nodup
  have hpt : p ≠ t := fun e => (List.nodup_cons.mp hnd).1 (e ▸ hp)
  have hpc := h.current_ne hpV
  obtain ⟨hpm, -, hpp⟩ := h.placed .run p hpV
  refine ⟨hpm, h.state_queued hstate hpV hpt, ?_, ?_⟩
  · exact (hesp p).trans ((if_neg hpc).trans (hpp hpc).2.1)
  · rw [h.queued_pc hr hp]
    exact (hpp hpc).2.2

/-- The caller, if it goes to the end of the run queue. -/
lemma Handover.placed_requeued {p : ThreadPtr} (hp : p ∈ requeued M.sched) : p ∈ M.created ∧
    (s.threads p).state = .ready ∧ (s.threads p).esp = .thread p ∧
      PcOk .run ((dispatched M k t s).pc (.thread p)) := by
  obtain ⟨hout, -⟩ := h.requeued_out hp
  have hpt : p ≠ t := fun e => hout .run (by simp [hr, e])
  obtain ⟨hc, -⟩ := mem_requeued.mp hp
  obtain ⟨hpm, hrp, -⟩ := h.current p hc
  refine ⟨hpm, ?_, ?_, ?_⟩
  · exact (hstate p).trans (by rw [if_neg hpt, if_pos hp])
  · exact (hesp p).trans ((if_pos hc).trans hrp)
  · exact (h.requeued_pc hr hp).imp_right Or.inl

/-- A thread that waits, which may be the caller. -/
lemma Handover.placed_waiting {i : QueueId} (hi : i ≠ .run) {p : ThreadPtr} (hp : p ∈ V i) : p ∈ M.created ∧
    (s.threads p).state = i.state ∧ (s.threads p).esp = .thread p ∧
      PcOk i ((dispatched M k t s).pc (.thread p)) := by
  have hpt : p ≠ t := fun e => hi (h.apart _ _ _ hp (by simp [hr, e]))
  obtain ⟨hpm, -, hpp⟩ := h.placed i p hp
  refine ⟨hpm, h.state_queued hstate hp hpt, ?_, ?_⟩
  · by_cases hc : M.sched.current = some p
    · exact (hesp p).trans ((if_pos hc).trans (h.current p hc).2.1)
    · exact (hesp p).trans ((if_neg hc).trans (hpp hc).2.1)
  · by_cases hc : M.sched.current = some p
    · obtain ⟨-, hrp, ⟨-, hout, -⟩ | ⟨j, -, hpj, hk⟩ | ⟨-, hout⟩⟩ := h.current p hc
      · exact absurd hp (hout i)
      · rw [dispatched_pc_running hpt hrp, h.apart _ _ _ hp hpj]
        exact hk
      · exact absurd hp (hout i)
    · rw [dispatched_pc_other hpt (hpp hc).1]
      exact (hpp hc).2.2

end Placed

/-- `schedule` with a non-empty run queue keeps the invariant. -/
theorem Handover.dispatch (h : Handover M V k) (hr : V .run = t :: rest) :
    ∃ s, callSchedule M k = some (dispatched M k t s) ∧
      Inv (dispatched M k t s) (Function.update V .run (rest ++ requeued M.sched)) ∧
      s.mutexes = M.sched.mutexes ∧ s.semaphores = M.sched.semaphores ∧ s.current = some t ∧
      ∀ p, (M.sched.threads p).state = .zombie → (s.threads p).state = .zombie := by
  have htV : t ∈ V .run := by simp [hr]
  have hct := h.current_ne htV
  obtain ⟨htc, -, htp⟩ := h.placed .run t htV
  obtain ⟨hrt, htesp, htpc⟩ := htp hct
  obtain ⟨s, hs, hviews, hcur, hrun, hmut, hsem, hstate, hesp⟩ :=
    schedule_spec h.views h.apart hr hct (fun p hp => (h.requeued_out hp).1)
  rw [htesp] at hrun
  have hzombie := fun p hz => h.state_zombie hr hstate (p := p) hz
  refine ⟨s, ?_, ⟨hviews, ?_, ?_, ?_, ?_, ?_⟩, hmut, hsem, hcur, hzombie⟩
  · rw [callSchedule, hs, Option.map_some, resume_eq]
    simp [dispatched, hrun, hrt.symm]
  · intro i p hp
    by_cases hi : i = .run
    · subst hi
      rw [Function.update_self, List.mem_append] at hp
      cases hp with
      | inl hp => exact h.placed_rest hr hstate hesp hp
      | inr hp => exact h.placed_requeued hr hstate hesp hp
    · rw [Function.update_of_ne hi] at hp
      exact h.placed_waiting hr hstate hesp hi hp
  · intro p hp
    obtain rfl : t = p := by simpa [dispatched, hcur] using hp
    refine ⟨htc, hrun, Or.inl ⟨?_, ?_⟩⟩
    · exact (hstate t).trans (if_pos rfl)
    · simp only [dispatched, Function.update_self]
      rcases htpc with hpc | hpc | ⟨mtx, hpc⟩ | ⟨sem, hpc⟩ <;> simp [hpc, resumePc]
  · intro hc
    simp [dispatched, hcur] at hc
  · intro p hp
    rcases h.cover_cases hr hp with rfl | hq | ⟨i, hi, hpi⟩ | hq | hz
    · exact Or.inr (Or.inl hcur)
    · exact Or.inr (Or.inr ⟨.run, by simp [hq]⟩)
    · exact Or.inr (Or.inr ⟨i, by rwa [Function.update_of_ne hi]⟩)
    · exact Or.inr (Or.inr ⟨.run, by simp [hq]⟩)
    · exact Or.inl (hzombie p hz)
  · intro p hp
    have hpt : p ≠ t := fun e => hp (e ▸ htc)
    obtain ⟨hpc, hrp⟩ := h.fresh p hp
    rw [dispatched_pc_other hpt hrp, hpc]

/-- `schedule` with a non-empty run queue moves no token. -/
theorem Handover.dispatch_tokens (h : Handover M V k) (hr : V .run = t :: rest)
    (hm : s.mutexes = M.sched.mutexes) (hsem : s.semaphores = M.sched.semaphores) :
    SameTokens M V (dispatched M k t s)
      (Function.update V .run (rest ++ requeued M.sched)) where
  owner mtx c := by
    simp only [Owner, Function.update_self, List.mem_append, hr, List.mem_cons]
    rw [show (dispatched M k t s).history =
      resumeEvents (.thread t) (M.pc (.thread t)) ++ M.history from rfl, holds_resumeEvents]
    constructor
    · rintro ((⟨rfl, hpc⟩ | hh) | ⟨p, hp | hp, rfl, hpc⟩)
      · exact Or.inr ⟨t, Or.inl rfl, rfl, hpc⟩
      · exact Or.inl hh
      · exact Or.inr ⟨p, Or.inr hp, rfl, (h.queued_pc hr hp).symm.trans hpc⟩
      · rcases h.requeued_pc (s := s) hr hp with hq | hq <;> simp [hq] at hpc
    · rintro (hh | ⟨p, rfl | hp, rfl, hpc⟩)
      · exact Or.inl (Or.inr hh)
      · exact Or.inl (Or.inl ⟨rfl, hpc⟩)
      · exact Or.inr ⟨p, Or.inl hp, rfl, (h.queued_pc hr hp).trans hpc⟩
  served sem := by
    have hrest : rest.countP (fun p => (dispatched M k t s).pc (.thread p) = .waiting sem) =
        rest.countP (fun p => M.pc (.thread p) = .waiting sem) := by
      apply List.countP_congr
      intro p hp
      rw [h.queued_pc hr hp]
    have hreq : (requeued M.sched).countP
        (fun p => (dispatched M k t s).pc (.thread p) = .waiting sem) = 0 := by
      apply List.countP_eq_zero.mpr
      intro p hp
      rcases h.requeued_pc (s := s) hr hp with hq | hq <;> simp [hq]
    simp only [served, Function.update_self, List.countP_append, hrest, hreq, hr]
    rw [show (dispatched M k t s).history =
      resumeEvents (.thread t) (M.pc (.thread t)) ++ M.history from rfl, List.countP_append,
      isWaited_resumeEvents, List.countP_cons]
    simp only [decide_eq_true_eq]
    omega
  posted sem := by
    rw [show (dispatched M k t s).history =
      resumeEvents (.thread t) (M.pc (.thread t)) ++ M.history from rfl, List.countP_append,
      isPosted_resumeEvents, zero_add]
  locked mtx := by simp [dispatched, hm]
  count sem := by simp [dispatched, hsem]

end Dispatch

end SBoy28.Scheduler
