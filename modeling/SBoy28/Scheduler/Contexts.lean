import SBoy28.Scheduler.Guarantees

/-!
# Contexts that are switched away from

The context that entered `kmain` has no `thread_t`, so the first switch leaves no trace of it.
-/

namespace SBoy28.Scheduler
open Lib

variable {count : ℕ → Int32} {M M' : Machine} {V : View} {s : Sched} {op : Op}

section Specification

/-- The thread is in the run queue or in a wait queue. -/
def InQueue (s : Sched) (t : ThreadPtr) : Prop :=
  ∃ i h, (s.queue i).head = some h ∧
    Relation.ReflTransGen (fun a b => nextOf s.threads a = some b) h t

/-- The stack of the context is in a thread that can be dispatched again. -/
def Saved (s : Sched) (c : Context) : Prop := ∃ t, InQueue s t ∧ (s.threads t).esp = c

/-- The executing context has called `thread_exit`. -/
def Exiting (M : Machine) : Prop :=
  M.pc M.sched.running = .exiting ∨ M.pc M.sched.running = .cleared ∨ M.pc M.sched.running = .halt

/-- If the step switches away from a context that has not called `thread_exit`, then its stack is
saved. -/
def KeepsContext (M M' : Machine) : Prop :=
  M'.sched.running ≠ M.sched.running → ¬Exiting M → Saved M'.sched M.sched.running

/-- The step calls `schedule`. -/
def CallsSchedule (M : Machine) : Op → Prop
  | .yieldSwitch => True
  | .tick => True
  | .exitSwitch => True
  | op => Blocks M op

/-- The boot context calls `schedule` while a thread is ready. -/
def BootDispatches (M : Machine) (op : Op) : Prop :=
  M.sched.running = .boot ∧ CallsSchedule M op ∧ M.sched.run.head ≠ none

/-- A step of a run of these operations. -/
structure StepOf (s : Sched) (count : ℕ → Int32) (ops : List Op) (M : Machine) (op : Op) (M' : Machine) :
    Prop where
  reach : ∃ before, before ++ [op] <+: ops ∧ run (start s count) before = some M
  step : step M op = some M'

end Specification

section Boot

lemma inQueue_iff (hv : Views s V) (t : ThreadPtr) : InQueue s t ↔ ∃ i, t ∈ V i := by
  constructor
  · rintro ⟨i, h, hh, hreach⟩
    have hl := (hv i).1
    rw [hh] at hl
    exact ⟨i, hl.mem_iff.mpr hreach⟩
  · rintro ⟨i, ht⟩
    have hl := (hv i).1
    cases hh : (s.queue i).head with
    | none =>
      rw [hh] at hl
      rw [hl.eq_nil] at ht
      cases ht
    | some h =>
      rw [hh] at hl
      exact ⟨i, h, hh, hl.mem_iff.mp ht⟩

lemma Inv.saved_iff (h : Inv M V) (c : Context) : Saved M.sched c ↔ ∃ p i, p ∈ V i ∧ c = .thread p := by
  constructor
  · rintro ⟨t, ht, he⟩
    obtain ⟨i, hi⟩ := (inQueue_iff h.views t).mp ht
    exact ⟨t, i, hi, he.symm.trans (h.placed i t hi).2.2.1⟩
  · rintro ⟨p, i, hp, rfl⟩
    exact ⟨p, (inQueue_iff h.views p).mpr ⟨i, hp⟩, (h.placed i p hp).2.2.1⟩

lemma Inv.boot_idle (h : Inv M V) (hb : M.sched.running = .boot) :
    M.sched.current = none ∧ (M.pc .boot = .user ∨ M.pc .boot = .yielding) := by
  have hcur : M.sched.current = none := by
    cases hc : M.sched.current with
    | none => rfl
    | some p =>
      have hr := (h.current p hc).2.1
      rw [hb] at hr
      cases hr
  rcases h.idle hcur with ⟨-, hpc⟩ | ⟨p, -, hr, -⟩
  · exact ⟨hcur, hpc⟩
  · rw [hb] at hr
    cases hr

lemma sleepOn_none (h : s.current = none) (q : Queue) : sleepOn s q = none := by
  rw [sleepOn, h]
  rfl

/-- The boot context cannot sleep: it would dereference the null pointer. -/
lemma boot_not_blocked (hcur : M.sched.current = none) (hs : step M op = some M') : ¬Blocks M op := by
  intro hb
  cases op with
  | lock mtx =>
    have hlocked : (M.sched.mutexes mtx).locked = true := hb
    have hcall : mutexLock M.sched mtx = none := by simp [mutexLock, hlocked, sleepOn_none hcur]
    have hpc : M.pc M.sched.running = .user := step_pc hs rfl
    simp [step, hpc, hcall] at hs
  | wait sem =>
    have hcount : ¬0 < (M.sched.semaphores sem).count := hb
    have hcall : semWait M.sched sem = none := by simp [semWait, hcount, sleepOn_none hcur]
    have hpc : M.pc M.sched.running = .user := step_pc hs rfl
    simp [step, hpc, hcall] at hs
  | _ => exact hb

lemma running_enqueue {s' : Sched} {t : ThreadPtr} (h : enqueueThreadLocked s t = some s') :
    s'.running = s.running := by
  rw [enqueueThreadLocked, Option.map_eq_some_iff] at h
  obtain ⟨r, -, rfl⟩ := h
  rfl

lemma running_create {t : Option ThreadPtr} {stack : Option ℕ} {size : UInt32} {r : UInt32 × Sched}
    (h : threadCreate s t stack size = some r) : r.2.running = s.running := by
  simp only [threadCreate] at h
  split at h
  · rw [← Option.some.inj h]
  · rw [← Option.some.inj h]
  · rw [Option.map_eq_some_iff] at h
    obtain ⟨s', hs', rfl⟩ := h
    have hrun := running_enqueue hs'
    exact hrun

lemma running_wake {q : Queue} {r : Sched × Queue} (h : wakeHead s q = some (some r)) :
    r.1.running = s.running := by
  simp only [wakeHead] at h
  split at h
  · cases h
  · rw [Option.map_eq_some_iff] at h
    obtain ⟨s', hs', hr⟩ := h
    rw [← Option.some.inj hr]
    have hrun := running_enqueue hs'
    exact hrun

lemma running_unlock {s' : Sched} {mtx : ℕ} (h : mutexUnlock s mtx = some s') : s'.running = s.running := by
  rw [mutexUnlock, Option.map_eq_some_iff] at h
  obtain ⟨r, hr, rfl⟩ := h
  cases r with
  | none => rfl
  | some r => exact running_wake hr

lemma running_post {s' : Sched} {sem : ℕ} (h : semPost s sem = some s') : s'.running = s.running := by
  rw [semPost, Option.map_eq_some_iff] at h
  obtain ⟨r, hr, rfl⟩ := h
  cases r with
  | none => rfl
  | some r => exact running_wake hr

/-- The executing context goes on as long as `schedule` is not called with a thread ready. -/
theorem running_kept (hs : step M op = some M')
    (hno : CallsSchedule M op → M.sched.run.head = none ∧ ¬Blocks M op) :
    M'.sched.running = M.sched.running := by
  have hblock : ¬Blocks M op := by
    intro hb
    cases op with
    | lock mtx => exact (hno hb).2 hb
    | wait sem => exact (hno hb).2 hb
    | _ => exact hb
  cases op with
  | create t stack size =>
    have hp : M.pc M.sched.running = .user := step_pc hs rfl
    simp only [step, hp] at hs
    split at hs
    · rw [Option.map_eq_some_iff] at hs
      obtain ⟨r, hr, rfl⟩ := hs
      exact running_create hr
    · cases hs
  | yieldTest =>
    have hp : M.pc M.sched.running = .user := step_pc hs rfl
    simp only [step, hp] at hs
    split at hs <;> rw [← Option.some.inj hs]
  | yieldSwitch =>
    have hp : M.pc M.sched.running = .yielding := step_pc hs rfl
    simp only [step, hp] at hs
    rw [callSchedule_empty (hno trivial).1 rfl (fun _ => rfl)] at hs
    rw [← Option.some.inj hs]
  | tick =>
    rw [step_tick, if_pos (hno trivial).1] at hs
    rw [← Option.some.inj hs]
  | exitMark =>
    have hp : M.pc M.sched.running = .user := step_pc hs rfl
    simp only [step, hp] at hs
    split at hs <;> rw [← Option.some.inj hs]
    rfl
  | exitClear =>
    have hp : M.pc M.sched.running = .exiting := step_pc hs rfl
    simp only [step, hp, exitClear, Option.map_map, Option.map_eq_some_iff] at hs
    obtain ⟨p, -, rfl⟩ := hs
    rfl
  | exitSwitch =>
    have hp : M.pc M.sched.running = .cleared := step_pc hs rfl
    simp only [step, hp] at hs
    rw [callSchedule_empty (hno trivial).1 rfl (fun _ => rfl)] at hs
    rw [← Option.some.inj hs]
  | lock mtx =>
    have hfree : (M.sched.mutexes mtx).locked = false := by simpa [Blocks] using hblock
    have hp : M.pc M.sched.running = .user := step_pc hs rfl
    simp only [step, hp, mutexLock, if_pos hfree, Option.bind_some] at hs
    rw [← Option.some.inj hs]
    rfl
  | unlock mtx =>
    have hp : M.pc M.sched.running = .user := step_pc hs rfl
    simp only [step, hp] at hs
    rw [Option.map_eq_some_iff] at hs
    obtain ⟨s', hs', rfl⟩ := hs
    exact running_unlock hs'
  | wait sem =>
    have hcount : 0 < (M.sched.semaphores sem).count := by
      by_contra hzero
      exact hblock hzero
    have hp : M.pc M.sched.running = .user := step_pc hs rfl
    simp only [step, hp, semWait, if_pos hcount, Option.bind_some] at hs
    rw [← Option.some.inj hs]
    rfl
  | post sem =>
    have hp : M.pc M.sched.running = .user := step_pc hs rfl
    simp only [step, hp] at hs
    rw [Option.map_eq_some_iff] at hs
    obtain ⟨s', hs', rfl⟩ := hs
    exact running_post hs'

/-- A step of the boot context that dispatches no thread. -/
lemma boot_stays (h : Inv M V) (hb : M.sched.running = .boot) (hs : step M op = some M')
    (hno : ¬BootDispatches M op) : M'.sched.running = .boot := by
  have hblock := boot_not_blocked (h.boot_idle hb).1 hs
  rw [← hb]
  apply running_kept hs
  intro hcalls
  refine ⟨?_, hblock⟩
  by_contra hne
  exact hno ⟨hb, hcalls, hne⟩

lemma Handover.running_thread {k : Pc} (h : Handover M V k) (hne : M.sched.run.head ≠ none)
    (hs : callSchedule M k = some M') : ∃ t, M'.sched.running = .thread t := by
  obtain ⟨t, rest, s', -, rfl, hinv, -, -, hcur, -⟩ := h.called hne hs
  exact ⟨t, (hinv.current t hcur).2.1⟩

/-- A step of the boot context that dispatches a thread loses the context. -/
theorem boot_lost (h : Good count M V) (hs : step M op = some M') (hd : BootDispatches M op) :
    ¬KeepsContext M M' := by
  obtain ⟨hb, hcalls, hne⟩ := hd
  obtain ⟨hcur, hpc⟩ := h.inv.boot_idle hb
  rw [← hb] at hpc
  have hand : ∀ k, Handover M V k := by
    intro k
    apply h.inv.handover
    intro p hp
    rw [hcur] at hp
    cases hp
  have hblock := boot_not_blocked hcur hs
  have hrun : ∃ t, M'.sched.running = .thread t := by
    cases op with
    | yieldSwitch =>
      have hp : M.pc M.sched.running = .yielding := step_pc hs rfl
      simp only [step, hp] at hs
      exact (hand .user).running_thread hne hs
    | tick =>
      rw [step_tick, if_neg hne] at hs
      exact (hand _).running_thread hne hs
    | exitSwitch => rcases hpc with hp | hp <;> simp [step, hp] at hs
    | _ => exact absurd hcalls hblock
  obtain ⟨t, ht⟩ := hrun
  obtain ⟨⟨V', hV'⟩, -⟩ := GoodStep.keeps h ⟨op, fun hbl => absurd hbl hblock, hs⟩
  intro hkeep
  have hexit : ¬Exiting M := by
    rcases hpc with hp | hp <;> simp [Exiting, hp]
  have hsaved := hkeep (by rw [ht, hb]; simp) hexit
  rw [hb, hV'.inv.saved_iff] at hsaved
  obtain ⟨p, -, -, hp⟩ := hsaved
  cases hp

end Boot

section Threads

variable {p : ThreadPtr} {k : Pc}

/-- A thread that executes and has not called `thread_exit` is current. -/
lemma Inv.current_of_not_exiting (h : Inv M V) (hb : M.sched.running ≠ .boot) (hexit : ¬Exiting M) :
    ∃ p, M.sched.current = some p ∧ M.sched.running = .thread p ∧
      (M.sched.threads p).state = .running ∧
      (M.pc M.sched.running = .user ∨ M.pc M.sched.running = .yielding) := by
  cases hc : M.sched.current with
  | none =>
    rcases h.idle hc with ⟨hr, -⟩ | ⟨p, -, hr, -, hpc⟩
    · exact absurd hr hb
    · rw [← hr] at hpc
      exact absurd (Or.inr hpc) hexit
  | some p =>
    obtain ⟨-, hr, ⟨hs, hpc⟩ | ⟨-, hpc⟩⟩ := h.current p hc
    · rw [← hr] at hpc
      exact ⟨p, rfl, hr, hs, hpc⟩
    · rw [← hr] at hpc
      exact absurd (Or.inl hpc) hexit

lemma Handover.saved (h : Handover M V k) (hc : M.sched.current = some p)
    (hz : (M.sched.threads p).state ≠ .zombie) (hne : M.sched.run.head ≠ none)
    (hs : callSchedule M k = some M') : Saved M'.sched (.thread p) := by
  obtain ⟨t, rest, s', hr, rfl, hinv, -⟩ := h.called hne hs
  rw [hinv.saved_iff]
  obtain ⟨-, -, ⟨hrun, -⟩ | ⟨i, hi, hp, -⟩ | ⟨hzp, -⟩⟩ := h.current p hc
  · exact ⟨p, .run, by simp [mem_requeued.mpr ⟨hc, hrun⟩], rfl⟩
  · exact ⟨p, i, by rwa [Function.update_of_ne hi], rfl⟩
  · exact absurd hzp hz

lemma Inv.sleep_saved (h : Inv M V) {i : QueueId} (hc : M.sched.current = some p)
    (hrun : (M.sched.threads p).state = .running) (hi : i ≠ .run) (hk : PcOk i k)
    (hne : M.sched.run.head ≠ none) :
    ∃ th q, sleepOn M.sched (M.sched.queue i) = some ({ M.sched with threads := th }, q) ∧
      ∀ M', callSchedule { M with sched := setQueue { M.sched with threads := th } i q } k = some M' →
        Saved M'.sched (.thread p) := by
  obtain ⟨th, q, hsleep, hstate, hover⟩ := h.sleep hc hrun hi hk
  refine ⟨th, q, hsleep, ?_⟩
  intro M' hs
  apply hover.saved _ _ _ hs
  · simpa using hc
  · simp [hstate]
  · cases i with
    | run => exact absurd rfl hi
    | _ => exact hne

/-- A thread that is switched away from and has not called `thread_exit` is saved. -/
theorem thread_kept (h : Inv M V) (hs : step M op = some M')
    (hb : Blocks M op → M.sched.run.head ≠ none) (hno : ¬BootDispatches M op) : KeepsContext M M' := by
  intro hswitch hexit
  have hcalls : CallsSchedule M op ∧ M.sched.run.head ≠ none := by
    by_contra hn
    apply hswitch
    apply running_kept hs
    intro hcalls
    have hempty : M.sched.run.head = none := by
      by_contra hne
      exact hn ⟨hcalls, hne⟩
    exact ⟨hempty, fun hbl => hb hbl hempty⟩
  obtain ⟨hcalls, hne⟩ := hcalls
  have hboot : M.sched.running ≠ .boot := fun hr => hno ⟨hr, hcalls, hne⟩
  obtain ⟨p, hc, hr, hrun, hpc⟩ := h.current_of_not_exiting hboot hexit
  have hz : (M.sched.threads p).state ≠ .zombie := by simp [hrun]
  rw [hr]
  cases op with
  | yieldSwitch =>
    have hp : M.pc M.sched.running = .yielding := step_pc hs rfl
    simp only [step, hp] at hs
    exact (h.handover fun _ _ _ => Or.inl rfl).saved hc hz hne hs
  | tick =>
    rw [step_tick, if_neg hne] at hs
    exact (h.handover fun _ _ _ => hpc).saved hc hz hne hs
  | exitSwitch => rcases hpc with hp | hp <;> simp [step, hp] at hs
  | lock mtx =>
    have hl : (M.sched.mutexes mtx).locked = true := hcalls
    obtain ⟨th, q, hsleep, hsaved⟩ :=
      h.sleep_saved (i := .mutex mtx) (k := .locking mtx) hc hrun (by simp) rfl hne
    have hp : M.pc M.sched.running = .user := step_pc hs rfl
    rw [Sched.queue] at hsleep
    simp only [step, hp, mutexLock, hl, hsleep, Option.map_some, Option.bind_some, ite_true,
      Bool.true_eq_false, ite_false] at hs
    exact hsaved M' (by simpa [setQueue, hl] using hs)
  | wait sem =>
    have hcount : ¬0 < (M.sched.semaphores sem).count := hcalls
    obtain ⟨th, q, hsleep, hsaved⟩ :=
      h.sleep_saved (i := .sem sem) (k := .waiting sem) hc hrun (by simp) rfl hne
    have hp : M.pc M.sched.running = .user := step_pc hs rfl
    rw [Sched.queue] at hsleep
    simp only [step, hp, semWait, if_neg hcount, hsleep, Option.map_some, Option.bind_some, ite_true] at hs
    exact hsaved M' (by simpa [setQueue] using hs)
  | _ => exact absurd hcalls (by simp [CallsSchedule, Blocks])

end Threads

section Runs

lemma run_append (before : List Op) (op : Op) (M : Machine) :
    run M (before ++ [op]) = (run M before).bind fun M' => step M' op := by
  rw [run, List.foldlM_append]
  simp [run]

/-- While the boot context dispatches nothing, it goes on executing. -/
theorem boot_executes {ops before : List Op}
    (hno : ∀ M op M' V, StepOf s count ops M op M' → Good count M V → ¬BootDispatches M op)
    (hp : before <+: ops) (hrun : run (start s count) before = some M) :
    (∃ V, Good count M V) ∧ M.sched.running = .boot := by
  induction before using List.reverseRecOn generalizing M with
  | nil =>
    have hM : start s count = M := by simpa [run] using hrun
    rw [← hM]
    exact ⟨⟨_, start_good s count⟩, rfl⟩
  | append_singleton before op ih =>
    rw [run_append, Option.bind_eq_some_iff] at hrun
    obtain ⟨M₀, hM₀, hs⟩ := hrun
    obtain ⟨⟨V, hV⟩, hb⟩ := ih ((List.prefix_append _ _).trans hp) hM₀
    have hd := hno M₀ op M V ⟨⟨before, hp, hM₀⟩, hs⟩ hV
    have hblock := boot_not_blocked (hV.inv.boot_idle hb).1 hs
    exact ⟨(GoodStep.keeps hV ⟨op, fun hbl => absurd hbl hblock, hs⟩).1, boot_stays hV.inv hb hs hd⟩

/-- A run loses no context if and only if the boot context never calls `schedule` while a thread is
ready. As long as no thread blocks with an empty run queue, these calls are also the only steps that
lose a context, in any run. -/
theorem contexts_kept (s : Sched) (count : ℕ → Int32) :
    (∀ ops, (∀ M op M', StepOf s count ops M op M' → KeepsContext M M') ↔
      ∀ M op M', StepOf s count ops M op M' → ¬BootDispatches M op) ∧
    ∀ M op M', Reached s count M → (Blocks M op → M.sched.run.head ≠ none) → step M op = some M' →
      (KeepsContext M M' ↔ ¬BootDispatches M op) := by
  refine ⟨fun ops => ⟨?_, ?_⟩, ?_⟩
  · intro hkeep M op M' hstep
    obtain ⟨before, hp, hrun⟩ := hstep.reach
    have hno : ∀ M op M' V, StepOf s count ops M op M' → Good count M V → ¬BootDispatches M op :=
      fun M op M' V hstep hV hd => boot_lost hV hstep.step hd (hkeep M op M' hstep)
    obtain ⟨⟨V, hV⟩, -⟩ := boot_executes hno ((List.prefix_append _ _).trans hp) hrun
    exact hno M op M' V hstep hV
  · intro hno M op M' hstep hswitch
    obtain ⟨before, hp, hrun⟩ := hstep.reach
    obtain ⟨⟨V, hV⟩, hb⟩ := boot_executes (fun M op M' _ hstep _ => hno M op M' hstep)
      ((List.prefix_append _ _).trans hp) hrun
    have hstay := boot_stays hV.inv hb hstep.step (hno M op M' hstep)
    exact absurd (hstay.trans hb.symm) hswitch
  · intro M op M' hreach hb hs
    obtain ⟨V, hV⟩ := hreach.good
    exact ⟨fun hkeep hd => boot_lost hV hs hd hkeep, thread_kept hV.inv hs hb⟩

/-- A thread is made, and the timer interrupts the boot context. -/
theorem contexts_kept_boot : ¬∀ (s : Sched) (count : ℕ → Int32) (ops : List Op) (M : Machine) (op : Op)
    (M' : Machine), StepOf s count ops M op M' → KeepsContext M M' := by
  intro h
  have hany : (run (start coldBoot (fun _ => 0)) [.create (some 1) (some 4096) 0]).any
      (fun M => M.sched.running = .boot ∧ M.sched.run.head ≠ none ∧ (step M .tick).isSome) = true := by
    decide +kernel
  obtain ⟨M, hrun, hM⟩ := (Option.any_eq_true ..).mp hany
  obtain ⟨hb, hready, htick⟩ := of_decide_eq_true hM
  obtain ⟨M', hs⟩ := Option.isSome_iff_exists.mp htick
  have hcreate : step (start coldBoot (fun _ => 0)) (.create (some 1) (some 4096) 0) = some M := by
    simpa [run] using hrun
  have hkept : Keeps (fun _ => 0) True _ _ M := keeps_create (start_good coldBoot (fun _ => 0)) hcreate
  obtain ⟨⟨V, hV, -⟩, -⟩ := hkept
  have hstep : StepOf coldBoot (fun _ => 0) [.create (some 1) (some 4096) 0, .tick] M .tick M' :=
    ⟨⟨[.create (some 1) (some 4096) 0], List.prefix_rfl, hrun⟩, hs⟩
  exact boot_lost hV hs ⟨hb, trivial, hready⟩ (h _ _ _ M .tick M' hstep)

end Runs

end SBoy28.Scheduler
