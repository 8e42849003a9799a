import SBoy28.Scheduler.Invariant

/-!
# Every step keeps the invariant

Besides the placement of the threads, a step keeps the accounts of tokens: no semaphore serves
more calls than it was given tokens, and a mutex has at most one owner, and none while it is
unlocked, if only its holder calls `mutex_unlock`.
-/

namespace SBoy28.Scheduler
open Lib

def Tokens (count : ℕ → Int32) (M : Machine) (V : View) : Prop :=
  ∀ sem, served M V sem + (M.sched.semaphores sem).count.toNatClampNeg ≤
    (count sem).toNatClampNeg + M.history.countP (isPosted sem)

structure Exclusive (M : Machine) (V : View) : Prop where
  unique : ∀ mtx c c', Owner M V mtx c → Owner M V mtx c' → c = c'
  free : ∀ mtx, (M.sched.mutexes mtx).locked = false → ∀ c, ¬Owner M V mtx c

/-- A zombie that has been switched away from. -/
def Dead (M : Machine) (p : ThreadPtr) : Prop :=
  p ∈ M.created ∧ (M.sched.threads p).state = .zombie ∧ M.sched.running ≠ .thread p

structure Good (count : ℕ → Int32) (M : Machine) (V : View) : Prop where
  inv : Inv M V
  tokens : Tokens count M V

/-- What every step does: the invariants survive, that of the mutexes under the condition `own`, and no
dead thread comes back. -/
def Keeps (count : ℕ → Int32) (own : Prop) (M : Machine) (V : View) (M' : Machine) : Prop :=
  (∃ V', Good count M' V' ∧ (own → Exclusive M V → Exclusive M' V')) ∧ ∀ p, Dead M p → Dead M' p

variable {count : ℕ → Int32} {own : Prop} {M M' : Machine} {V V' : View}

/-- Where in its code a context makes a step; a tick comes anywhere. -/
def Op.pc : Op → Option Pc
  | .tick => none
  | .yieldSwitch => some .yielding
  | .exitClear => some .exiting
  | .exitSwitch => some .cleared
  | _ => some .user

lemma step_pc {op : Op} {pc : Pc} (hs : step M op = some M') (hpc : op.pc = some pc) :
    M.pc M.sched.running = pc := by
  cases op with
  | tick => cases hpc
  | _ =>
    obtain rfl := Option.some.inj hpc
    cases hx : M.pc M.sched.running <;> first | rfl | simp [step, hx] at hs

lemma Tokens.congr (h : Tokens count M V) (he : SameTokens M V M' V') : Tokens count M' V' := by
  intro sem
  rw [he.served, he.posted, he.count]
  exact h sem

lemma Exclusive.congr (h : Exclusive M V) (he : SameTokens M V M' V') : Exclusive M' V' where
  unique mtx c c' hc hc' := h.unique mtx c c' ((he.owner mtx c).mp hc) ((he.owner mtx c').mp hc')
  free mtx hl c hc := h.free mtx (he.locked mtx ▸ hl) c ((he.owner mtx c).mp hc)

/-- A step that moves no token keeps the accounts. -/
lemma Good.keeps_same (h : Good count M V) (he : SameTokens M V M' V') (hinv : Inv M' V')
    (hdead : ∀ p, Dead M p → Dead M' p) : Keeps count own M V M' :=
  ⟨⟨V', ⟨hinv, h.tokens.congr he⟩, fun _ hx => hx.congr he⟩, hdead⟩

/-- Tokens do not depend on where a context outside the run queue is. -/
lemma sameTokens_of_pc (hpc : ∀ p ∈ V .run, M'.pc (.thread p) = M.pc (.thread p))
    (hrun : V' .run = V .run) (hh : M'.history = M.history)
    (hl : ∀ mtx, (M'.sched.mutexes mtx).locked = (M.sched.mutexes mtx).locked)
    (hc : ∀ sem, (M'.sched.semaphores sem).count = (M.sched.semaphores sem).count) :
    SameTokens M V M' V' where
  owner mtx c := by
    simp only [Owner, hh, hrun]
    apply or_congr Iff.rfl
    constructor
    · rintro ⟨p, hp, rfl, hpc'⟩
      exact ⟨p, hp, rfl, (hpc p hp).symm.trans hpc'⟩
    · rintro ⟨p, hp, rfl, hpc'⟩
      exact ⟨p, hp, rfl, (hpc p hp).trans hpc'⟩
  served sem := by
    simp only [served, hh, hrun]
    congr 1
    apply List.countP_congr
    intro p hp
    rw [hpc p hp]
  posted sem := by rw [hh]
  locked := hl
  count := hc

section Moves

/-- The executing context goes on at another place of its own code. -/
lemma Inv.setPc (h : Inv M V) {x : Pc}
    (hcur : ∀ p, M.sched.current = some p → (M.sched.threads p).state = .running ∧
      (x = .user ∨ x = .yielding))
    (hidle : M.sched.current = none → M.sched.running = .boot ∧ (x = .user ∨ x = .yielding) ∨
      M.sched.running ≠ .boot ∧ (x = .cleared ∨ x = .halt)) :
    Inv { M with pc := Function.update M.pc M.sched.running x } V where
  views := h.views
  placed i p hp := by
    obtain ⟨hm, hs, he, hk⟩ := h.placed i p hp
    refine ⟨hm, hs, he, ?_⟩
    simpa [Function.update_of_ne (h.running_out hp).symm] using hk
  current p hc := by
    obtain ⟨hm, hr, -⟩ := h.current p hc
    obtain ⟨hs, hx⟩ := hcur p hc
    refine ⟨hm, hr, Or.inl ⟨hs, ?_⟩⟩
    simpa [← hr] using hx
  idle hc := by
    rcases hidle hc with ⟨hb, hx⟩ | ⟨hb, hx⟩
    · left
      refine ⟨hb, ?_⟩
      simpa [← hb] using hx
    · rcases h.idle hc with ⟨hb', -⟩ | ⟨p, hm, hr, hz, -⟩
      · exact absurd hb' hb
      · right
        refine ⟨p, hm, hr, hz, ?_⟩
        simpa [← hr] using hx
  cover := h.cover
  fresh p hp := by
    have hr : M.sched.running ≠ .thread p := fun hr => hp (h.running_created hr)
    simpa [Function.update_of_ne hr.symm] using h.fresh p hp

lemma Inv.sameTokens_setPc (h : Inv M V) (x : Pc) :
    SameTokens M V { M with pc := Function.update M.pc M.sched.running x } V := by
  apply sameTokens_of_pc
  · intro p hp
    exact Function.update_of_ne (h.running_out hp).symm _ _
  all_goals simp

lemma Inv.handover (h : Inv M V) {k : Pc}
    (hk : ∀ p, M.sched.current = some p → (M.sched.threads p).state = .running →
      k = .user ∨ k = .yielding) : Handover M V k where
  views := h.views
  apart := h.apart
  placed i p hp := by
    obtain ⟨hm, hs, he, hpc⟩ := h.placed i p hp
    exact ⟨hm, hs, fun _ => ⟨h.running_out hp, he, hpc⟩⟩
  current p hc := by
    obtain ⟨hm, hr, ⟨hs, -⟩ | ⟨hs, -⟩⟩ := h.current p hc
    · exact ⟨hm, hr, Or.inl ⟨hs, h.current_out hc, hk p hc hs⟩⟩
    · exact ⟨hm, hr, Or.inr (Or.inr ⟨hs, h.current_out hc⟩)⟩
  cover := h.cover
  fresh p hp := ⟨h.fresh p hp, fun hr => hp (h.running_created hr)⟩

lemma Handover.called {k : Pc} (h : Handover M V k) (hne : M.sched.run.head ≠ none)
    (hs : callSchedule M k = some M') :
    ∃ t rest s, V .run = t :: rest ∧ M' = dispatched M k t s ∧
      Inv (dispatched M k t s) (Function.update V .run (rest ++ requeued M.sched)) ∧
      s.mutexes = M.sched.mutexes ∧ s.semaphores = M.sched.semaphores ∧ s.current = some t ∧
      ∀ p, (M.sched.threads p).state = .zombie → (s.threads p).state = .zombie := by
  cases hr : V .run with
  | nil =>
    rw [h.views.run.head, hr] at hne
    exact absurd rfl hne
  | cons t rest =>
    obtain ⟨s, hcall, hdispatched⟩ := h.dispatch hr
    rw [hcall, Option.some.injEq] at hs
    exact ⟨t, rest, s, rfl, hs.symm, hdispatched⟩

/-- A call of `schedule` that dispatches. -/
theorem Handover.keeps {k : Pc} (h : Handover M V k) (ht : Tokens count M V)
    (hne : M.sched.run.head ≠ none) (hs : callSchedule M k = some M') : Keeps count own M V M' := by
  obtain ⟨t, rest, s, hr, rfl, hinv, hmut, hsem, hcur, hz⟩ := h.called hne hs
  have hsame := h.dispatch_tokens hr hmut hsem
  refine ⟨⟨_, ⟨hinv, ht.congr hsame⟩, fun _ hx => hx.congr hsame⟩, ?_⟩
  rintro p ⟨hm, hzp, -⟩
  refine ⟨hm, hz p hzp, ?_⟩
  rw [(hinv.current t hcur).2.1]
  rintro ⟨rfl⟩
  have hready := (h.placed .run t (by simp [hr])).2.1
  rw [hzp] at hready
  cases hready

lemma callSchedule_empty {k : Pc} (he : M.sched.run.head = none) (hk : resumePc k = k)
    (hk' : ∀ c, resumeEvents c k = []) :
    callSchedule M k = some { M with pc := Function.update M.pc M.sched.running k } := by
  simp [callSchedule, schedule_empty he, resume_eq, hk, hk']

/-- A step that only moves the executing context in its own code. -/
lemma Good.setPc_keeps (h : Good count M V) {x : Pc}
    (h' : Inv { M with pc := Function.update M.pc M.sched.running x } V) :
    Keeps count own M V { M with pc := Function.update M.pc M.sched.running x } :=
  h.keeps_same (h.inv.sameTokens_setPc x) h' fun _ hp => hp

/-- The invariant sees neither the history nor the counters. -/
lemma Inv.congr (h : Inv M V) {s : Sched} (l : List Event) (hth : s.threads = M.sched.threads)
    (hq : ∀ i, s.queue i = M.sched.queue i) (hc : s.current = M.sched.current)
    (hr : s.running = M.sched.running) : Inv { M with sched := s, history := l } V where
  views := h.views.congr (fun i => hq i) (fun i p _ => by rw [hth])
  placed i p hp := by simpa [hth] using h.placed i p hp
  current p hp := by
    simp only [hc] at hp
    simpa [hth, hr] using h.current p hp
  idle hn := by
    simp only [hc] at hn
    simpa [hth, hr] using h.idle hn
  cover p hp := by simpa [hth, hc] using h.cover p hp
  fresh := h.fresh

/-- The current thread behind the sleepers of a mutex or semaphore, about to be switched out. -/
theorem Inv.sleep (h : Inv M V) {p : ThreadPtr} {i : QueueId} {k : Pc}
    (hc : M.sched.current = some p) (hs : (M.sched.threads p).state = .running) (hi : i ≠ .run)
    (hk : PcOk i k) :
    ∃ th q, sleepOn M.sched (M.sched.queue i) = some ({ M.sched with threads := th }, q) ∧
      (∀ r, (th r).state = if r = p then .sleeping else (M.sched.threads r).state) ∧
      Handover { M with sched := setQueue { M.sched with threads := th } i q }
        (Function.update V i (V i ++ [p])) k := by
  have hout := fun j => h.current_out hc j
  obtain ⟨th, q, hsleep, hstate, hesp, hviews⟩ := sleepOn_spec h.views h.apart hc hout
  obtain ⟨hpm, hpr, -⟩ := h.current p hc
  have hmoves := moves_push hout i
  refine ⟨th, q, hsleep, hstate, hviews, hmoves.apart h.apart, ?_, ?_, ?_, ?_⟩
  · intro j r hr
    rcases hmoves j r hr with ⟨hr, hrp⟩ | ⟨rfl, rfl⟩
    · obtain ⟨hm, hsr, he, hpc⟩ := h.placed j r hr
      refine ⟨hm, ?_, fun _ => ⟨?_, ?_, hpc⟩⟩
      · simp [hstate, hrp, hsr]
      · simpa using h.running_out hr
      · simp [hesp, he]
    · refine ⟨hpm, ?_, fun hne => absurd ?_ hne⟩
      · simp only [threads_setQueue, hstate, ite_true]
        cases j <;> first | rfl | exact absurd rfl hi
      · simpa using hc
  · intro r hr
    obtain rfl : p = r := by simpa [hc] using hr
    exact ⟨hpm, by simpa using hpr, Or.inr (Or.inl ⟨i, hi, by simp, hk⟩)⟩
  · intro r hr
    by_cases hrp : r = p
    · subst hrp
      exact Or.inr (Or.inl (by simpa using hc))
    · rcases h.cover r hr with hz | hcr | ⟨j, hj⟩
      · exact Or.inl (by simp [hstate, hrp, hz])
      · exact Or.inr (Or.inl (by simpa using hcr))
      · exact Or.inr (Or.inr ⟨j, mem_push i hj⟩)
  · intro r hr
    exact ⟨h.fresh r hr, by simpa using fun e => hr (h.running_created e)⟩

/-- The first sleeper of a mutex or semaphore becomes ready. -/
theorem Inv.wake (h : Inv M V) {t : ThreadPtr} {rest : List ThreadPtr} {i : QueueId}
    (hi : i ≠ .run) (hV : V i = t :: rest) :
    ∃ th q q', wakeHead M.sched (M.sched.queue i) =
        some (some ({ M.sched with threads := th, run := q }, q')) ∧
      (∀ r, (th r).state = if r = t then .ready else (M.sched.threads r).state) ∧
      Inv { M with sched := setQueue { M.sched with threads := th, run := q } i q' }
        (Function.update (Function.update V i rest) .run (V .run ++ [t])) := by
  obtain ⟨th, q, q', hwake, hstate, hesp, hviews⟩ := wakeHead_spec h.views h.apart hi hV
  have htV : t ∈ V i := by simp [hV]
  obtain ⟨htm, -, hte, htpc⟩ := h.placed i t htV
  have hmoves := moves_wake h.apart (h.views i).nodup hi hV
  have hct : M.sched.current ≠ some t := fun hc => h.current_out hc i htV
  have hrt : M.sched.running ≠ .thread t := h.running_out htV
  refine ⟨th, q, q', hwake, hstate, hviews, ?_, ?_, ?_, ?_, h.fresh⟩
  · intro j r hr
    rcases hmoves j r hr with ⟨hr, hne⟩ | ⟨rfl, rfl⟩
    · obtain ⟨hm, hs, he, hpc⟩ := h.placed j r hr
      exact ⟨hm, by simp [hstate, hne, hs], by simp [hesp, he], hpc⟩
    · refine ⟨htm, by simp [hstate, QueueId.state], by simp [hesp, hte], ?_⟩
      cases i with
      | run => exact absurd rfl hi
      | mutex mtx => exact Or.inr (Or.inr (Or.inl ⟨mtx, htpc⟩))
      | sem sem => exact Or.inr (Or.inr (Or.inr ⟨sem, htpc⟩))
  · intro r hr
    simp only [current_setQueue] at hr
    have hne : r ≠ t := fun e => hct (e ▸ hr)
    simpa [hstate, hne] using h.current r hr
  · intro hn
    simp only [current_setQueue] at hn
    rcases h.idle hn with hb | ⟨z, hm, hr, hz, hpc⟩
    · exact Or.inl (by simpa using hb)
    · have hne : z ≠ t := fun e => hrt (e ▸ hr)
      exact Or.inr ⟨z, hm, by simpa using hr, by simp [hstate, hne, hz], hpc⟩
  · intro r hr
    by_cases hne : r = t
    · subst hne
      exact Or.inr (Or.inr ⟨.run, by simp⟩)
    · rcases h.cover r hr with hz | hc | ⟨j, hj⟩
      · exact Or.inl (by simp [hstate, hne, hz])
      · exact Or.inr (Or.inl (by simpa using hc))
      · exact Or.inr (Or.inr ⟨j, mem_wake hi hV hj hne⟩)

end Moves

end SBoy28.Scheduler
