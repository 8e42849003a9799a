import SBoy28.Scheduler.Steps

/-!
# Runs of the scheduler

One lemma for each step of the executing context, then what holds in every reached state.
-/

namespace SBoy28.Scheduler
open Lib

variable {count : ℕ → Int32} {own : Prop} {M M' : Machine} {V : View}

lemma Good.keeps_refl (h : Good count M V) : Keeps count own M V M :=
  ⟨⟨V, h, fun _ hx => hx⟩, fun _ hp => hp⟩

lemma Inv.user_running (h : Inv M V) {p : ThreadPtr} (hc : M.sched.current = some p)
    (hpc : M.pc M.sched.running = .user) : (M.sched.threads p).state = .running := by
  obtain ⟨-, hr, ⟨hs, -⟩ | ⟨-, hx⟩⟩ := h.current p hc
  · exact hs
  · rw [← hr, hpc] at hx
    cases hx

lemma owner_push {V' : View} {t : ThreadPtr} (hpc : M'.pc = M.pc) (hh : M'.history = M.history)
    (hV : V' .run = V .run ++ [t]) {mtx : ℕ} {c : Context} :
    Owner M' V' mtx c ↔ Owner M V mtx c ∨ (c = .thread t ∧ M.pc c = .locking mtx) := by
  simp only [Owner, hpc, hh, hV, List.mem_append, List.mem_singleton]
  constructor
  · rintro (h | ⟨p, hp | rfl, hc, hx⟩)
    · exact Or.inl (Or.inl h)
    · exact Or.inl (Or.inr ⟨p, hp, hc, hx⟩)
    · exact Or.inr ⟨hc, hx⟩
  · rintro ((h | ⟨p, hp, hc, hx⟩) | ⟨hc, hx⟩)
    · exact Or.inl h
    · exact Or.inr ⟨p, Or.inl hp, hc, hx⟩
    · exact Or.inr ⟨t, Or.inr rfl, hc, hx⟩

lemma served_push {V' : View} {t : ThreadPtr} (hpc : M'.pc = M.pc) (hh : M'.history = M.history)
    (hV : V' .run = V .run ++ [t]) {sem : ℕ} :
    served M' V' sem = served M V sem + if M.pc (.thread t) = .waiting sem then 1 else 0 := by
  simp only [served, hpc, hh, hV, List.countP_append, List.countP_singleton, decide_eq_true_eq]
  omega

lemma Inv.create (h : Inv M V) {t : ThreadPtr} (ht : t ∉ M.created) (stack : ℕ) (size : UInt32) :
    ∃ th q, threadCreate M.sched (some t) (some stack) size =
        some (M.sched.nextTid,
          { M.sched with threads := th, run := q, nextTid := M.sched.nextTid + 1 }) ∧
      Inv { M with
        sched := { M.sched with threads := th, run := q, nextTid := M.sched.nextTid + 1 }
        created := insert t M.created } (Function.update V .run (V .run ++ [t])) ∧
      ∀ r, (th r).state = if r = t then .ready else (M.sched.threads r).state := by
  have htV : ∀ i, t ∉ V i := fun i hi => ht (h.placed i t hi).1
  obtain ⟨th, q, hcreate, hstate, hesp, hviews⟩ := threadCreate_spec h.views htV h.apart
  have hne : ∀ r ∈ M.created, r ≠ t := fun r hr e => ht (e ▸ hr)
  refine ⟨th, q, hcreate, ⟨hviews, ?_, ?_, ?_, ?_, ?_⟩, hstate⟩
  · intro i r hr
    have hcase : r ∈ V i ∨ (i = .run ∧ r = t) := by
      by_cases hi : i = .run
      · subst hi
        simpa using hr
      · left
        rwa [Function.update_of_ne hi] at hr
    rcases hcase with hr | ⟨rfl, rfl⟩
    · obtain ⟨hm, hs, he, hpc⟩ := h.placed i r hr
      exact ⟨by simp [hm], by simp [hstate, hne r hm, hs], by simp [hesp, hne r hm, he], hpc⟩
    · refine ⟨by simp, by simp [hstate, QueueId.state], by simp [hesp], ?_⟩
      exact Or.inl (h.fresh r ht)
  · intro r hr
    obtain ⟨hm, hrun, hs⟩ := h.current r hr
    exact ⟨by simp [hm], hrun, by simpa [hstate, hne r hm] using hs⟩
  · intro hn
    rcases h.idle hn with hb | ⟨z, hm, hr, hz, hpc⟩
    · exact Or.inl hb
    · exact Or.inr ⟨z, by simp [hm], hr, by simp [hstate, hne z hm, hz], hpc⟩
  · intro r hr
    by_cases hrt : r = t
    · subst hrt
      exact Or.inr (Or.inr ⟨.run, by simp⟩)
    · have hm : r ∈ M.created := by simpa [hrt] using hr
      rcases h.cover r hm with hz | hc | ⟨i, hi⟩
      · exact Or.inl (by simp [hstate, hrt, hz])
      · exact Or.inr (Or.inl hc)
      · refine Or.inr (Or.inr ⟨i, ?_⟩)
        by_cases hir : i = .run
        · subst hir
          simp [hi]
        · simpa [hir] using hi
  · intro r hr
    exact h.fresh r (fun hm => hr (by simp [hm]))

theorem keeps_create (h : Good count M V) {t : Option ThreadPtr} {stack : Option ℕ}
    {size : UInt32} (hs : step M (.create t stack size) = some M') : Keeps count own M V M' := by
  have hpc : M.pc M.sched.running = .user := step_pc hs rfl
  simp only [step, hpc] at hs
  split at hs
  · rename_i hfresh
    cases t with
    | none =>
      simp only [threadCreate, Option.map_some, Option.some.injEq] at hs
      subst hs
      exact h.keeps_refl
    | some t =>
      cases stack with
      | none =>
        simp only [threadCreate, Option.map_some, Option.some.injEq] at hs
        subst hs
        exact h.keeps_refl
      | some stack =>
        have ht : t ∉ M.created := hfresh t rfl
        have htV : ∀ i, t ∉ V i := fun i hi => ht (h.inv.placed i t hi).1
        obtain ⟨th, q, hcreate, hinv, hstate⟩ := h.inv.create ht stack size
        rw [hcreate, Option.map_some, Option.some.injEq] at hs
        subst hs
        apply h.keeps_same ?_ hinv
        · rintro p ⟨hm, hz, hr⟩
          have hpt : p ≠ t := fun e => ht (e ▸ hm)
          exact ⟨by simp [hm], by simp [hstate, hpt, hz], hr⟩
        · have hpct := h.inv.fresh t ht
          refine ⟨?_, ?_, fun _ => rfl, fun _ => rfl, fun _ => rfl⟩
          · intro mtx c
            refine (owner_push rfl rfl (Function.update_self ..)).trans (or_iff_left ?_)
            rintro ⟨rfl, hx⟩
            rw [hpct] at hx
            cases hx
          · intro sem
            refine (served_push rfl rfl (Function.update_self ..)).trans ?_
            rw [hpct]
            rfl
  · cases hs

theorem keeps_yieldTest (h : Good count M V) (hs : step M .yieldTest = some M') :
    Keeps count own M V M' := by
  have hpc : M.pc M.sched.running = .user := step_pc hs rfl
  simp only [step, hpc] at hs
  split at hs
  · rw [Option.some.injEq] at hs
    subst hs
    exact h.keeps_refl
  · rw [Option.some.injEq] at hs
    subst hs
    apply h.setPc_keeps
    apply h.inv.setPc
    · intro p hc
      exact ⟨h.inv.user_running hc hpc, by simp⟩
    · intro hc
      rcases h.inv.idle hc with ⟨hb, -⟩ | ⟨p, -, hr, -, hx⟩
      · simp [hb]
      · rw [← hr, hpc] at hx
        rcases hx with hx | hx <;> cases hx

theorem keeps_yieldSwitch (h : Good count M V) (hs : step M .yieldSwitch = some M') :
    Keeps count own M V M' := by
  have hpc : M.pc M.sched.running = .yielding := step_pc hs rfl
  simp only [step, hpc] at hs
  by_cases he : M.sched.run.head = none
  · rw [callSchedule_empty he rfl (fun _ => rfl), Option.some.injEq] at hs
    subst hs
    apply h.setPc_keeps
    apply h.inv.setPc
    · intro p hc
      obtain ⟨-, hr, ⟨hrun, -⟩ | ⟨-, hx⟩⟩ := h.inv.current p hc
      · exact ⟨hrun, by simp⟩
      · rw [← hr, hpc] at hx
        cases hx
    · intro hc
      rcases h.inv.idle hc with ⟨hb, -⟩ | ⟨p, -, hr, -, hx⟩
      · simp [hb]
      · rw [← hr, hpc] at hx
        rcases hx with hx | hx <;> cases hx
  · exact (h.inv.handover (fun _ _ _ => Or.inl rfl)).keeps h.tokens he hs

theorem keeps_tick (h : Good count M V) (hs : step M .tick = some M') : Keeps count own M V M' := by
  rw [step_tick] at hs
  split at hs
  · rw [Option.some.injEq] at hs
    subst hs
    exact h.keeps_refl
  · rename_i he
    refine (h.inv.handover ?_).keeps h.tokens he hs
    intro p hc hrun
    obtain ⟨-, hr, ⟨-, hx⟩ | ⟨hz, -⟩⟩ := h.inv.current p hc
    · rwa [hr]
    · rw [hrun] at hz
      cases hz

theorem keeps_exitSwitch (h : Good count M V) (hs : step M .exitSwitch = some M') :
    Keeps count own M V M' := by
  have hpc : M.pc M.sched.running = .cleared := step_pc hs rfl
  simp only [step, hpc] at hs
  have hcur : M.sched.current = none := by
    cases hc : M.sched.current with
    | none => rfl
    | some p =>
      obtain ⟨-, hr, ⟨-, hx⟩ | ⟨-, hx⟩⟩ := h.inv.current p hc
      · rw [← hr, hpc] at hx
        rcases hx with hx | hx <;> cases hx
      · rw [← hr, hpc] at hx
        cases hx
  by_cases he : M.sched.run.head = none
  · rw [callSchedule_empty he rfl (fun _ => rfl), Option.some.injEq] at hs
    subst hs
    apply h.setPc_keeps
    apply h.inv.setPc
    · intro p hc
      rw [hcur] at hc
      cases hc
    · intro _
      rcases h.inv.idle hcur with ⟨hb, hx⟩ | ⟨p, -, hr, -, -⟩
      · rw [← hb, hpc] at hx
        rcases hx with hx | hx <;> cases hx
      · simp [hr]
  · refine (h.inv.handover ?_).keeps h.tokens he hs
    intro p hc
    rw [hcur] at hc
    cases hc


theorem keeps_exitMark (h : Good count M V) (hs : step M .exitMark = some M') :
    Keeps count own M V M' := by
  have hpc : M.pc M.sched.running = .user := step_pc hs rfl
  simp only [step, hpc] at hs
  cases hc : M.sched.current with
  | none =>
    simp only [hc, Option.some.injEq] at hs
    subst hs
    exact h.keeps_refl
  | some p =>
    simp only [hc, Option.some.injEq] at hs
    subst hs
    obtain ⟨hpm, hpr, -⟩ := h.inv.current p hc
    have hout := fun i => h.inv.current_out hc i
    have hne : ∀ i, ∀ r ∈ V i, r ≠ p := fun i r hr e => hout i (e ▸ hr)
    have hctx : ∀ r, r ≠ p → Context.thread r ≠ M.sched.running := by
      intro r hr
      rw [hpr]
      simpa using hr
    refine h.keeps_same (?_ : SameTokens M V _ V) ⟨?_, ?_, ?_, ?_, ?_, ?_⟩ ?_
    · apply sameTokens_of_pc
      · intro r hr
        simp [hctx r (hne .run r hr)]
      all_goals simp [exitMark]
    · exact h.inv.views.congr (fun i => by cases i <;> rfl) (fun i r _ => by simp [exitMark])
    · intro i r hr
      have hr' := hne i r hr
      obtain ⟨hm, hsr, he, hx⟩ := h.inv.placed i r hr
      refine ⟨hm, by simp [exitMark, hr', hsr], by simp [exitMark, he], ?_⟩
      simpa [hctx r hr'] using hx
    · intro r hr
      obtain rfl : p = r := by simpa [exitMark, hc] using hr
      exact ⟨hpm, hpr, Or.inr (by simp [exitMark, hpr])⟩
    · intro hn
      simp [exitMark, hc] at hn
    · intro r hr
      by_cases hrp : r = p
      · exact Or.inl (by simp [exitMark, hrp])
      · rcases h.inv.cover r hr with hz | hcr | hV
        · exact Or.inl (by simp [exitMark, hrp, hz])
        · exact Or.inr (Or.inl hcr)
        · exact Or.inr (Or.inr hV)
    · intro r hr
      have hrp : r ≠ p := fun e => hr (e ▸ hpm)
      simpa [hctx r hrp] using h.inv.fresh r hr
    · rintro r ⟨hm, hz, hr⟩
      refine ⟨hm, ?_, hr⟩
      by_cases hrp : r = p <;> simp [exitMark, hrp, hz]

theorem keeps_exitClear (h : Good count M V) (hs : step M .exitClear = some M') :
    Keeps count own M V M' := by
  have hpc : M.pc M.sched.running = .exiting := step_pc hs rfl
  simp only [step, hpc] at hs
  cases hc : M.sched.current with
  | none => simp [exitClear, hc] at hs
  | some p =>
    simp only [exitClear, hc, Option.map_some, Option.some.injEq] at hs
    subst hs
    obtain ⟨hpm, hpr, hps⟩ := h.inv.current p hc
    have hz : (M.sched.threads p).state = .zombie := by
      rcases hps with ⟨-, hx⟩ | ⟨hz, -⟩
      · rw [← hpr, hpc] at hx
        rcases hx with hx | hx <;> cases hx
      · exact hz
    have hstate : ∀ r, (Function.update M.sched.threads p
        { M.sched.threads p with stack := none } r).state = (M.sched.threads r).state := by
      intro r
      by_cases hr : r = p
      · subst hr
        simp
      · simp [hr]
    have hesp : ∀ r, (Function.update M.sched.threads p
        { M.sched.threads p with stack := none } r).esp = (M.sched.threads r).esp := by
      intro r
      by_cases hr : r = p
      · subst hr
        simp
      · simp [hr]
    have hnext : nextOf (Function.update M.sched.threads p
        { M.sched.threads p with stack := none }) = nextOf M.sched.threads := by
      funext r
      by_cases hr : r = p
      · subst hr
        simp [nextOf]
      · simp [nextOf, hr]
    have hctx : ∀ r, r ≠ p → Context.thread r ≠ M.sched.running := by
      intro r hr
      rw [hpr]
      simpa using hr
    have hne : ∀ i, ∀ r ∈ V i, r ≠ p := fun i r hr e => h.inv.current_out hc i (e ▸ hr)
    refine h.keeps_same (?_ : SameTokens M V _ V) ⟨?_, ?_, ?_, ?_, ?_, ?_⟩ ?_
    · apply sameTokens_of_pc
      · intro r hr
        simp [hctx r (hne .run r hr)]
      all_goals simp
    · exact h.inv.views.congr (fun i => by cases i <;> rfl) (fun i r _ => by rw [hnext])
    · intro i r hr
      obtain ⟨hm, hsr, he, hx⟩ := h.inv.placed i r hr
      refine ⟨hm, (hstate r).trans hsr, (hesp r).trans he, ?_⟩
      simpa [hctx r (hne i r hr)] using hx
    · intro r hr
      cases hr
    · intro _
      exact Or.inr ⟨p, hpm, hpr, (hstate p).trans hz, by simp [hpr]⟩
    · intro r hr
      rcases h.inv.cover r hr with hz' | hcr | hV
      · exact Or.inl ((hstate r).trans hz')
      · obtain rfl : p = r := by simpa [hc] using hcr
        exact Or.inl ((hstate p).trans hz)
      · exact Or.inr (Or.inr hV)
    · intro r hr
      have hrp : r ≠ p := fun e => hr (e ▸ hpm)
      simpa [hctx r hrp] using h.inv.fresh r hr
    · rintro r ⟨hm, hzr, hr⟩
      exact ⟨hm, (hstate r).trans hzr, hr⟩

section History

variable (l : List Event) (c c' : Context) (mtx m sem : ℕ)

lemma holds_locked : holds (.locked c mtx :: l) c' m = true ↔ (c = c' ∧ mtx = m) ∨ holds l c' m = true := by
  by_cases h : c = c' ∧ mtx = m <;> simp [holds, h]

lemma holds_unlocked :
    holds (.unlocked c mtx :: l) c' m = true ↔ ¬(c = c' ∧ mtx = m) ∧ holds l c' m = true := by
  by_cases h : c = c' ∧ mtx = m <;> simp [holds, h]

end History

/-- A context that does not get its mutex or token, with another thread to switch to. -/
theorem Good.sleep (h : Good count M V) {p : ThreadPtr} {i : QueueId} {k : Pc}
    (hc : M.sched.current = some p) (hpc : M.pc M.sched.running = .user) (hi : i ≠ .run)
    (hk : PcOk i k) (hne : M.sched.run.head ≠ none) :
    ∃ th q, sleepOn M.sched (M.sched.queue i) = some ({ M.sched with threads := th }, q) ∧
      ∀ M', callSchedule { M with sched := setQueue { M.sched with threads := th } i q } k = some M' →
        Keeps count own M V M' := by
  have hrun := h.inv.user_running hc hpc
  obtain ⟨th, q, hsleep, hstate, hover⟩ := h.inv.sleep hc hrun hi hk
  refine ⟨th, q, hsleep, ?_⟩
  intro M' hs
  have hrunq : Function.update V i (V i ++ [p]) .run = V .run := Function.update_of_ne hi.symm _ _
  have htok : SameTokens M V { M with sched := setQueue { M.sched with threads := th } i q }
      (Function.update V i (V i ++ [p])) := by
    apply sameTokens_of_pc
    · intro r _
      rfl
    · exact hrunq
    all_goals simp
  have hhead : (setQueue { M.sched with threads := th } i q).run.head ≠ none := by
    cases i with
    | run => exact absurd rfl hi
    | _ => exact hne
  have hkept : Keeps count own _ _ M' := hover.keeps (h.tokens.congr htok) hhead hs
  obtain ⟨⟨V', hgood, hexcl⟩, hdead⟩ := hkept
  refine ⟨⟨V', hgood, fun ho hx => hexcl ho (hx.congr htok)⟩, ?_⟩
  rintro r ⟨hm, hz, hr⟩
  apply hdead
  have hrp : r ≠ p := by
    rintro rfl
    rw [hrun] at hz
    cases hz
  exact ⟨hm, by simp [hstate, hrp, hz], by simpa using hr⟩

/-- The lock word is taken: the caller is the first owner. -/
lemma Exclusive.lock (h : Exclusive M V) {mtx : ℕ} {c : Context}
    (hl : (M.sched.mutexes mtx).locked = false) :
    Exclusive { M with
      sched := setMutex M.sched mtx { M.sched.mutexes mtx with locked := true }
      history := .locked c mtx :: M.history } V := by
  have hown : ∀ m c', Owner { M with
      sched := setMutex M.sched mtx { M.sched.mutexes mtx with locked := true }
      history := .locked c mtx :: M.history } V m c' ↔ (c = c' ∧ mtx = m) ∨ Owner M V m c' := by
    intro m c'
    simp only [Owner, holds_locked, or_assoc]
  constructor
  · intro m c₁ c₂ h₁ h₂
    rw [hown] at h₁ h₂
    by_cases hm : mtx = m
    · subst hm
      have hfree := h.free mtx hl
      simp only [hfree, and_true, or_false] at h₁ h₂
      exact h₁.symm.trans h₂
    · simp only [hm, and_false, false_or] at h₁ h₂
      exact h.unique m c₁ c₂ h₁ h₂
  · intro m hm c' hc
    by_cases hmm : m = mtx
    · subst hmm
      simp [setMutex] at hm
    · rw [hown] at hc
      simp only [Ne.symm hmm, and_false, false_or] at hc
      apply h.free m ?_ c' hc
      simpa [setMutex, hmm] using hm

theorem keeps_lock (h : Good count M V) {mtx : ℕ}
    (hb : (M.sched.mutexes mtx).locked = true → M.sched.run.head ≠ none)
    (hs : step M (.lock mtx) = some M') : Keeps count own M V M' := by
  have hpc : M.pc M.sched.running = .user := step_pc hs rfl
  simp only [step, hpc, mutexLock] at hs
  cases hl : (M.sched.mutexes mtx).locked with
  | false =>
    simp only [hl, ite_true, Option.bind_some, Bool.false_eq_true, ite_false,
      Option.some.injEq] at hs
    subst hs
    refine ⟨⟨V, ⟨h.inv.congr _ rfl ?_ rfl rfl, ?_⟩, fun _ hx => hx.lock hl⟩, fun p hp => hp⟩
    · intro i
      cases i with
      | mutex m => by_cases hm : m = mtx <;> simp [Sched.queue, setMutex, hm]
      | _ => rfl
    · intro sem
      simpa [served, isWaited, isPosted, setMutex] using h.tokens sem
  | true =>
    cases hc : M.sched.current with
    | none => simp [hl, sleepOn, hc] at hs
    | some p =>
      obtain ⟨th, q, hsleep, hkeeps⟩ :=
        h.sleep (i := .mutex mtx) hc hpc (by simp) rfl (hb hl)
      rw [Sched.queue] at hsleep
      simp only [hl, hsleep, Option.map_some, Option.bind_some, ite_true, Bool.true_eq_false,
        ite_false] at hs
      exact hkeeps M' (by simpa [setQueue, hl] using hs)

/-- The machine in which the executing context has given its mutex back, but nobody got it. -/
def unlocked (M : Machine) (c : Context) (mtx : ℕ) : Machine :=
  { M with history := .unlocked c mtx :: M.history }

lemma owner_unlocked {c c' : Context} {mtx m : ℕ} (hc : ∀ p ∈ V .run, c ≠ .thread p)
    (h : Owner (unlocked M c mtx) V m c') : Owner M V m c' ∧ ¬(mtx = m ∧ c = c') := by
  rcases h with h | ⟨p, hp, rfl, hx⟩
  · obtain ⟨hne, hh⟩ := (holds_unlocked _ _ _ _ _).mp h
    exact ⟨Or.inl hh, fun e => hne e.symm⟩
  · exact ⟨Or.inr ⟨p, hp, rfl, hx⟩, fun e => hc p hp e.2⟩

/-- Unlocking a mutex that nobody waits for leaves it without an owner. -/
lemma Exclusive.unlock (h : Exclusive M V) {mtx : ℕ} {c : Context}
    (hh : holds M.history c mtx = true) (hc : ∀ p ∈ V .run, c ≠ .thread p) :
    Exclusive { M with
      sched := setMutex M.sched mtx { M.sched.mutexes mtx with locked := false }
      history := .unlocked c mtx :: M.history } V := by
  constructor
  · intro m c₁ c₂ h₁ h₂
    exact h.unique m c₁ c₂ (owner_unlocked hc h₁).1 (owner_unlocked hc h₂).1
  · intro m hm c' hc'
    obtain ⟨ho, hne⟩ := owner_unlocked hc hc'
    by_cases hmm : m = mtx
    · subst hmm
      exact hne ⟨rfl, h.unique m c c' (Or.inl hh) ho⟩
    · apply h.free m ?_ c' ho
      simpa [setMutex, hmm] using hm

/-- Handing a mutex over makes the first sleeper its only owner. -/
lemma Exclusive.handover (h : Exclusive M V) {V' : View} {s : Sched} {mtx : ℕ} {c : Context}
    {t : ThreadPtr} (hh : holds M.history c mtx = true) (hc : ∀ p ∈ V .run, c ≠ .thread p)
    (ht : M.pc (.thread t) = .locking mtx) (hV : V' .run = V .run ++ [t])
    (hl : ∀ m, (s.mutexes m).locked = (M.sched.mutexes m).locked) :
    Exclusive { M with sched := s, history := .unlocked c mtx :: M.history } V' := by
  have hown : ∀ m c', Owner { M with sched := s, history := .unlocked c mtx :: M.history } V' m c' →
      Owner (unlocked M c mtx) V m c' ∨ (c' = .thread t ∧ mtx = m) := by
    intro m c' ho
    rcases (owner_push (M := unlocked M c mtx) rfl rfl hV).mp ho with ho | ⟨rfl, hx⟩
    · exact Or.inl ho
    · right
      have hx' : Pc.locking mtx = .locking m := ht.symm.trans hx
      exact ⟨rfl, by simpa using hx'⟩
  have hnone : ∀ c', ¬Owner (unlocked M c mtx) V mtx c' := by
    intro c' ho
    obtain ⟨ho, hne⟩ := owner_unlocked hc ho
    exact hne ⟨rfl, h.unique mtx c c' (Or.inl hh) ho⟩
  constructor
  · intro m c₁ c₂ h₁ h₂
    rcases hown m c₁ h₁ with h₁ | ⟨rfl, rfl⟩
    · rcases hown m c₂ h₂ with h₂ | ⟨rfl, rfl⟩
      · exact h.unique m c₁ c₂ (owner_unlocked hc h₁).1 (owner_unlocked hc h₂).1
      · exact absurd h₁ (hnone c₁)
    · rcases hown mtx c₂ h₂ with h₂ | ⟨rfl, -⟩
      · exact absurd h₂ (hnone c₂)
      · rfl
  · intro m hm c' hc'
    have hm' : (M.sched.mutexes m).locked = false := (hl m).symm.trans hm
    rcases hown m c' hc' with ho | ⟨rfl, rfl⟩
    · exact h.free m hm' c' (owner_unlocked hc ho).1
    · exact h.free mtx hm' c (Or.inl hh)

/-- Whoever calls `mutex_unlock`, a token of a semaphore is not moved. -/
lemma Tokens.handover (h : Tokens count M V) {V' : View} {s : Sched} {mtx : ℕ} {c : Context}
    {t : ThreadPtr} (ht : M.pc (.thread t) = .locking mtx) (hV : V' .run = V .run ++ [t])
    (hcount : ∀ k, (s.semaphores k).count = (M.sched.semaphores k).count) :
    Tokens count { M with sched := s, history := .unlocked c mtx :: M.history } V' := by
  intro sem
  have hserved : served { M with sched := s, history := .unlocked c mtx :: M.history } V' sem =
      served M V sem + if M.pc (.thread t) = .waiting sem then 1 else 0 :=
    served_push (M := unlocked M c mtx) rfl rfl hV
  rw [hserved]
  simpa [ht, hcount, isPosted] using h sem

theorem keeps_unlock (h : Good count M V) {mtx : ℕ} (hs : step M (.unlock mtx) = some M') :
    Keeps count (UnlocksOwn M (.unlock mtx)) M V M' := by
  have hpc : M.pc M.sched.running = .user := step_pc hs rfl
  simp only [step, hpc, mutexUnlock] at hs
  have hc : ∀ p ∈ V .run, M.sched.running ≠ .thread p := fun p hp => h.inv.running_out hp
  cases hV : V (.mutex mtx) with
  | nil =>
    have hwake := wakeHead_empty h.inv.views hV
    rw [Sched.queue] at hwake
    simp only [hwake, Option.map_some, Option.some.injEq] at hs
    subst hs
    refine ⟨⟨V, ⟨h.inv.congr _ rfl ?_ rfl rfl, ?_⟩, fun hh hx => hx.unlock hh hc⟩,
      fun p hp => hp⟩
    · intro i
      cases i with
      | mutex m => by_cases hm : m = mtx <;> simp [Sched.queue, setMutex, hm]
      | _ => rfl
    · intro sem
      simpa [served, isWaited, isPosted, setMutex] using h.tokens sem
  | cons t rest =>
    obtain ⟨th, q, q', hwake, hstate, hinv⟩ := h.inv.wake (by simp) hV
    rw [Sched.queue] at hwake
    simp only [hwake, Option.map_some, Option.some.injEq] at hs
    subst hs
    have htV : t ∈ V (.mutex mtx) := by simp [hV]
    have htpc := (h.inv.placed _ t htV).2.2.2
    refine ⟨⟨_, ⟨hinv.congr _ rfl (fun _ => rfl) rfl rfl, ?_⟩, ?_⟩, ?_⟩
    · apply h.tokens.handover htpc (Function.update_self ..)
      intro k
      exact count_setQueue _ (.mutex mtx) q' k
    · intro hh hx
      apply hx.handover hh hc htpc (Function.update_self ..)
      intro m
      exact locked_setQueue _ (.mutex mtx) q' m
    · rintro r ⟨hm, hz, hr⟩
      have hrt : r ≠ t := fun e => h.inv.zombie_out hz _ (e ▸ htV)
      exact ⟨hm, (hstate r).trans ((if_neg hrt).trans hz), hr⟩

lemma toNatClampNeg_add_one_le (x : Int32) : (x + 1).toNatClampNeg ≤ x.toNatClampNeg + 1 := by
  have hone : (1 : Int32).toInt = 1 := by decide
  have hlow := Int32.le_toInt x
  have hhigh := Int32.toInt_lt x
  simp only [← Int32.toNat_toInt, Int32.toInt_add, hone, Int.bmod_def]
  omega

lemma toNatClampNeg_sub_one {x : Int32} (h : 0 < x) :
    (x - 1).toNatClampNeg + 1 = x.toNatClampNeg := by
  have hone : (1 : Int32).toInt = 1 := by decide
  have hpos : 0 < x.toInt := by simpa using Int32.lt_iff_toInt_lt.mp h
  have hhigh := Int32.toInt_lt x
  simp only [← Int32.toNat_toInt, Int32.toInt_sub, hone, Int.bmod_def]
  omega

theorem keeps_wait (h : Good count M V) {sem : ℕ}
    (hb : ¬0 < (M.sched.semaphores sem).count → M.sched.run.head ≠ none)
    (hs : step M (.wait sem) = some M') : Keeps count own M V M' := by
  have hpc : M.pc M.sched.running = .user := step_pc hs rfl
  simp only [step, hpc, semWait] at hs
  by_cases hl : 0 < (M.sched.semaphores sem).count
  · simp only [hl, ite_true, Option.bind_some, Bool.false_eq_true, ite_false,
      Option.some.injEq] at hs
    subst hs
    refine ⟨⟨V, ⟨h.inv.congr _ rfl ?_ rfl rfl, ?_⟩, fun _ hx => ⟨hx.unique, hx.free⟩⟩,
      fun p hp => hp⟩
    · intro i
      cases i with
      | sem k => by_cases hk : k = sem <;> simp [Sched.queue, setSemaphore, hk]
      | _ => rfl
    · intro k
      have hcons := h.tokens k
      have hsub := toNatClampNeg_sub_one hl
      by_cases hk : k = sem
      · subst hk
        simp [served, isWaited, isPosted, setSemaphore] at hcons ⊢
        omega
      · simpa [served, isWaited, isPosted, setSemaphore, hk, Ne.symm hk] using hcons
  · cases hc : M.sched.current with
    | none => simp [hl, sleepOn, hc] at hs
    | some p =>
      obtain ⟨th, q, hsleep, hkeeps⟩ :=
        h.sleep (i := .sem sem) hc hpc (by simp) rfl (hb hl)
      rw [Sched.queue] at hsleep
      simp only [hl, hsleep, Option.map_some, Option.bind_some, ite_true, ite_false] at hs
      exact hkeeps M' hs

lemma Exclusive.post (h : Exclusive M V) {V' : View} {s : Sched} {sem : ℕ} {c : Context}
    {t : ThreadPtr} (ht : M.pc (.thread t) = .waiting sem) (hV : V' .run = V .run ++ [t])
    (hl : ∀ m, (s.mutexes m).locked = (M.sched.mutexes m).locked) :
    Exclusive { M with sched := s, history := .posted c sem :: M.history } V' := by
  have hown : ∀ m c', Owner { M with sched := s, history := .posted c sem :: M.history } V' m c' ↔
      Owner M V m c' := by
    intro m c'
    refine (owner_push (M := { M with history := .posted c sem :: M.history }) rfl rfl hV).trans ?_
    apply or_iff_left
    rintro ⟨rfl, hx⟩
    cases ht.symm.trans hx
  constructor
  · intro m c₁ c₂ h₁ h₂
    exact h.unique m c₁ c₂ ((hown m c₁).mp h₁) ((hown m c₂).mp h₂)
  · intro m hm c' hc'
    exact h.free m ((hl m).symm.trans hm) c' ((hown m c').mp hc')

lemma Tokens.post (h : Tokens count M V) {V' : View} {s : Sched} {sem : ℕ} {c : Context}
    {t : ThreadPtr} (ht : M.pc (.thread t) = .waiting sem) (hV : V' .run = V .run ++ [t])
    (hcount : ∀ k, (s.semaphores k).count = (M.sched.semaphores k).count) :
    Tokens count { M with sched := s, history := .posted c sem :: M.history } V' := by
  intro k
  have hserved : served { M with sched := s, history := .posted c sem :: M.history } V' k =
      served M V k + if M.pc (.thread t) = .waiting k then 1 else 0 :=
    served_push (M := { M with history := .posted c sem :: M.history }) rfl rfl hV
  rw [hserved, ht]
  have hcons := h k
  by_cases hk : sem = k
  · subst hk
    simp only [ite_true, hcount, List.countP_cons, isPosted, decide_true]
    omega
  · simpa [hk, hcount, isPosted] using hcons

theorem keeps_post (h : Good count M V) {sem : ℕ} (hs : step M (.post sem) = some M') :
    Keeps count own M V M' := by
  have hpc : M.pc M.sched.running = .user := step_pc hs rfl
  simp only [step, hpc, semPost] at hs
  cases hV : V (.sem sem) with
  | nil =>
    have hwake := wakeHead_empty h.inv.views hV
    rw [Sched.queue] at hwake
    simp only [hwake, Option.map_some, Option.some.injEq] at hs
    subst hs
    refine ⟨⟨V, ⟨h.inv.congr _ rfl ?_ rfl rfl, ?_⟩, fun _ hx => ⟨hx.unique, hx.free⟩⟩,
      fun p hp => hp⟩
    · intro i
      cases i with
      | sem k => by_cases hk : k = sem <;> simp [Sched.queue, setSemaphore, hk]
      | _ => rfl
    · intro k
      have hcons := h.tokens k
      have hadd := toNatClampNeg_add_one_le (M.sched.semaphores k).count
      by_cases hk : k = sem
      · subst hk
        simp [served, isWaited, isPosted, setSemaphore] at hcons ⊢
        omega
      · simpa [served, isWaited, isPosted, setSemaphore, hk, Ne.symm hk] using hcons
  | cons t rest =>
    obtain ⟨th, q, q', hwake, hstate, hinv⟩ := h.inv.wake (by simp) hV
    rw [Sched.queue] at hwake
    simp only [hwake, Option.map_some, Option.some.injEq] at hs
    subst hs
    have htV : t ∈ V (.sem sem) := by simp [hV]
    have htpc := (h.inv.placed _ t htV).2.2.2
    refine ⟨⟨_, ⟨hinv.congr _ rfl (fun _ => rfl) rfl rfl, ?_⟩, ?_⟩, ?_⟩
    · apply h.tokens.post htpc (Function.update_self ..)
      intro k
      exact count_setQueue _ (.sem sem) q' k
    · intro _ hx
      apply hx.post htpc (Function.update_self ..)
      intro m
      exact locked_setQueue _ (.sem sem) q' m
    · rintro r ⟨hm, hz, hr⟩
      have hrt : r ≠ t := fun e => h.inv.zombie_out hz _ (e ▸ htV)
      exact ⟨hm, (hstate r).trans ((if_neg hrt).trans hz), hr⟩

/-- Every step whose caller does not block with an empty run queue. -/
theorem Good.step (h : Good count M V) {op : Op} (hb : Blocks M op → M.sched.run.head ≠ none)
    (hs : Scheduler.step M op = some M') : Keeps count (UnlocksOwn M op) M V M' := by
  cases op with
  | create t stack size => exact keeps_create h hs
  | yieldTest => exact keeps_yieldTest h hs
  | yieldSwitch => exact keeps_yieldSwitch h hs
  | tick => exact keeps_tick h hs
  | exitMark => exact keeps_exitMark h hs
  | exitClear => exact keeps_exitClear h hs
  | exitSwitch => exact keeps_exitSwitch h hs
  | lock mtx => exact keeps_lock h hb hs
  | unlock mtx => exact keeps_unlock h hs
  | wait sem => exact keeps_wait h hb hs
  | post sem => exact keeps_post h hs

theorem GoodStep.keeps (h : Good count M V) (hs : GoodStep M M') :
    (∃ V', Good count M' V') ∧ ∀ p, Dead M p → Dead M' p := by
  obtain ⟨op, hb, hs⟩ := hs
  obtain ⟨⟨V', hgood, -⟩, hdead⟩ := h.step hb hs
  exact ⟨⟨V', hgood⟩, hdead⟩

theorem start_good (s : Sched) (count : ℕ → Int32) :
    Good count (start s count) (fun _ => []) where
  inv := by
    refine ⟨?_, ?_, ?_, ?_, ?_, fun _ _ => rfl⟩
    · intro i
      cases i <;> exact isQueue_nil
    · intro i p hp
      cases hp
    · intro p hp
      cases hp
    · intro _
      exact Or.inl ⟨rfl, Or.inl rfl⟩
    · intro p hp
      simp [start] at hp
  tokens sem := by simp [served, start, semInit]

lemma start_exclusive (s : Sched) (count : ℕ → Int32) :
    Exclusive (start s count) (fun _ => []) := by
  have hown : ∀ m c, ¬Owner (start s count) (fun _ => []) m c := by
    rintro m c (h | ⟨p, hp, -⟩)
    · cases h
    · cases hp
  constructor
  · intro m c c' h
    exact absurd h (hown m c)
  · intro m _ c
    exact hown m c

/-- The invariants hold in every reached state. -/
theorem Reached.good {s : Sched} (h : Reached s count M) : ∃ V, Good count M V := by
  induction h with
  | refl => exact ⟨_, start_good s count⟩
  | tail _ hs ih =>
    obtain ⟨V, hV⟩ := ih
    exact (hs.keeps hV).1

/-- A mutex keeps one owner as long as only its holder unlocks it. -/
theorem ReachedByOwners.good {s : Sched} (h : ReachedByOwners s count M) :
    ∃ V, Good count M V ∧ Exclusive M V := by
  induction h with
  | refl => exact ⟨_, start_good s count, start_exclusive s count⟩
  | tail _ hs ih =>
    obtain ⟨V, hV, hx⟩ := ih
    obtain ⟨op, hb, hown, hs⟩ := hs
    obtain ⟨⟨V', hgood, hexcl⟩, -⟩ := hV.step hb hs
    exact ⟨V', hgood, hexcl hown hx⟩

end SBoy28.Scheduler
