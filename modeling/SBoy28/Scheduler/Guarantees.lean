import SBoy28.Scheduler.Runs

/-!
# What the scheduler guarantees

Mutual exclusion and conservation of semaphore tokens, each in every
state reached without a caller blocking on an empty run queue, where `schedule` returns at
once and the blocked call returns with it. A mutex excludes as long as nobody unlocks it for another
thread.
-/

namespace SBoy28.Scheduler
open Lib

variable {count : ℕ → Int32} {M : Machine} {V : View} {s : Sched}

instance (M : Machine) (op : Op) : Decidable (Blocks M op) := by
  cases op <;> unfold Blocks <;> infer_instance

/-- `run`, stopped at a caller that blocks while the run queue is empty. -/
def goodRun (M : Machine) (ops : List Op) : Option Machine :=
  ops.foldlM (fun M op => if Blocks M op ∧ M.sched.run.head = none then none else step M op) M

lemma goodRun_steps (ops : List Op) (M M' : Machine) (h : goodRun M ops = some M') :
    Relation.ReflTransGen GoodStep M M' := by
  induction ops generalizing M with
  | nil =>
    simp only [goodRun, List.foldlM_nil, Option.pure_def, Option.some.injEq] at h
    rw [h]
  | cons op ops ih =>
    simp only [goodRun, List.foldlM_cons, Option.bind_eq_bind, Option.bind_eq_some_iff] at h
    obtain ⟨M₁, h₁, h₂⟩ := h
    split at h₁
    · cases h₁
    · rename_i hb
      exact Relation.ReflTransGen.head ⟨op, fun hbl he => hb ⟨hbl, he⟩, h₁⟩ (ih M₁ h₂)

instance (M : Machine) (op : Op) : Decidable (UnlocksOwn M op) := by
  cases op <;> unfold UnlocksOwn <;> infer_instance

/-- `run`, stopped at a caller that unlocks the mutex of another context. -/
def ownRun (M : Machine) (ops : List Op) : Option Machine :=
  ops.foldlM (fun M op => if UnlocksOwn M op then step M op else none) M

/-- A good run in which only holders unlock. -/
lemma ownRun_steps (ops : List Op) (M M' : Machine) (hown : (ownRun M ops).isSome)
    (hgood : goodRun M ops = some M') : Relation.ReflTransGen OwnStep M M' := by
  induction ops generalizing M with
  | nil =>
    simp only [goodRun, List.foldlM_nil, Option.pure_def, Option.some.injEq] at hgood
    rw [hgood]
  | cons op ops ih =>
    simp only [ownRun, List.foldlM_cons, Option.bind_eq_bind] at hown
    simp only [goodRun, List.foldlM_cons, Option.bind_eq_bind, Option.bind_eq_some_iff] at hgood
    obtain ⟨M₁, h₁, hgood⟩ := hgood
    split at h₁
    · cases h₁
    · rename_i hb
      split at hown
      · rename_i hunlock
        rw [h₁] at hown
        have hstep : OwnStep M M₁ := ⟨op, fun hbl he => hb ⟨hbl, he⟩, hunlock, h₁⟩
        exact Relation.ReflTransGen.head hstep (ih M₁ hown hgood)
      · cases hown

/-- Memory before `thread_system_init`. -/
def coldBoot : Sched where
  threads := fun _ => ⟨.boot, 0, none, 0, .ready, none⟩
  run := ⟨none, none⟩
  current := none
  nextTid := 0
  mutexes := fun _ => mutexInit
  semaphores := fun _ => semInit 0
  running := .boot

/-- Two contexts never hold one mutex. -/
theorem mutual_exclusion (h : ReachedByOwners s count M) (mtx : ℕ) (c c' : Context)
    (hc : holds M.history c mtx = true) (hc' : holds M.history c' mtx = true) : c = c' := by
  obtain ⟨V, -, hV⟩ := h.good
  exact hV.unique mtx c c' (Or.inl hc) (Or.inl hc')

/-- Thread 2 sleeps on the mutex of thread 1, thread 3 exits, and thread 1 wakes thread 2. -/
def exitRun : List Op :=
  [.create (some 1) (some 100) 0, .create (some 2) (some 200) 0, .create (some 3) (some 300) 0,
    .tick, .lock 0, .tick, .lock 0, .exitMark, .exitClear, .exitSwitch, .unlock 0]

/-- The mutex handed over in `exitRun`, once its new owner is dispatched. -/
theorem mutual_exclusion_handover :
    ∃ M, goodRun (start coldBoot (fun _ => 0)) (exitRun ++ [.tick]) = some M ∧
      holds M.history (.thread 2) 0 = true ∧
      ∀ c, holds M.history c 0 = true → c = .thread 2 := by
  have hown : (ownRun (start coldBoot (fun _ => 0)) (exitRun ++ [.tick])).isSome = true := by
    decide +kernel
  have hany : (goodRun (start coldBoot (fun _ => 0)) (exitRun ++ [.tick])).any
      (fun M => holds M.history (.thread 2) 0) = true := by decide +kernel
  obtain ⟨M, hrun, hholds⟩ := (Option.any_eq_true ..).mp hany
  refine ⟨M, hrun, hholds, ?_⟩
  intro c hc
  exact mutual_exclusion (ownRun_steps _ _ _ hown hrun) 0 c (.thread 2) hc hholds

/-- The holder sleeps on a semaphore and nobody else can run: `mutex_lock` returns at once. -/
theorem mutual_exclusion_empty_run_queue :
    ¬∀ (s : Sched) (count : ℕ → Int32) (ops : List Op) (M : Machine),
      ownRun (start s count) ops = some M → ∀ mtx c c', holds M.history c mtx = true →
        holds M.history c' mtx = true → c = c' := by
  intro h
  have hany : (ownRun (start coldBoot (fun _ => 0)) [.create (some 1) (some 100) 0,
      .create (some 2) (some 200) 0, .tick, .lock 0, .wait 0, .lock 0]).any
      (fun M => holds M.history (.thread 1) 0 && holds M.history (.thread 2) 0) = true := by
    decide +kernel
  obtain ⟨M, hrun, hholds⟩ := (Option.any_eq_true ..).mp hany
  rw [Bool.and_eq_true] at hholds
  have heq := h _ _ _ M hrun 0 (.thread 1) (.thread 2) hholds.1 hholds.2
  cases heq

/-- No more calls of `sem_wait` have returned than tokens were put in. -/
theorem token_conservation (h : Reached s count M) (sem : ℕ) (hcount : 0 ≤ count sem) :
    (M.history.countP (isWaited sem) : ℤ) ≤
      (count sem).toInt + M.history.countP (isPosted sem) := by
  obtain ⟨V, hV⟩ := h.good
  have hserved := hV.tokens sem
  have hwaited : M.history.countP (isWaited sem) ≤ served M V sem := Nat.le_add_right _ _
  have hpos : 0 ≤ (count sem).toInt := by simpa using Int32.le_iff_toInt_le.mp hcount
  rw [← Int32.toNat_toInt (count sem)] at hserved
  omega

/-- Thread 1 takes the only token, thread 2 sleeps, and thread 1 posts. -/
theorem token_conservation_post :
    ∃ M, goodRun (start coldBoot (fun _ => 1)) [.create (some 1) (some 100) 0,
        .create (some 2) (some 200) 0, .tick, .wait 0, .tick, .wait 0, .post 0, .tick] = some M ∧
      M.history.countP (isWaited 0) = 2 ∧ (2 : ℤ) ≤ 1 + M.history.countP (isPosted 0) := by
  have hany : (goodRun (start coldBoot (fun _ => 1)) [.create (some 1) (some 100) 0,
      .create (some 2) (some 200) 0, .tick, .wait 0, .tick, .wait 0, .post 0, .tick]).any
      (fun M => M.history.countP (isWaited 0) = 2) = true := by decide +kernel
  obtain ⟨M, hrun, hwaited⟩ := (Option.any_eq_true ..).mp hany
  have hwaited : M.history.countP (isWaited 0) = 2 := by simpa using hwaited
  have hcons := token_conservation (goodRun_steps _ _ _ hrun) 0 (by decide)
  rw [hwaited] at hcons
  exact ⟨M, hrun, hwaited, hcons⟩

/-- With an empty run queue `sem_wait` returns without a token. -/
theorem token_conservation_empty_run_queue :
    ¬∀ (s : Sched) (count : ℕ → Int32) (ops : List Op) (M : Machine) (sem : ℕ),
      run (start s count) ops = some M → 0 ≤ count sem →
        (M.history.countP (isWaited sem) : ℤ) ≤
          (count sem).toInt + M.history.countP (isPosted sem) := by
  intro h
  have hany : (run (start coldBoot (fun _ => 0)) [.create (some 1) (some 100) 0, .tick,
      .wait 0]).any (fun M => M.history = [.waited (.thread 1) 0]) = true := by decide +kernel
  obtain ⟨M, hrun, hhist⟩ := (Option.any_eq_true ..).mp hany
  have hhist : M.history = [.waited (.thread 1) 0] := by simpa using hhist
  have hle := h _ _ _ M 0 hrun (by decide)
  rw [hhist] at hle
  revert hle
  decide

end SBoy28.Scheduler
