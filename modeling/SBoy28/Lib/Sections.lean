import Mathlib.Logic.Function.Basic
import Mathlib.Logic.Relation

/-!
# Critical sections on one processor

Contexts take turns on one processor, which an interrupt can take from one of them wherever interrupts are enabled.
A critical section saves the interrupt flag, disables interrupts and takes a spin lock. What the contexts have still
to do is a tree of code, so that the discipline of the sections can be read off the code, and with it no lock is
ever contended and every section is one step.
-/

namespace SBoy28.Lib

variable {σ κ : Type*}

section Model

/-- What is left of a call: instructions for the flag and the lock, pieces of work on the data, which the code after
them depends on, and a switch, after which the data say who runs. `done` is the code of the caller. -/
inductive Code (σ : Type*) where
  | done
  | halt
  | saveIrq (c : Code σ)
  | restoreIrq (c : Code σ)
  | sti (c : Code σ)
  | lock (c : Code σ)
  | unlock (c : Code σ)
  | act (f : σ → Option σ) (k : σ → Code σ)
  | switch (f : σ → Option σ) (c : Code σ)

/-- The data, the lock, the interrupt flag, and for each context the code that is left, the flags it has saved, and
the flag of its own code. -/
structure Uniprocessor (σ κ : Type*) where
  data : σ
  locked : Bool
  interrupts : Bool
  code : κ → Code σ
  saved : κ → List Bool
  level : κ → Bool

variable [DecidableEq κ]

def Uniprocessor.goOn (m : Uniprocessor σ κ) (r : κ) (c : Code σ) : Uniprocessor σ κ :=
  { m with code := Function.update m.code r c }

/-- The next instruction of the context that runs. A spin lock that is taken is tried again. -/
def Uniprocessor.exec (running : σ → κ) (m : Uniprocessor σ κ) : Option (Uniprocessor σ κ) :=
  let r := running m.data
  match m.code r with
  | .done => none
  | .halt => none
  | .saveIrq c =>
    some { m.goOn r c with interrupts := false, saved := Function.update m.saved r (m.interrupts :: m.saved r) }
  | .restoreIrq c =>
    match m.saved r with
    | [] => none
    | flag :: saved => some { m.goOn r c with interrupts := flag, saved := Function.update m.saved r saved }
  | .sti c => some { m.goOn r c with interrupts := true }
  | .lock c => if m.locked then some m else some { m.goOn r c with locked := true }
  | .unlock c => some { m.goOn r c with locked := false }
  | .act f k => (f m.data).map fun d => { m.goOn r (k m.data) with data := d }
  | .switch f c => (f m.data).map fun d => { m.goOn r c with data := d }

/-- An instruction, a call out of the caller's own code, `sti` there, or an interrupt wherever it is enabled: the
processor saves the flag, disables interrupts and runs the code of the handler. -/
inductive Uniprocessor.Step (running : σ → κ) (handler : Code σ → Code σ) (Calls : Bool → Code σ → Prop)
    (m : Uniprocessor σ κ) : Uniprocessor σ κ → Prop where
  | exec {m' : Uniprocessor σ κ} (h : m.exec running = some m') : Step running handler Calls m m'
  | call (c : Code σ) (hdone : m.code (running m.data) = .done) (hc : Calls m.interrupts c) :
      Step running handler Calls m (m.goOn (running m.data) c)
  | enable (hdone : m.code (running m.data) = .done) : Step running handler Calls m
      { m with interrupts := true, level := Function.update m.level (running m.data) true }
  | interrupt (h : m.interrupts = true) : Step running handler Calls m
      { m.goOn (running m.data) (handler (.restoreIrq (m.code (running m.data)))) with
        interrupts := false
        saved := Function.update m.saved (running m.data) (true :: m.saved (running m.data)) }

end Model

namespace Code

/-- The code keeps to the discipline, from a point on where the lock is held or not and where interrupts are known
to be disabled or not: the lock is taken with interrupts disabled and given back before they may be enabled again,
and before a switch. -/
def Safe (running : σ → κ) : Bool → Bool → Code σ → Prop
  | held, _, .done => held = false
  | held, _, .halt => held = false
  | held, _, .saveIrq c => held = false ∧ Safe running false true c
  | held, _, .restoreIrq c => held = false ∧ Safe running false false c
  | held, _, .sti c => held = false ∧ Safe running false false c
  | held, off, .lock c => held = false ∧ off = true ∧ Safe running true true c
  | held, off, .unlock c => held = true ∧ Safe running false off c
  | held, off, .act f k => (∀ s s', f s = some s' → running s' = running s) ∧ ∀ s, Safe running held off (k s)
  | held, off, .switch _ c => held = false ∧ off = true ∧ Safe running false true c

/-- With this flag and these saved flags the code comes to its end with the flag `b`. -/
def Balanced (b : Bool) : Bool → List Bool → Code σ → Prop
  | flag, saved, .done => flag = b ∧ saved = []
  | _, _, .halt => True
  | flag, saved, .saveIrq c => Balanced b false (flag :: saved) c
  | _, saved, .restoreIrq c => ∃ flag rest, saved = flag :: rest ∧ Balanced b flag rest c
  | _, saved, .sti c => Balanced b true saved c
  | flag, saved, .lock c => Balanced b flag saved c
  | flag, saved, .unlock c => Balanced b flag saved c
  | flag, saved, .act _ k => ∀ s, Balanced b flag saved (k s)
  | _, saved, .switch _ c => Balanced b false saved c

/-- When the code comes to a point where it has done its work on the data, because a switch follows or because it may
enable interrupts, then `P` holds of the data and of the code that is left. -/
def Commits (P : σ → Code σ → Prop) : Code σ → σ → Prop
  | .done, s => P s .done
  | .halt, s => P s .halt
  | .restoreIrq c, s => P s (.restoreIrq c)
  | .sti c, s => P s (.sti c)
  | .saveIrq c, s => Commits P c s
  | .lock c, s => Commits P c s
  | .unlock c, s => Commits P c s
  | .act f k, s => ∀ s', f s = some s' → Commits P (k s) s'
  | .switch f c, s => ∀ s', f s = some s' → P s' c

end Code

section Discipline

variable {running : σ → κ} {handler : Code σ → Code σ} {Calls : Bool → Code σ → Prop}
  {m m' : Uniprocessor σ κ}

/-- The handler and the calls keep to the discipline. -/
structure Disciplined (running : σ → κ) (handler : Code σ → Code σ) (Calls : Bool → Code σ → Prop) : Prop where
  handler_safe : ∀ c, Code.Safe running false false c → Code.Safe running false true (handler (.restoreIrq c))
  handler_balanced : ∀ b saved c, Code.Balanced b false saved c → Code.Balanced b false saved (handler c)
  call_safe : ∀ flag c, Calls flag c → Code.Safe running false (!flag) c
  call_balanced : ∀ flag c, Calls flag c → Code.Balanced flag flag [] c

/-- The lock is held only with interrupts disabled and by the context that runs. -/
structure Uniprocessor.Inv (running : σ → κ) (m : Uniprocessor σ κ) : Prop where
  disabled : m.locked = true → m.interrupts = false
  runs : ∃ off, (off = true → m.interrupts = false) ∧ (m.code (running m.data)).Safe running m.locked off
  waits : ∀ c ≠ running m.data, (m.code c).Safe running false true
  returns : (m.code (running m.data)).Balanced (m.level (running m.data)) m.interrupts (m.saved (running m.data))
  resumes : ∀ c ≠ running m.data, (m.code c).Balanced (m.level c) false (m.saved c)

namespace Uniprocessor

/-- A context that tries to take the lock finds it free, and back in its own code it has the flag of that code. -/
lemma Inv.uncontended (h : m.Inv running) :
    (∀ c, m.code (running m.data) = .lock c → m.locked = false) ∧
      (m.code (running m.data) = .done → m.interrupts = m.level (running m.data)) := by
  obtain ⟨off, -, hsafe⟩ := h.runs
  have hreturns := h.returns
  refine ⟨fun c hc => ?_, fun hc => ?_⟩
  · rw [hc] at hsafe
    exact hsafe.1
  · rw [hc] at hreturns
    exact hreturns.1

variable [DecidableEq κ]

/-- An instruction after which the same context runs. -/
lemma Inv.goOn (h : m.Inv running) {d : σ} {locked flag : Bool} {saved : List Bool} {c : Code σ}
    (hd : running d = running m.data) (hdisabled : locked = true → flag = false)
    (hsafe : ∃ off, (off = true → flag = false) ∧ c.Safe running locked off)
    (hbalanced : c.Balanced (m.level (running m.data)) flag saved) :
    Inv running ⟨d, locked, flag, Function.update m.code (running m.data) c,
      Function.update m.saved (running m.data) saved, m.level⟩ where
  disabled := hdisabled
  runs := by
    dsimp only
    rwa [hd, Function.update_self]
  waits k hk := by
    dsimp only at hk ⊢
    rw [hd] at hk
    rw [Function.update_of_ne hk]
    exact h.waits k hk
  returns := by
    dsimp only
    rwa [hd, Function.update_self, Function.update_self]
  resumes k hk := by
    dsimp only at hk ⊢
    rw [hd] at hk
    rw [Function.update_of_ne hk, Function.update_of_ne hk]
    exact h.resumes k hk

/-- The same where the saved flags stay. -/
lemma Inv.goOn' (h : m.Inv running) {d : σ} {locked flag : Bool} {c : Code σ}
    (hd : running d = running m.data) (hdisabled : locked = true → flag = false)
    (hsafe : ∃ off, (off = true → flag = false) ∧ c.Safe running locked off)
    (hbalanced : c.Balanced (m.level (running m.data)) flag (m.saved (running m.data))) :
    Inv running ⟨d, locked, flag, Function.update m.code (running m.data) c, m.saved, m.level⟩ := by
  have hmoved := h.goOn hd hdisabled hsafe hbalanced
  rwa [Function.update_eq_self] at hmoved

/-- After a switch any context may run, with interrupts disabled. -/
lemma Inv.switched (h : m.Inv running) {d : σ} {c : Code σ} (hsafe : c.Safe running false true)
    (hbalanced : c.Balanced (m.level (running m.data)) false (m.saved (running m.data))) :
    Inv running ⟨d, false, false, Function.update m.code (running m.data) c, m.saved, m.level⟩ := by
  have hsafes : ∀ k, (Function.update m.code (running m.data) c k).Safe running false true := by
    intro k
    by_cases hk : k = running m.data
    · rw [hk, Function.update_self]
      exact hsafe
    · rw [Function.update_of_ne hk]
      exact h.waits k hk
  have hbalances : ∀ k, (Function.update m.code (running m.data) c k).Balanced (m.level k) false (m.saved k) := by
    intro k
    by_cases hk : k = running m.data
    · rw [hk, Function.update_self]
      exact hbalanced
    · rw [Function.update_of_ne hk]
      exact h.resumes k hk
  exact ⟨fun _ => rfl, ⟨true, fun _ => rfl, hsafes _⟩, fun k _ => hsafes k, hbalances _, fun k _ => hbalances k⟩

lemma Inv.exec (h : m.Inv running) (hs : m.exec running = some m') : m'.Inv running := by
  obtain ⟨off, hoff, hsafe⟩ := h.runs
  have hreturns := h.returns
  have hdisabled := h.disabled
  unfold Uniprocessor.exec Uniprocessor.goOn at hs
  dsimp only at hs
  generalize m.code (running m.data) = code at hs hsafe hreturns
  cases code with
  | done => cases hs
  | halt => cases hs
  | saveIrq c =>
    cases hs
    obtain ⟨hheld, hc⟩ := hsafe
    rw [hheld]
    exact h.goOn rfl (fun _ => rfl) ⟨true, fun _ => rfl, hc⟩ hreturns
  | restoreIrq c =>
    obtain ⟨hheld, hc⟩ := hsafe
    obtain ⟨flag, saved, hsaved, hbalanced⟩ := hreturns
    dsimp only at hs
    rw [hsaved] at hs
    cases hs
    rw [hheld]
    exact h.goOn rfl (fun hf => by cases hf) ⟨false, fun hf => (by cases hf), hc⟩ hbalanced
  | sti c =>
    cases hs
    obtain ⟨hheld, hc⟩ := hsafe
    rw [hheld]
    exact h.goOn' rfl (fun hf => by cases hf) ⟨false, fun hf => (by cases hf), hc⟩ hreturns
  | lock c =>
    obtain ⟨hheld, rfl, hc⟩ := hsafe
    dsimp only at hs
    rw [hheld] at hs
    cases hs
    exact h.goOn' rfl (fun _ => hoff rfl) ⟨true, hoff, hc⟩ hreturns
  | unlock c =>
    cases hs
    obtain ⟨hheld, hc⟩ := hsafe
    exact h.goOn' rfl (fun hf => by cases hf) ⟨off, hoff, hc⟩ hreturns
  | act f k =>
    obtain ⟨hstays, hc⟩ := hsafe
    dsimp only at hs
    rw [Option.map_eq_some_iff] at hs
    obtain ⟨d, hd, rfl⟩ := hs
    exact h.goOn' (hstays _ _ hd) hdisabled ⟨off, hoff, hc _⟩ (hreturns _)
  | switch f c =>
    obtain ⟨hheld, rfl, hc⟩ := hsafe
    dsimp only at hs
    rw [Option.map_eq_some_iff] at hs
    obtain ⟨d, hd, rfl⟩ := hs
    rw [hheld, hoff rfl]
    exact h.switched hc hreturns

lemma Inv.step (hd : Disciplined running handler Calls) (h : m.Inv running) (hs : Step running handler Calls m m') :
    m'.Inv running := by
  obtain ⟨off, hoff, hsafe⟩ := h.runs
  have hreturns := h.returns
  cases hs with
  | exec hs => exact h.exec hs
  | call c hdone hc =>
    rw [hdone] at hsafe hreturns
    obtain ⟨hflag, hsaved⟩ := hreturns
    have hheld : m.locked = false := hsafe
    refine h.goOn' rfl h.disabled ⟨!m.interrupts, fun hf => by simpa using hf, ?_⟩ ?_
    · rw [hheld]
      exact hd.call_safe _ _ hc
    · rw [hsaved, ← hflag]
      exact hd.call_balanced _ _ hc
  | enable hdone =>
    rw [hdone] at hsafe hreturns
    have hheld : m.locked = false := hsafe
    refine ⟨fun hf => ?_, ⟨false, fun hf => (by cases hf), ?_⟩, h.waits, ?_, fun k hk => ?_⟩
    · exact absurd (hheld.symm.trans hf) Bool.false_ne_true
    · dsimp only
      rw [hdone, hheld]
      exact rfl
    · dsimp only
      rw [hdone, Function.update_self]
      exact ⟨rfl, hreturns.2⟩
    · dsimp only
      rw [Function.update_of_ne hk]
      exact h.resumes k hk
  | interrupt hon =>
    have hheld : m.locked = false := by
      by_contra hf
      rw [h.disabled (eq_true_of_ne_false hf)] at hon
      cases hon
    have hoff' : off = false := by
      by_contra hf
      rw [hoff (eq_true_of_ne_false hf)] at hon
      cases hon
    rw [hheld, hoff'] at hsafe
    rw [hon] at hreturns
    refine h.goOn rfl (fun _ => rfl) ⟨true, fun _ => rfl, ?_⟩ ?_
    · have hsafe' := hd.handler_safe _ hsafe
      rw [← hheld] at hsafe'
      exact hsafe'
    · exact hd.handler_balanced _ _ _ ⟨true, _, rfl, hreturns⟩

lemma Inv.run (hd : Disciplined running handler Calls) (h : m.Inv running)
    (hrun : Relation.ReflTransGen (Step running handler Calls) m m') : m'.Inv running := by
  induction hrun with
  | refl => exact h
  | tail _ hs ih => exact ih.step hd hs

end Uniprocessor

end Discipline

section Atomicity

variable [DecidableEq κ] {running : σ → κ} {handler : Code σ → Code σ} {Calls : Bool → Code σ → Prop}
  {astep : σ → σ → Prop} {Follows : σ → κ → Code σ → Prop} {m m' : Uniprocessor σ κ} {a : σ}

/-- The data after one step of the system without interrupts, in which the context `r` has come to the code `c` and
the code of the other contexts is what they are to do. -/
def Commit (astep : σ → σ → Prop) (Follows : σ → κ → Code σ → Prop) (a : σ) (r : κ) (s : σ) (c : Code σ) : Prop :=
  astep a s ∧ Follows s r c ∧ ∀ k ≠ r, ∀ c', Follows a k c' → Follows s k c'

/-- With `Follows` as what a context may be about to do between sections, every section, every single piece of work
outside and every interrupt makes one step of the system without interrupts. -/
structure Atomic (running : σ → κ) (handler : Code σ → Code σ) (Calls : Bool → Code σ → Prop) (astep : σ → σ → Prop)
    (Follows : σ → κ → Code σ → Prop) : Prop where
  restoreIrq : ∀ {s k c}, Follows s k (.restoreIrq c) → Follows s k c
  sti : ∀ {s k c}, Follows s k (.sti c) → Follows s k c
  lock : ∀ {s k c}, ¬Follows s k (.lock c)
  unlock : ∀ {s k c}, ¬Follows s k (.unlock c)
  switch : ∀ {s k f c}, ¬Follows s k (.switch f c)
  saveIrq : ∀ {s c}, Follows s (running s) (.saveIrq c) → c.Commits (Commit astep Follows s (running s)) s
  act : ∀ {s f k s'}, Follows s (running s) (.act f k) → f s = some s' → Commit astep Follows s (running s) s' (k s)
  interrupt : ∀ {s c}, Follows s (running s) c →
    (handler (.restoreIrq c)).Commits (Commit astep Follows s (running s)) s
  call : ∀ {s flag c}, Follows s (running s) .done → Calls flag c → Follows s (running s) c

namespace Uniprocessor

/-- Between sections the data are those of the system without interrupts. -/
def Quiet (Follows : σ → κ → Code σ → Prop) (m : Uniprocessor σ κ) (a : σ) : Prop :=
  m.data = a ∧ ∀ k, Follows a k (m.code k)

/-- In a section interrupts are disabled, and its end will be a step of the system without interrupts. -/
structure Busy (running : σ → κ) (astep : σ → σ → Prop) (Follows : σ → κ → Code σ → Prop) (m : Uniprocessor σ κ)
    (a : σ) : Prop where
  disabled : m.interrupts = false
  runs : running m.data = running a
  commits : (m.code (running a)).Commits (Commit astep Follows a (running a)) m.data
  waits : ∀ k ≠ running a, Follows a k (m.code k)

def Tracks (running : σ → κ) (astep : σ → σ → Prop) (Follows : σ → κ → Code σ → Prop) (m : Uniprocessor σ κ)
    (a : σ) : Prop :=
  m.Quiet Follows a ∨ m.Busy running astep Follows a

/-- A section may be left wherever nothing is left to do in it. -/
lemma Busy.commit (h : m.Busy running astep Follows a)
    (hc : Commit astep Follows a (running a) m.data (m.code (running a))) :
    astep a m.data ∧ m.Quiet Follows m.data := by
  obtain ⟨hstep, hruns, hother⟩ := hc
  refine ⟨hstep, rfl, fun k => ?_⟩
  by_cases hk : k = running a
  · rw [hk]
    exact hruns
  · exact hother k hk _ (h.waits k hk)

/-- The context goes on with code that it may be about to do. -/
lemma Quiet.goOn (h : m.Quiet Follows a) {d : σ} {r : κ} {c : Code σ} (hc : Follows d r c)
    (hother : ∀ k ≠ r, ∀ c', Follows a k c' → Follows d k c') :
    ∀ k, Follows d k (Function.update m.code r c k) := by
  intro k
  by_cases hk : k = r
  · rw [hk, Function.update_self]
    exact hc
  · rw [Function.update_of_ne hk]
    exact hother k hk _ (h.2 k)

lemma Quiet.step (ha : Atomic running handler Calls astep Follows) (h : m.Quiet Follows a)
    (hs : Step running handler Calls m m') :
    ∃ a', Relation.ReflTransGen astep a a' ∧ m'.Tracks running astep Follows a' := by
  obtain ⟨rfl, hfollows⟩ := h
  have h : m.Quiet Follows m.data := ⟨rfl, hfollows⟩
  have hruns := hfollows (running m.data)
  have hkeep : ∀ k ≠ running m.data, ∀ c', Follows m.data k c' → Follows m.data k c' := fun _ _ _ hc => hc
  have hwaits : ∀ c, ∀ k ≠ running m.data, Follows m.data k (Function.update m.code (running m.data) c k) := by
    intro c k hk
    rw [Function.update_of_ne hk]
    exact hfollows k
  cases hs with
  | exec hs =>
    unfold Uniprocessor.exec Uniprocessor.goOn at hs
    dsimp only at hs
    generalize m.code (running m.data) = code at hs hruns
    cases code with
    | done => cases hs
    | halt => cases hs
    | saveIrq c =>
      cases hs
      refine ⟨m.data, .refl, Or.inr ⟨rfl, rfl, ?_, hwaits c⟩⟩
      dsimp only
      rw [Function.update_self]
      exact ha.saveIrq hruns
    | restoreIrq c =>
      have hc := h.goOn (ha.restoreIrq hruns) hkeep
      dsimp only at hs
      generalize m.saved (running m.data) = saved at hs
      cases saved with
      | nil => cases hs
      | cons flag saved =>
        cases hs
        exact ⟨m.data, .refl, Or.inl ⟨rfl, hc⟩⟩
    | sti c =>
      cases hs
      exact ⟨m.data, .refl, Or.inl ⟨rfl, h.goOn (ha.sti hruns) hkeep⟩⟩
    | lock c => exact absurd hruns ha.lock
    | unlock c => exact absurd hruns ha.unlock
    | act f k =>
      dsimp only at hs
      rw [Option.map_eq_some_iff] at hs
      obtain ⟨d, hd, rfl⟩ := hs
      obtain ⟨hstep, hc, hother⟩ := ha.act hruns hd
      exact ⟨d, .single hstep, Or.inl ⟨rfl, h.goOn hc hother⟩⟩
    | switch f c => exact absurd hruns ha.switch
  | call c hdone hc =>
    rw [hdone] at hruns
    exact ⟨m.data, .refl, Or.inl ⟨rfl, h.goOn (ha.call hruns hc) hkeep⟩⟩
  | enable hdone => exact ⟨m.data, .refl, Or.inl ⟨rfl, hfollows⟩⟩
  | interrupt hon =>
    refine ⟨m.data, .refl, Or.inr ⟨rfl, rfl, ?_, hwaits _⟩⟩
    dsimp only [Uniprocessor.goOn]
    rw [Function.update_self]
    exact ha.interrupt hruns

lemma Busy.step (ha : Atomic running handler Calls astep Follows) (hi : m.Inv running)
    (h : m.Busy running astep Follows a) (hs : Step running handler Calls m m') :
    ∃ a', Relation.ReflTransGen astep a a' ∧ m'.Tracks running astep Follows a' := by
  have hcommits := h.commits
  -- Where nothing is left to do in the section, it has made its step.
  have hleave : Commit astep Follows a (running a) m.data (m.code (running a)) →
      ∃ a', Relation.ReflTransGen astep a a' ∧ m'.Tracks running astep Follows a' := by
    intro hc
    obtain ⟨hstep, hquiet⟩ := h.commit hc
    obtain ⟨a', hrun, htracks⟩ := hquiet.step ha hs
    exact ⟨a', hrun.head hstep, htracks⟩
  have hwaits : ∀ c, ∀ k ≠ running a, Follows a k (Function.update m.code (running a) c k) := by
    intro c k hk
    rw [Function.update_of_ne hk]
    exact h.waits k hk
  obtain ⟨off, hoff, hsafe⟩ := hi.runs
  rw [h.runs] at hsafe
  generalize hcode : m.code (running a) = code at hcommits hleave hsafe
  have hexec : code ≠ .done → m.exec running = some m' := by
    intro hne
    cases hs with
    | exec hs => exact hs
    | call c hdone hc => exact absurd (hcode.symm.trans ((congrArg m.code h.runs.symm).trans hdone)) hne
    | enable hdone => exact absurd (hcode.symm.trans ((congrArg m.code h.runs.symm).trans hdone)) hne
    | interrupt hon =>
      rw [h.disabled] at hon
      cases hon
  unfold Uniprocessor.exec Uniprocessor.goOn at hexec
  simp only [h.runs, hcode] at hexec
  cases code with
  | done => exact hleave hcommits
  | halt => exact hleave hcommits
  | restoreIrq c => exact hleave hcommits
  | sti c => exact hleave hcommits
  | saveIrq c =>
    cases hexec (by simp)
    refine ⟨a, .refl, Or.inr ⟨rfl, h.runs, ?_, hwaits c⟩⟩
    dsimp only
    rw [Function.update_self]
    exact hcommits
  | lock c =>
    have hs := hexec (by simp)
    rw [hsafe.1] at hs
    cases hs
    refine ⟨a, .refl, Or.inr ⟨h.disabled, h.runs, ?_, hwaits c⟩⟩
    dsimp only
    rw [Function.update_self]
    exact hcommits
  | unlock c =>
    cases hexec (by simp)
    refine ⟨a, .refl, Or.inr ⟨h.disabled, h.runs, ?_, hwaits c⟩⟩
    dsimp only
    rw [Function.update_self]
    exact hcommits
  | act f k =>
    have hs := hexec (by simp)
    dsimp only at hs
    rw [Option.map_eq_some_iff] at hs
    obtain ⟨d, hd, rfl⟩ := hs
    refine ⟨a, .refl, Or.inr ⟨h.disabled, (hsafe.1 _ _ hd).trans h.runs, ?_, hwaits _⟩⟩
    dsimp only
    rw [Function.update_self]
    exact hcommits d hd
  | switch f c =>
    have hs := hexec (by simp)
    dsimp only at hs
    rw [Option.map_eq_some_iff] at hs
    obtain ⟨d, hd, rfl⟩ := hs
    obtain ⟨hstep, hc, hother⟩ := hcommits d hd
    refine ⟨d, .single hstep, Or.inl ⟨rfl, fun k => ?_⟩⟩
    dsimp only
    by_cases hk : k = running a
    · rw [hk, Function.update_self]
      exact hc
    · rw [Function.update_of_ne hk]
      exact hother k hk _ (h.waits k hk)

lemma Tracks.step (ha : Atomic running handler Calls astep Follows) (hi : m.Inv running)
    (h : m.Tracks running astep Follows a) (hs : Step running handler Calls m m') :
    ∃ a', Relation.ReflTransGen astep a a' ∧ m'.Tracks running astep Follows a' := by
  cases h with
  | inl hquiet => exact hquiet.step ha hs
  | inr hbusy => exact hbusy.step ha hi hs

/-- With interrupts wherever they are enabled, and with sections of many pieces, the data go through the states of the
system in which every section is one step. -/
theorem Tracks.run (hd : Disciplined running handler Calls) (ha : Atomic running handler Calls astep Follows)
    (hi : m.Inv running) (h : m.Quiet Follows a) (hrun : Relation.ReflTransGen (Step running handler Calls) m m') :
    ∃ a', Relation.ReflTransGen astep a a' ∧ m'.Tracks running astep Follows a' := by
  induction hrun with
  | refl => exact ⟨a, .refl, Or.inl h⟩
  | tail hbefore hs ih =>
    obtain ⟨a₁, hfirst, htracks⟩ := ih
    obtain ⟨a', hsecond, htracks'⟩ := htracks.step ha (hi.run hd hbefore) hs
    exact ⟨a', hfirst.trans hsecond, htracks'⟩

end Uniprocessor

end Atomicity

end SBoy28.Lib
