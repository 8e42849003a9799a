import Mathlib.Data.List.Basic
import Mathlib.Logic.Function.Basic

/-!
# Threads and a spin lock

Any number of threads call operations on shared data. An operation is a list of single actions that are performed
while a spin lock is held, which is taken with an atomic exchange. The other threads may run between any two
instructions, and other code may change what the operations do not look at.
-/

namespace SBoy28.Lib

variable {σ τ γ α : Type*}

section Model

/-- Where a thread is in its call: at the exchange, in the loop that waits until the lock looks free, or behind the
lock with the actions that are left. -/
inductive SpinPhase (γ α : Type*) where
  | outside
  | trying (c : γ)
  | spinning (c : γ)
  | inside (c : γ) (rest : List α)

structure Shared (σ τ γ α : Type*) where
  data : σ
  locked : Bool
  phase : τ → SpinPhase γ α

/-- A thread calls an operation, takes the lock for it, and returns from it. -/
inductive SpinEvent (τ γ : Type*) where
  | call (t : τ) (c : γ)
  | take (t : τ) (c : γ)
  | ret (t : τ) (c : γ)

def SpinEvent.thread : SpinEvent τ γ → τ
  | .call t _ => t
  | .take t _ => t
  | .ret t _ => t

/-- The lock is initialized and nobody has called yet. -/
def Shared.idle (d : σ) : Shared σ τ γ α := ⟨d, false, fun _ => .outside⟩

variable [DecidableEq τ]

def Shared.goOn (m : Shared σ τ γ α) (t : τ) (ph : SpinPhase γ α) : Shared σ τ γ α :=
  { m with phase := Function.update m.phase t ph }

/-- One instruction of a thread, or of other code. The exchange sets the lock in either case. -/
inductive Shared.Step (acts : γ → List α) (perform : σ → α → σ) (Other : σ → σ → Prop) (m : Shared σ τ γ α) :
    List (SpinEvent τ γ) → Shared σ τ γ α → Prop where
  | call (t : τ) (c : γ) (h : m.phase t = .outside) : Step acts perform Other m [.call t c] (m.goOn t (.trying c))
  | exchange (t : τ) (c : γ) (h : m.phase t = .trying c) : Step acts perform Other m
      (if m.locked then [] else [.take t c])
      { m.goOn t (if m.locked then .spinning c else .inside c (acts c)) with locked := true }
  | look (t : τ) (c : γ) (h : m.phase t = .spinning c) : Step acts perform Other m []
      (m.goOn t (if m.locked then .spinning c else .trying c))
  | act (t : τ) (c : γ) (a : α) (rest : List α) (h : m.phase t = .inside c (a :: rest)) :
      Step acts perform Other m [] { m.goOn t (.inside c rest) with data := perform m.data a }
  | unlock (t : τ) (c : γ) (h : m.phase t = .inside c []) :
      Step acts perform Other m [.ret t c] { m.goOn t .outside with locked := false }
  | other (d : σ) (h : Other m.data d) : Step acts perform Other m [] { m with data := d }

/-- A run with what happens in it, in its order. -/
inductive Shared.Run (acts : γ → List α) (perform : σ → α → σ) (Other : σ → σ → Prop) (m : Shared σ τ γ α) :
    List (SpinEvent τ γ) → Shared σ τ γ α → Prop where
  | start : Run acts perform Other m [] m
  | next {es fs : List (SpinEvent τ γ)} {m' m'' : Shared σ τ γ α} (h : Run acts perform Other m es m')
      (hs : m'.Step acts perform Other fs m'') : Run acts perform Other m (es ++ fs) m''

end Model

section Order

/-- What the calls do one after the other. -/
def sequential (acts : γ → List α) (perform : σ → α → σ) (d : σ) (cs : List γ) : σ :=
  cs.foldl (fun d c => (acts c).foldl perform d) d

/-- The calls in the order in which they take the lock. -/
def taken (es : List (SpinEvent τ γ)) : List γ :=
  es.filterMap fun
    | .take _ c => some c
    | _ => none

/-- What a thread does for a whole call. -/
def whole (t : τ) (c : γ) : List (SpinEvent τ γ) := [.call t c, .take t c, .ret t c]

/-- What it has done for the call that it is in. -/
def begun (t : τ) : SpinPhase γ α → List (SpinEvent τ γ)
  | .outside => []
  | .trying c => [.call t c]
  | .spinning c => [.call t c]
  | .inside c _ => [.call t c, .take t c]

def ofThread [DecidableEq τ] (t : τ) (es : List (SpinEvent τ γ)) : List (SpinEvent τ γ) :=
  es.filter fun e => e.thread = t

/-- The other code changes nothing that the actions look at. -/
structure Unseen (perform : σ → α → σ) (Other Same : σ → σ → Prop) : Prop where
  refl : ∀ d, Same d d
  trans : ∀ d d' d'', Same d d' → Same d' d'' → Same d d''
  perform : ∀ d d' a, Same d d' → Same (perform d a) (perform d' a)
  other : ∀ d d', Other d d' → Same d' d

variable {acts : γ → List α} {perform : σ → α → σ} {Other Same : σ → σ → Prop} {m m' m₀ : Shared σ τ γ α}
  {es fs : List (SpinEvent τ γ)} {d : σ}

@[simp] lemma taken_append : taken (es ++ fs) = taken es ++ taken fs := List.filterMap_append

@[simp] lemma sequential_append (d : σ) (cs : List γ) (c : γ) :
    sequential acts perform d (cs ++ [c]) = (acts c).foldl perform (sequential acts perform d cs) := by
  simp [sequential]

/-- At most one thread is behind the lock, every thread makes its calls one after the other, and the data are those
of the calls in the order of the lock, up to the actions that are left. -/
structure Shared.Inv [DecidableEq τ] (acts : γ → List α) (perform : σ → α → σ) (Same : σ → σ → Prop) (d : σ)
    (m : Shared σ τ γ α) (es : List (SpinEvent τ γ)) : Prop where
  alone : ∀ t u c c' rest rest', m.phase t = .inside c rest → m.phase u = .inside c' rest' → t = u
  lock : m.locked = true ↔ ∃ t c rest, m.phase t = .inside c rest
  calls : ∀ t, ∃ cs : List γ, ofThread t es = cs.flatMap (whole t) ++ begun t (m.phase t)
  free : m.locked = false → Same m.data (sequential acts perform d (taken es))
  held : ∀ t c rest, m.phase t = .inside c rest → ∃ first prev, acts c = first ++ rest ∧ taken es = prev ++ [c] ∧
    Same m.data (first.foldl perform (sequential acts perform d prev))

variable [DecidableEq τ]

lemma ofThread_append (t : τ) : ofThread t (es ++ fs) = ofThread t es ++ ofThread t fs := by
  unfold ofThread
  exact List.filter_append _ _

namespace Shared

@[simp] lemma goOn_data (t : τ) (ph : SpinPhase γ α) : (m.goOn t ph).data = m.data := rfl

@[simp] lemma goOn_locked (t : τ) (ph : SpinPhase γ α) : (m.goOn t ph).locked = m.locked := rfl

lemma goOn_phase_self (t : τ) (ph : SpinPhase γ α) : (m.goOn t ph).phase t = ph := Function.update_self _ _ _

lemma goOn_phase_of_ne {t u : τ} (ph : SpinPhase γ α) (h : u ≠ t) : (m.goOn t ph).phase u = m.phase u :=
  Function.update_of_ne h _ _

lemma Inv.idle (hv : Unseen perform Other Same) (d : σ) :
    Inv acts perform Same d (Shared.idle d : Shared σ τ γ α) [] where
  alone _ _ _ _ _ _ ht := by cases ht
  lock := ⟨fun h => (by cases h), fun ⟨_, _, _, ht⟩ => by cases ht⟩
  calls _ := ⟨[], rfl⟩
  free _ := hv.refl d
  held _ _ _ ht := by cases ht

/-- A step of one thread shows up in the calls of this thread only. -/
lemma Inv.calls_goOn (h : m.Inv acts perform Same d es) {t : τ} {ph : SpinPhase γ α}
    (hown : ∀ e ∈ fs, e.thread = t)
    (ht : ∀ cs : List γ, ∃ cs' : List γ,
      cs.flatMap (whole t) ++ begun t (m.phase t) ++ fs = cs'.flatMap (whole t) ++ begun t ph) (u : τ) :
    ∃ cs : List γ, ofThread u (es ++ fs) = cs.flatMap (whole u) ++ begun u ((m.goOn t ph).phase u) := by
  obtain ⟨cs, hcs⟩ := h.calls u
  by_cases hu : u = t
  · subst hu
    have hfs : ofThread u fs = fs := List.filter_eq_self.mpr fun e he => by simpa using hown e he
    obtain ⟨cs', hcs'⟩ := ht cs
    exact ⟨cs', by rw [ofThread_append, hcs, hfs, hcs', goOn_phase_self]⟩
  · have hfs : ofThread u fs = [] := by
      apply List.filter_eq_nil_iff.mpr
      intro e he
      have hne : e.thread ≠ u := fun heq => hu (heq.symm.trans (hown e he))
      simpa using hne
    exact ⟨cs, by rw [ofThread_append, hcs, hfs, List.append_nil, goOn_phase_of_ne ph hu]⟩

lemma goOn_inside {t u : τ} {ph : SpinPhase γ α} {c : γ} {rest : List α} :
    (m.goOn t ph).phase u = .inside c rest ↔ u = t ∧ ph = .inside c rest ∨ u ≠ t ∧ m.phase u = .inside c rest := by
  by_cases hu : u = t
  · subst hu
    rw [goOn_phase_self]
    simp
  · rw [goOn_phase_of_ne ph hu]
    simp [hu]

/-- Next to the thread behind the lock no other one gets there with its step. -/
lemma Inv.others_outside (h : m.Inv acts perform Same d es) {t u : τ} {ph : SpinPhase γ α} {c c' : γ}
    {rest rest' : List α} (hin : m.phase t = .inside c rest) (hu : (m.goOn t ph).phase u = .inside c' rest') :
    u = t ∧ ph = .inside c' rest' := by
  obtain hself | ⟨hne, hold⟩ := goOn_inside.mp hu
  · exact hself
  · exact absurd (h.alone u t c' c rest' rest hold hin) hne

/-- A step of a thread that stays in front of the lock. -/
lemma Inv.waits (h : m.Inv acts perform Same d es) {t : τ} {ph : SpinPhase γ α}
    (hold : ∀ c rest, m.phase t ≠ .inside c rest) (hnew : ∀ c rest, ph ≠ .inside c rest) (hfs : taken fs = [])
    (hown : ∀ e ∈ fs, e.thread = t) (hbegun : begun t (m.phase t) ++ fs = begun t ph) :
    (m.goOn t ph).Inv acts perform Same d (es ++ fs) := by
  have hinside : ∀ u c rest, (m.goOn t ph).phase u = .inside c rest ↔ m.phase u = .inside c rest := by
    intro u c rest
    rw [goOn_inside]
    constructor
    · rintro (⟨-, hph⟩ | ⟨-, hu⟩)
      · exact absurd hph (hnew c rest)
      · exact hu
    · intro hu
      exact Or.inr ⟨fun hut => hold c rest (hut ▸ hu), hu⟩
  have htaken : taken (es ++ fs) = taken es := by rw [taken_append, hfs, List.append_nil]
  constructor
  · intro t' u c c' rest rest' ht' hu
    exact h.alone t' u c c' rest rest' ((hinside t' c rest).mp ht') ((hinside u c' rest').mp hu)
  · simp only [goOn_locked, hinside]
    exact h.lock
  · exact h.calls_goOn hown fun cs => ⟨cs, by rw [List.append_assoc, hbegun]⟩
  · rw [goOn_locked, goOn_data, htaken]
    exact h.free
  · intro u c rest hu
    rw [goOn_data, htaken]
    exact h.held u c rest ((hinside u c rest).mp hu)

lemma Inv.call (h : m.Inv acts perform Same d es) {t : τ} (c : γ) (hout : m.phase t = .outside) :
    (m.goOn t (.trying c)).Inv acts perform Same d (es ++ [.call t c]) := by
  apply h.waits
  · exact fun c' rest hin => by rw [hout] at hin; cases hin
  · exact fun _ _ heq => by cases heq
  · rfl
  · simp [SpinEvent.thread]
  · rw [hout]
    rfl

/-- A thread that finds the lock taken begins to look at it. -/
lemma Inv.spins (h : m.Inv acts perform Same d es) {t : τ} {c : γ} (htry : m.phase t = .trying c) :
    (m.goOn t (.spinning c)).Inv acts perform Same d (es ++ []) := by
  apply h.waits
  · exact fun c' rest hin => by rw [htry] at hin; cases hin
  · exact fun _ _ heq => by cases heq
  · rfl
  · exact fun e he => by cases he
  · rw [htry]
    rfl

lemma Inv.look (h : m.Inv acts perform Same d es) {t : τ} {c : γ} (hspin : m.phase t = .spinning c) :
    (m.goOn t (if m.locked then .spinning c else .trying c)).Inv acts perform Same d (es ++ []) := by
  apply h.waits
  · exact fun c' rest hin => by rw [hspin] at hin; cases hin
  · intro c' rest heq
    split at heq <;> cases heq
  · rfl
  · exact fun e he => by cases he
  · rw [hspin]
    split <;> rfl

/-- The thread that takes the free lock finds the data of the calls before it. -/
lemma Inv.enters (h : m.Inv acts perform Same d es) {t : τ} {c : γ} (htry : m.phase t = .trying c)
    (hlocked : m.locked = false) :
    Inv acts perform Same d { m.goOn t (.inside c (acts c)) with locked := true } (es ++ [.take t c]) := by
  have hnone : ∀ u c' rest, m.phase u ≠ .inside c' rest := by
    intro u c' rest hu
    have htrue := h.lock.mpr ⟨u, c', rest, hu⟩
    rw [hlocked] at htrue
    cases htrue
  have honly : ∀ u c' rest, (m.goOn t (.inside c (acts c))).phase u = .inside c' rest →
      u = t ∧ SpinPhase.inside c (acts c) = .inside c' rest := by
    intro u c' rest hu
    obtain hself | ⟨-, hold⟩ := goOn_inside.mp hu
    · exact hself
    · exact absurd hold (hnone u c' rest)
  constructor
  · intro u u' c' c'' rest rest' hu hu'
    rw [(honly u c' rest hu).1, (honly u' c'' rest' hu').1]
  · exact ⟨fun _ => ⟨t, c, acts c, goOn_phase_self _ _⟩, fun _ => rfl⟩
  · apply h.calls_goOn
    · simp [SpinEvent.thread]
    · intro cs
      rw [htry]
      exact ⟨cs, by simp [begun]⟩
  · exact fun hfalse => by cases hfalse
  · intro u c' rest hu
    obtain ⟨-, ⟨⟩⟩ := honly u c' rest hu
    exact ⟨[], taken es, rfl, taken_append, h.free hlocked⟩

/-- The exchange leaves a taken lock as it is. -/
lemma Inv.exchange (h : m.Inv acts perform Same d es) {t : τ} {c : γ} (htry : m.phase t = .trying c) :
    Inv acts perform Same d
      { m.goOn t (if m.locked then .spinning c else .inside c (acts c)) with locked := true }
      (es ++ if m.locked then [] else [.take t c]) := by
  cases hlocked : m.locked with
  | true =>
    have hsame : { m.goOn t (.spinning c) with locked := true } = m.goOn t (.spinning c) := by
      rw [← hlocked]
      rfl
    rw [if_pos rfl, if_pos rfl, hsame]
    exact h.spins htry
  | false =>
    rw [if_neg Bool.false_ne_true, if_neg Bool.false_ne_true]
    exact h.enters htry hlocked

/-- The thread behind the lock performs the next action of its call. -/
lemma Inv.act (hv : Unseen perform Other Same) (h : m.Inv acts perform Same d es) {t : τ} {c : γ} {a : α}
    {rest : List α} (hin : m.phase t = .inside c (a :: rest)) :
    Inv acts perform Same d { m.goOn t (.inside c rest) with data := perform m.data a } (es ++ []) := by
  have hlocked : m.locked = true := h.lock.mpr ⟨t, c, a :: rest, hin⟩
  constructor
  · intro u u' c' c'' r r' hu hu'
    rw [(h.others_outside hin hu).1, (h.others_outside hin hu').1]
  · exact ⟨fun _ => ⟨t, c, rest, goOn_phase_self _ _⟩, fun _ => hlocked⟩
  · apply h.calls_goOn
    · exact fun e he => by cases he
    · intro cs
      rw [hin]
      exact ⟨cs, by simp [begun]⟩
  · intro hfalse
    rw [show m.locked = false from hfalse] at hlocked
    cases hlocked
  · intro u c' rest' hu
    obtain ⟨-, ⟨⟩⟩ := h.others_outside hin hu
    obtain ⟨first, prev, hacts, htaken, hdata⟩ := h.held t c (a :: rest) hin
    refine ⟨first ++ [a], prev, ?_, ?_, ?_⟩
    · rw [hacts, List.append_assoc, List.singleton_append]
    · rw [List.append_nil, htaken]
    · rw [List.foldl_append]
      exact hv.perform _ _ a hdata

/-- The thread that leaves the free lock has performed its call. -/
lemma Inv.unlock (h : m.Inv acts perform Same d es) {t : τ} {c : γ} (hin : m.phase t = .inside c []) :
    Inv acts perform Same d { m.goOn t .outside with locked := false } (es ++ [.ret t c]) := by
  have hnone : ∀ u c' rest, (m.goOn t .outside).phase u ≠ .inside c' rest := by
    intro u c' rest hu
    obtain ⟨-, ⟨⟩⟩ := h.others_outside hin hu
  constructor
  · exact fun u u' c' c'' r r' hu _ => absurd hu (hnone u c' r)
  · exact ⟨fun hfalse => (by cases hfalse), fun ⟨u, c', rest, hu⟩ => absurd hu (hnone u c' rest)⟩
  · apply h.calls_goOn
    · simp [SpinEvent.thread]
    · intro cs
      rw [hin]
      exact ⟨cs ++ [c], by simp [begun, whole]⟩
  · intro _
    obtain ⟨first, prev, hacts, htaken, hdata⟩ := h.held t c [] hin
    rw [List.append_nil] at hacts
    have hall : taken (es ++ [SpinEvent.ret t c]) = prev ++ [c] := by
      rw [taken_append, htaken]
      exact List.append_nil _
    rw [hall, sequential_append, hacts]
    exact hdata
  · exact fun u c' rest hu => absurd hu (hnone u c' rest)

/-- Other code changes nothing that the calls look at. -/
lemma Inv.other (hv : Unseen perform Other Same) (h : m.Inv acts perform Same d es) {d' : σ}
    (hd : Other m.data d') : Inv acts perform Same d { m with data := d' } (es ++ []) := by
  rw [List.append_nil]
  constructor
  · exact h.alone
  · exact h.lock
  · exact h.calls
  · exact fun hfree => hv.trans _ _ _ (hv.other _ _ hd) (h.free hfree)
  · intro t c rest hin
    obtain ⟨first, prev, hacts, htaken, hdata⟩ := h.held t c rest hin
    exact ⟨first, prev, hacts, htaken, hv.trans _ _ _ (hv.other _ _ hd) hdata⟩

lemma Inv.step (hv : Unseen perform Other Same) (h : m.Inv acts perform Same d es)
    (hs : m.Step acts perform Other fs m') : m'.Inv acts perform Same d (es ++ fs) := by
  cases hs with
  | call t c hout => exact h.call c hout
  | exchange t c htry => exact h.exchange htry
  | look t c hspin => exact h.look hspin
  | act t c a rest hin => exact h.act hv hin
  | unlock t c hin => exact h.unlock hin
  | other d' hd => exact h.other hv hd

/-- The calls take effect one after the other, in the order in which they take the lock. -/
theorem Inv.run (hv : Unseen perform Other Same) (h : m.Inv acts perform Same d es)
    (hr : Run acts perform Other m fs m') : m'.Inv acts perform Same d (es ++ fs) := by
  induction hr with
  | start =>
    rw [List.append_nil]
    exact h
  | next _ hs ih =>
    rw [← List.append_assoc]
    exact ih.step hv hs

lemma Run.trans (h : Run acts perform Other m es m') {m'' : Shared σ τ γ α} (h' : Run acts perform Other m' fs m'') :
    Run acts perform Other m (es ++ fs) m'' := by
  induction h' with
  | start =>
    rw [List.append_nil]
    exact h
  | next _ hs ih =>
    rw [← List.append_assoc]
    exact .next ih hs

lemma Run.single (h : m.Step acts perform Other fs m') : Run acts perform Other m fs m' := .next .start h

/-- The thread behind the lock can do what is left of its call. -/
lemma finishes (acts : γ → List α) (perform : σ → α → σ) (Other : σ → σ → Prop) {t : τ} {c : γ} {rest : List α}
    (h : m.phase t = .inside c rest) :
    ∃ m', Run acts perform Other m [.ret t c] m' ∧ m'.locked = false ∧ ∀ u ≠ t, m'.phase u = m.phase u := by
  induction rest generalizing m with
  | nil => exact ⟨_, .single (.unlock t c h), rfl, fun u hu => goOn_phase_of_ne _ hu⟩
  | cons a rest ih =>
    have hstep : m.Step acts perform Other [] _ := .act t c a rest h
    have hphase : ({ m.goOn t (.inside c rest) with data := perform m.data a } : Shared σ τ γ α).phase t =
        .inside c rest := goOn_phase_self _ _
    obtain ⟨m', hrun, hfree, hothers⟩ := ih hphase
    refine ⟨m', (Run.single hstep).trans hrun, hfree, fun u hu => ?_⟩
    rw [hothers u hu]
    exact goOn_phase_of_ne _ hu

/-- No call waits for ever on its own: from every state a thread can come to the end of its call. -/
theorem Inv.returns (h : m.Inv acts perform Same d es) {t : τ} (ht : m.phase t ≠ .outside) :
    ∃ fs m' c, Run acts perform Other m fs m' ∧ SpinEvent.ret t c ∈ fs := by
  -- The holder of the lock, when it is another thread, returns first.
  have hfree : (∃ c rest, m.phase t = .inside c rest) ∨ ∃ fs m', Run acts perform Other m fs m' ∧
      m'.locked = false ∧ m'.phase t = m.phase t := by
    cases hlocked : m.locked with
    | false => exact Or.inr ⟨[], m, .start, hlocked, rfl⟩
    | true =>
      obtain ⟨u, c, rest, hu⟩ := h.lock.mp hlocked
      by_cases hut : u = t
      · exact Or.inl ⟨c, rest, hut ▸ hu⟩
      · obtain ⟨m', hrun, hfree, hothers⟩ := finishes acts perform Other hu
        exact Or.inr ⟨_, m', hrun, hfree, hothers t (Ne.symm hut)⟩
  -- With the free lock it enters.
  have henter : ∀ m' : Shared σ τ γ α, ∀ c, m'.locked = false → m'.phase t = .trying c →
      ∃ fs m'', Run acts perform Other m' fs m'' ∧ SpinEvent.ret t c ∈ fs := by
    intro m' c hlocked htry
    have hstep : m'.Step acts perform Other _ _ := .exchange t c htry
    rw [hlocked] at hstep
    have hphase : ({ m'.goOn t (.inside c (acts c)) with locked := true } : Shared σ τ γ α).phase t =
        .inside c (acts c) := goOn_phase_self _ _
    obtain ⟨m'', hrun, -, -⟩ := finishes acts perform Other hphase
    exact ⟨_, m'', (Run.single hstep).trans hrun, by simp⟩
  obtain ⟨c, rest, hin⟩ | ⟨fs, m', hrun, hlocked, hphase⟩ := hfree
  · obtain ⟨m', hrun, -, -⟩ := finishes acts perform Other hin
    exact ⟨_, m', c, hrun, List.mem_singleton_self _⟩
  · cases hph : m.phase t with
    | outside => exact absurd hph ht
    | trying c =>
      obtain ⟨gs, m'', hrun', hret⟩ := henter m' c hlocked (hphase.trans hph)
      exact ⟨_, m'', c, hrun.trans hrun', List.mem_append_right _ hret⟩
    | spinning c =>
      have hstep : m'.Step acts perform Other [] _ := .look t c (hphase.trans hph)
      rw [hlocked, if_neg Bool.false_ne_true] at hstep
      obtain ⟨gs, m'', hrun', hret⟩ := henter (m'.goOn t (.trying c)) c hlocked (goOn_phase_self _ _)
      exact ⟨_, m'', c, (hrun.trans (Run.single hstep)).trans hrun', List.mem_append_right _ hret⟩
    | inside c rest =>
      obtain ⟨m'', hrun', -, -⟩ := finishes acts perform Other (hphase.trans hph)
      exact ⟨_, m'', c, hrun.trans hrun', List.mem_append_right _ (List.mem_singleton_self _)⟩

end Shared

end Order

end SBoy28.Lib
