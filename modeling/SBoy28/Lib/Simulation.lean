import Mathlib.Tactic.Common

/-!
# Traces and simulations

A system takes labelled steps, and the labels are what can be seen of it from outside. A
relation that every step preserves turns the traces of one system into traces of another.
-/

namespace SBoy28.Lib

variable {σ τ Label : Type*}

/-- The steps with these labels lead from one state to another. -/
def Trace (step : σ → Label → σ → Prop) : σ → List Label → σ → Prop
  | s, [], s' => s = s'
  | s, l :: t, s' => ∃ m, step s l m ∧ Trace step m t s'

variable {step : σ → Label → σ → Prop} {s s' : σ} {l : Label} {t t' : List Label}

@[simp] lemma trace_nil : Trace step s [] s' ↔ s = s' := Iff.rfl

@[simp] lemma trace_cons : Trace step s (l :: t) s' ↔ ∃ m, step s l m ∧ Trace step m t s' := Iff.rfl

lemma trace_append : Trace step s (t ++ t') s' ↔ ∃ m, Trace step s t m ∧ Trace step m t' s' := by
  induction t generalizing s with
  | nil => simp
  | cons l t ih =>
    simp only [List.cons_append, trace_cons, ih]
    constructor
    · rintro ⟨m, hs, n, ht, ht'⟩
      exact ⟨n, ⟨m, hs, ht⟩, ht'⟩
    · rintro ⟨n, ⟨m, hs, ht⟩, ht'⟩
      exact ⟨m, hs, n, ht, ht'⟩

/-- The traces of a system whose step is a function. -/
lemma trace_foldlM {f : σ → Label → Option σ} :
    Trace (fun s l s' => f s l = some s') s t s' ↔ t.foldlM f s = some s' := by
  induction t generalizing s with
  | nil => simp [pure]
  | cons l t ih => simp [ih, bind, Option.bind_eq_some_iff]

/-- What every step preserves holds at the end of a trace. -/
theorem Trace.invariant {I : σ → Prop} (hstep : ∀ {s l s'}, I s → step s l s' → I s')
    (ht : Trace step s t s') (hi : I s) : I s' := by
  induction t generalizing s with
  | nil => exact trace_nil.mp ht ▸ hi
  | cons l t ih =>
    obtain ⟨m, hs, ht⟩ := trace_cons.mp ht
    exact ih ht (hstep hi hs)

/-- A simulation carries traces over. -/
theorem Trace.simulate {astep : τ → Label → τ → Prop} {R : σ → τ → Prop} {a : τ}
    (hstep : ∀ {s a l s'}, R s a → step s l s' → ∃ a', astep a l a' ∧ R s' a')
    (ht : Trace step s t s') (hr : R s a) : ∃ a', Trace astep a t a' ∧ R s' a' := by
  induction t generalizing s a with
  | nil => exact ⟨a, rfl, trace_nil.mp ht ▸ hr⟩
  | cons l t ih =>
    obtain ⟨m, hs, ht⟩ := trace_cons.mp ht
    obtain ⟨b, hb, hr⟩ := hstep hr hs
    obtain ⟨a', ha, hr'⟩ := ih ht hr
    exact ⟨a', ⟨b, hb, ha⟩, hr'⟩

section Throughout

/-- Every step of the run with these labels is taken in a state and with a label related by `P`. -/
def Throughout (step : σ → Label → σ → Prop) (P : σ → Label → Prop) : σ → List Label → Prop
  | _, [] => True
  | s, l :: t => P s l ∧ ∀ m, step s l m → Throughout step P m t

variable {P Q : σ → Label → Prop} {I J : σ → Prop}

@[simp] lemma throughout_nil : Throughout step P s [] ↔ True := Iff.rfl

@[simp] lemma throughout_cons :
    Throughout step P s (l :: t) ↔ P s l ∧ ∀ m, step s l m → Throughout step P m t := Iff.rfl

/-- An invariant of the steps that satisfy `Q` holds at the end of a run of such steps. -/
theorem Trace.invariant_throughout (hstep : ∀ {s l s'}, I s → Q s l → step s l s' → I s')
    (hq : Throughout step Q s t) (ht : Trace step s t s') (hi : I s) : I s' := by
  induction t generalizing s with
  | nil => exact trace_nil.mp ht ▸ hi
  | cons l t ih =>
    obtain ⟨m, hs, ht⟩ := trace_cons.mp ht
    exact ih (hq.2 m hs) ht (hstep hi hq.1 hs)

/-- If a step of a deterministic system keeps `J` just if it satisfies `P`, and nothing restores
`J`, then a run ends in `J` just if all its steps satisfy `P`. -/
theorem Trace.throughout_iff (hdet : ∀ {s l m m'}, step s l m → step s l m' → m = m')
    (hstep : ∀ {s l s'}, I s → Q s l → step s l s' → I s' ∧ (J s' ↔ J s ∧ P s l))
    (hq : Throughout step Q s t) (ht : Trace step s t s') (hi : I s) :
    J s' ↔ J s ∧ Throughout step P s t := by
  induction t generalizing s with
  | nil =>
    rw [trace_nil.mp ht]
    simp
  | cons l t ih =>
    obtain ⟨m, hs, ht⟩ := trace_cons.mp ht
    obtain ⟨hi', hj⟩ := hstep hi hq.1 hs
    rw [ih (hq.2 m hs) ht hi', hj, throughout_cons, and_assoc]
    refine and_congr_right fun _ => and_congr_right fun _ => ?_
    constructor
    · intro hm m' hs'
      exact hdet hs hs' ▸ hm
    · intro hall
      exact hall m hs

end Throughout

section Checked

variable {f : σ → Label → Option σ} {P : σ → Label → Prop} {check : σ → Label → Bool}

end Checked

section States

variable {f : σ → Label → σ} {P : σ → Label → Prop} {I J : σ → Prop}

end States

end SBoy28.Lib
