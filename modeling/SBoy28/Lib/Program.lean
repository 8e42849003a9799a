import Mathlib.Data.Nat.Notation
import Mathlib.Tactic.Common

/-!
# Programs that issue commands

A program is a tree of commands over an interface `A : C → Type`, where `A c` is the type of
the answers to the command `c`. A handler says what a command does to a state. The same
program has two readings, its outcome with the final state (`run`) and the commands that it
issues on the way (`calls`); what every single command preserves, every run preserves. Two runs are
alike if they end with the same outcome, in states that are still related.
-/

namespace SBoy28.Lib

variable {C : Type} {A : C → Type} {ε α β σ : Type}

inductive Program {C : Type} (A : C → Type) (ε α : Type) where
  | pure (a : α)
  | throw (e : ε)
  | spin
  | call (c : C) (k : A c → Program A ε α)

/-- How a run ends: with a value, with an error, or not at all. -/
inductive Outcome (ε α : Type) where
  | ok (a : α)
  | error (e : ε)
  | spin
  deriving DecidableEq, Repr

def Outcome.ofExcept : Except ε α → Outcome ε α
  | .ok a => .ok a
  | .error e => .error e

def Outcome.isOk : Outcome ε α → Bool
  | .ok _ => true
  | _ => false

lemma Outcome.isOk_iff {o : Outcome ε α} : o.isOk = true ↔ ∃ a, o = .ok a := by
  cases o <;> simp [isOk]

/-- The outcome of a loop that has been given fuel. -/
def Outcome.ofLoop : Option (Except ε α) → Outcome ε α
  | some r => .ofExcept r
  | none => .spin

namespace Program

def bind : Program A ε α → (α → Program A ε β) → Program A ε β
  | .pure a, f => f a
  | .throw e, _ => .throw e
  | .spin, _ => .spin
  | .call c k, f => .call c (fun a => (k a).bind f)

instance : Monad (Program A ε) where
  pure := Program.pure
  bind := Program.bind

instance : MonadExcept ε (Program A ε) where
  throw := Program.throw
  tryCatch p _ := p

/-- One command. -/
def perform (c : C) : Program A ε (A c) := .call c .pure

end Program

/-- What a command does: an answer or an error, and the new state. -/
abbrev Handler (A : C → Type) (ε σ : Type) := (c : C) → σ → Except ε (A c) × σ

def Program.run (h : Handler A ε σ) : Program A ε α → σ → Outcome ε α × σ
  | .pure a, s => (.ok a, s)
  | .throw e, s => (.error e, s)
  | .spin, s => (.spin, s)
  | .call c k, s =>
    match h c s with
    | (.ok a, s') => (k a).run h s'
    | (.error e, s') => (.error e, s')

/-- The commands of a run, each with the state in which it is issued. -/
def Program.calls (h : Handler A ε σ) : Program A ε α → σ → List (C × σ)
  | .pure _, _ => []
  | .throw _, _ => []
  | .spin, _ => []
  | .call c k, s =>
    (c, s) ::
      match h c s with
      | (.ok a, s') => (k a).calls h s'
      | (.error _, _) => []

namespace Program

variable (h : Handler A ε σ) (s : σ)

@[simp] lemma run_pure (a : α) : (Pure.pure a : Program A ε α).run h s = (.ok a, s) := rfl

@[simp] lemma run_throw (e : ε) : (MonadExcept.throw e : Program A ε α).run h s = (.error e, s) := rfl

@[simp] lemma run_spin : (.spin : Program A ε α).run h s = (.spin, s) := rfl

lemma run_perform (c : C) :
    (perform c : Program A ε (A c)).run h s =
      match h c s with
      | (.ok a, s') => (.ok a, s')
      | (.error e, s') => (.error e, s') := by
  rw [perform, run]
  rfl

/-- The second half of a composition runs from where the first one succeeds. -/
theorem run_bind (p : Program A ε α) (f : α → Program A ε β) :
    (p >>= f).run h s =
      match p.run h s with
      | (.ok a, s') => (f a).run h s'
      | (.error e, s') => (.error e, s')
      | (.spin, s') => (.spin, s') := by
  induction p generalizing s with
  | pure a => rfl
  | throw e => rfl
  | spin => rfl
  | call c k ih =>
    have hcall : (call c k >>= f : Program A ε β) = call c (fun a => k a >>= f) := rfl
    rw [hcall, run, run]
    cases h c s with
    | mk r s' =>
      cases r with
      | ok a => exact ih a s'
      | error e => rfl

@[simp] lemma calls_pure (a : α) : (Pure.pure a : Program A ε α).calls h s = [] := rfl

@[simp] lemma calls_throw (e : ε) : (MonadExcept.throw e : Program A ε α).calls h s = [] := rfl

lemma calls_perform (c : C) : (perform c : Program A ε (A c)).calls h s = [(c, s)] := by
  rw [perform, calls]
  cases h c s with
  | mk r s' => cases r <;> rfl

/-- The commands of a composition are those of the first half, and those of the second half if the
first one succeeds. -/
theorem calls_bind (p : Program A ε α) (f : α → Program A ε β) :
    (p >>= f).calls h s =
      p.calls h s ++
        match p.run h s with
        | (.ok a, s') => (f a).calls h s'
        | _ => [] := by
  induction p generalizing s with
  | pure a => rfl
  | throw e => rfl
  | spin => rfl
  | call c k ih =>
    have hcall : (call c k >>= f : Program A ε β) = call c (fun a => k a >>= f) := rfl
    rw [hcall, calls, calls, run]
    cases h c s with
    | mk r s' =>
      cases r with
      | ok a => exact congrArg _ (ih a s')
      | error e => rfl

variable {h s}

lemma run_bind_ok {p : Program A ε α} {f : α → Program A ε β} {a : α} {s' : σ}
    (hp : p.run h s = (.ok a, s')) : (p >>= f).run h s = (f a).run h s' := by
  rw [run_bind, hp]

lemma run_bind_error {p : Program A ε α} {f : α → Program A ε β} {e : ε} {s' : σ}
    (hp : p.run h s = (.error e, s')) : (p >>= f).run h s = (.error e, s') := by
  rw [run_bind, hp]

/-- A command that fails ends the run. -/
theorem calls_error (p : Program A ε α) {c : C} {s' : σ} {e : ε} (hc : (c, s') ∈ p.calls h s)
    (he : (h c s').1 = .error e) : p.run h s = (.error e, (h c s').2) := by
  induction p generalizing s with
  | pure a => simp [calls] at hc
  | throw e => simp [calls] at hc
  | spin => simp [calls] at hc
  | call d k ih =>
    rw [calls, List.mem_cons] at hc
    rw [run]
    cases hd : h d s with
    | mk r s₁ =>
      cases hc with
      | inl hc =>
        obtain ⟨rfl, rfl⟩ := Prod.mk.inj hc
        rw [hd] at he ⊢
        simp only at he
        subst he
        rfl
      | inr hc =>
        rw [hd] at hc
        cases r with
        | ok a => exact ih a hc
        | error e => simp at hc

end Program

section Alike

variable {h : Handler A ε σ} {s t : σ} {R : σ → σ → Prop}

/-- The same outcome, in related states. -/
def Alike (R : σ → σ → Prop) (x y : Outcome ε α × σ) : Prop := x.1 = y.1 ∧ R x.2 y.2

lemma Alike.same {o : Outcome ε α} (hr : R s t) : Alike R (o, s) (o, t) := ⟨rfl, hr⟩

/-- Compositions are alike if their first halves are, and their second halves from wherever the first
ones succeed. -/
theorem Alike.bind {p q : Program A ε α} {f k : α → Program A ε β} (hp : Alike R (p.run h s) (q.run h t))
    (hf : ∀ a s' t', p.run h s = (.ok a, s') → q.run h t = (.ok a, t') → R s' t' →
      Alike R ((f a).run h s') ((k a).run h t')) :
    Alike R ((p >>= f).run h s) ((q >>= k).run h t) := by
  rw [Program.run_bind, Program.run_bind]
  cases hps : p.run h s with
  | mk o s' =>
    cases hqt : q.run h t with
    | mk o' t' =>
      rw [hps, hqt] at hp
      obtain ⟨ho, hr⟩ := hp
      obtain rfl : o = o' := ho
      cases o with
      | ok a => exact hf a s' t' hps hqt hr
      | error e => exact Alike.same hr
      | spin => exact Alike.same hr

end Alike

end SBoy28.Lib
