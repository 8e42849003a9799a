import SBoy28.Lib.Program

/-!
# Programs that only ask

The commands of a program may be questions to something that does not change. Then a run is
determined by the answers, and it is safe if the program ends normally and all its questions are
allowed ones.
-/

namespace SBoy28.Lib

variable {C : Type} {A : C → Type} {ε α β : Type}

/-- The handler that gives these answers. -/
def oracle (answer : (c : C) → A c) : Handler A ε Unit := fun c s => (.ok (answer c), s)

namespace Program

variable (answer : (c : C) → A c)

def outcome (p : Program A ε α) : Outcome ε α := (p.run (oracle answer) ()).1

/-- The questions of a run, in their order. -/
def asked (p : Program A ε α) : List C := (p.calls (oracle answer) ()).map Prod.fst

@[simp] lemma outcome_pure (a : α) : (Pure.pure a : Program A ε α).outcome answer = .ok a := rfl

@[simp] lemma outcome_throw (e : ε) : (MonadExcept.throw e : Program A ε α).outcome answer = .error e := rfl

@[simp] lemma outcome_spin : (spin : Program A ε α).outcome answer = .spin := rfl

@[simp] lemma asked_pure (a : α) : (Pure.pure a : Program A ε α).asked answer = [] := rfl

@[simp] lemma outcome_perform (c : C) : (perform c : Program A ε (A c)).outcome answer = .ok (answer c) := by
  simp only [outcome, run_perform, oracle]

@[simp] lemma asked_perform (c : C) : (perform c : Program A ε (A c)).asked answer = [c] := by
  simp only [asked, calls_perform, List.map_cons, List.map_nil]

variable {answer} {p : Program A ε α} {f : α → Program A ε β} {a : α}

lemma outcome_bind (h : p.outcome answer = .ok a) : (p >>= f).outcome answer = (f a).outcome answer := by
  rw [outcome] at h
  rw [outcome, run_bind]
  cases hr : p.run (oracle answer) () with
  | mk o s =>
    rw [hr] at h
    simp only at h
    subst h
    rfl

lemma asked_bind (h : p.outcome answer = .ok a) :
    (p >>= f).asked answer = p.asked answer ++ (f a).asked answer := by
  rw [outcome] at h
  rw [asked, calls_bind, List.map_append]
  cases hr : p.run (oracle answer) () with
  | mk o s =>
    rw [hr] at h
    simp only at h
    subst h
    rfl

/-- The program ends normally, and all its questions are allowed. -/
structure Safe (answer : (c : C) → A c) (P : C → Prop) (p : Program A ε α) : Prop where
  ends : ∃ a, p.outcome answer = .ok a
  allowed : ∀ c ∈ p.asked answer, P c

variable {P : C → Prop}

lemma safe_pure (a : α) : Safe answer P (Pure.pure a : Program A ε α) := ⟨⟨a, rfl⟩, by simp⟩

lemma not_safe_spin : ¬Safe answer P (spin : Program A ε α) := by
  rintro ⟨⟨a, ha⟩, -⟩
  cases ha

/-- A composition whose first half ends normally. -/
theorem safe_bind (h : p.outcome answer = .ok a) :
    Safe answer P (p >>= f) ↔ (∀ c ∈ p.asked answer, P c) ∧ Safe answer P (f a) := by
  constructor
  · rintro ⟨⟨b, hb⟩, hall⟩
    rw [outcome_bind h] at hb
    rw [asked_bind h] at hall
    exact ⟨fun c hc => hall c (List.mem_append_left _ hc),
      ⟨b, hb⟩, fun c hc => hall c (List.mem_append_right _ hc)⟩
  · rintro ⟨hp, ⟨b, hb⟩, hf⟩
    refine ⟨⟨b, (outcome_bind h).trans hb⟩, ?_⟩
    rw [asked_bind h]
    intro c hc
    rcases List.mem_append.mp hc with hc | hc
    · exact hp c hc
    · exact hf c hc

lemma outcome_bind_error {e : ε} (h : p.outcome answer = .error e) : (p >>= f).outcome answer = .error e := by
  rw [outcome] at h
  rw [outcome, run_bind]
  cases hr : p.run (oracle answer) () with
  | mk o s =>
    rw [hr] at h
    simp only at h
    subst h
    rfl

lemma outcome_bind_spin (h : p.outcome answer = .spin) : (p >>= f).outcome answer = .spin := by
  rw [outcome] at h
  rw [outcome, run_bind]
  cases hr : p.run (oracle answer) () with
  | mk o s =>
    rw [hr] at h
    simp only at h
    subst h
    rfl

lemma not_safe_bind {e : ε} (h : p.outcome answer = .error e) : ¬Safe answer P (p >>= f) := by
  rintro ⟨⟨b, hb⟩, -⟩
  rw [outcome_bind_error h] at hb
  cases hb

/-- A composition whose second half is always safe. -/
lemma safe_bind_iff (hf : ∀ a, Safe answer P (f a)) : Safe answer P (p >>= f) ↔ Safe answer P p := by
  cases ho : p.outcome answer with
  | ok a =>
    rw [safe_bind ho, and_iff_left (hf a)]
    exact ⟨fun h => ⟨⟨a, ho⟩, h⟩, fun h => h.allowed⟩
  | error e =>
    refine iff_of_false (not_safe_bind ho) ?_
    rintro ⟨⟨a, ha⟩, -⟩
    rw [ho] at ha
    cases ha
  | spin =>
    constructor
    · rintro ⟨⟨b, hb⟩, -⟩
      rw [outcome_bind_spin ho] at hb
      cases hb
    · rintro ⟨⟨a, ha⟩, -⟩
      rw [ho] at ha
      cases ha

end Program

end SBoy28.Lib
