import Mathlib.Data.Nat.Notation
import Mathlib.Logic.Function.Basic
import Mathlib.Logic.Nontrivial.Basic
import Mathlib.Tactic.Common

/-!
# Painting

An operation on pictures paints if it gives each point a value of its own or leaves it as it is,
whatever the picture was.
-/

namespace SBoy28.Lib

variable {P C : Type*} {f g h : (P → C) → P → C} {a b : C} {p : P}

def Paints (f : (P → C) → P → C) : Prop := ∀ p, (∃ c, ∀ buf, f buf p = c) ∨ ∀ buf, f buf p = buf p

namespace Paints

lemma id : Paints fun buf : P → C => buf := fun _ => Or.inr fun _ => rfl

lemma comp (hf : Paints f) (hg : Paints g) : Paints fun buf => g (f buf) := by
  intro p
  rcases hg p with ⟨c, hc⟩ | hkeep
  · exact Or.inl ⟨c, fun buf => hc (f buf)⟩
  · rcases hf p with ⟨c, hc⟩ | hkeep'
    · exact Or.inl ⟨c, fun buf => (hkeep (f buf)).trans (hc buf)⟩
    · exact Or.inr fun buf => (hkeep (f buf)).trans (hkeep' buf)

lemma update [DecidableEq P] (q : P) (c : C) : Paints fun buf => Function.update buf q c := by
  intro p
  by_cases hp : p = q
  · exact Or.inl ⟨c, fun buf => by simp [hp]⟩
  · exact Or.inr fun buf => Function.update_of_ne hp _ _

lemma foldl {α : Type*} {body : (P → C) → α → P → C} (h : ∀ x, Paints fun buf => body buf x) (l : List α) :
    Paints fun buf => l.foldl body buf := by
  induction l with
  | nil => exact id
  | cons x l ih => exact (h x).comp ih

end Paints

section Touched

/-- Some picture is changed at the point. -/
def Touches (f : (P → C) → P → C) (p : P) : Prop := ∃ buf, f buf p ≠ buf p

lemma not_touches_id : ¬Touches (fun buf : P → C => buf) p := fun ⟨_, h⟩ => h rfl

variable [Nontrivial C]

/-- A second coat does not undo the first one in every picture. -/
lemma Paints.touches_comp (hg : Paints g) (f : (P → C) → P → C) :
    Touches (fun buf => g (f buf)) p ↔ Touches f p ∨ Touches g p := by
  rcases hg p with ⟨c, hc⟩ | hkeep
  · obtain ⟨d, hd⟩ := exists_ne c
    have hg' : Touches g p := ⟨fun _ => d, (hc _).trans_ne hd.symm⟩
    have hall : Touches (fun buf => g (f buf)) p := ⟨fun _ => d, (hc _).trans_ne hd.symm⟩
    exact iff_of_true hall (Or.inr hg')
  · have hg' : ¬Touches g p := fun ⟨buf, h⟩ => h (hkeep buf)
    rw [or_iff_left hg']
    simp only [Touches, hkeep]

lemma touches_update [DecidableEq P] (q : P) (c : C) : Touches (fun buf => Function.update buf q c) p ↔ p = q := by
  constructor
  · rintro ⟨buf, h⟩
    by_contra hp
    exact h (Function.update_of_ne hp _ _)
  · rintro rfl
    obtain ⟨d, hd⟩ := exists_ne c
    exact ⟨fun _ => d, (Function.update_self _ _ _).trans_ne hd.symm⟩

lemma touches_foldl {α : Type*} {body : (P → C) → α → P → C} (h : ∀ x, Paints fun buf => body buf x) (l : List α) :
    Touches (fun buf => l.foldl body buf) p ↔ ∃ x ∈ l, Touches (fun buf => body buf x) p := by
  induction l with
  | nil => simpa using not_touches_id
  | cons x l ih =>
    have hstep := (Paints.foldl h l).touches_comp (fun buf => body buf x) (p := p)
    simp only [List.foldl_cons, hstep, ih, List.mem_cons, exists_eq_or_imp]

end Touched

section Fills

/-- It paints in one colour only. -/
def Fills (c : C) (f : (P → C) → P → C) : Prop := ∀ p, (∀ buf, f buf p = c) ∨ ∀ buf, f buf p = buf p

namespace Fills

variable {c : C}

lemma id : Fills c fun buf : P → C => buf := fun _ => Or.inr fun _ => rfl

lemma comp (hf : Fills c f) (hg : Fills c g) : Fills c fun buf => g (f buf) := by
  intro p
  cases hg p with
  | inl hpaint => exact Or.inl fun buf => hpaint (f buf)
  | inr hkeep =>
    simp only [hkeep]
    exact hf p

lemma update [DecidableEq P] (q : P) : Fills c fun buf => Function.update buf q c := by
  intro p
  by_cases hp : p = q
  · exact Or.inl fun buf => by simp [hp]
  · exact Or.inr fun buf => Function.update_of_ne hp _ _

lemma foldl {α : Type*} {body : (P → C) → α → P → C} (h : ∀ x, Fills c fun buf => body buf x) (l : List α) :
    Fills c fun buf => l.foldl body buf := by
  induction l with
  | nil => exact id
  | cons x l ih => exact (h x).comp ih

/-- What it touches has the colour afterwards, also where it had it before. -/
theorem eq_of_touches (hf : Fills c f) (h : Touches f p) (buf : P → C) : f buf p = c := by
  cases hf p with
  | inl hpaint => exact hpaint buf
  | inr hkeep =>
    obtain ⟨buf', hne⟩ := h
    exact absurd (hkeep buf') hne

end Fills

lemma eq_of_not_touches (h : ¬Touches f p) (buf : P → C) : f buf p = buf p := by
  by_contra hne
  exact h ⟨buf, hne⟩

end Fills

section Coats

variable [DecidableEq C]

/-- What is painted at a point, found out with two different pictures. -/
def painted (a b : C) (f : (P → C) → P → C) (p : P) : Option C :=
  if f (fun _ => a) p = f (fun _ => b) p then some (f (fun _ => a) p) else none

lemma Paints.painted_some (hf : Paints f) (hab : a ≠ b) {c : C} :
    painted a b f p = some c ↔ ∀ buf, f buf p = c := by
  rcases hf p with ⟨c', hc⟩ | hkeep
  · rw [painted, hc, hc, if_pos rfl, Option.some.injEq]
    exact ⟨fun he buf => (hc buf).trans he, fun hall => (hc _).symm.trans (hall fun _ => a)⟩
  · rw [painted, hkeep, hkeep, if_neg hab]
    refine ⟨fun hc => (by cases hc), fun hall => absurd ?_ hab⟩
    have hc : a = c := (hkeep fun _ => a).symm.trans (hall _)
    exact hc.trans ((hall fun _ => b).symm.trans (hkeep _))

lemma Paints.painted_none (hf : Paints f) (hab : a ≠ b) : painted a b f p = none ↔ ∀ buf, f buf p = buf p := by
  rcases hf p with ⟨c, hc⟩ | hkeep
  · rw [painted, hc, hc, if_pos rfl]
    refine ⟨fun hn => (by cases hn), fun hall => absurd ?_ hab⟩
    have hc' : a = c := (hall fun _ => a).symm.trans (hc _)
    exact hc'.trans ((hc fun _ => b).symm.trans (hall _))
  · rw [painted, hkeep, hkeep, if_neg hab]
    exact ⟨fun _ => hkeep, fun _ => rfl⟩

/-- Painting over a picture gives the same as painting afresh, just if what was painted before and
is not painted now looked like the ground. -/
lemma Paints.again_iff (hf : Paints f) (hg : Paints g) (hab : a ≠ b) (ground : P → C) : g (f ground) = g ground ↔
    ∀ p c, painted a b f p = some c → painted a b g p = none → c = ground p := by
  constructor
  · intro heq p c hc hn
    have hkeep := (hg.painted_none hab).mp hn
    rw [← (hf.painted_some hab).mp hc ground, ← hkeep (f ground), heq, hkeep]
  · intro hall
    funext p
    rcases hg p with ⟨c, hc⟩ | hkeep
    · rw [hc, hc]
    · rw [hkeep, hkeep]
      rcases hf p with ⟨c, hc⟩ | hkeep'
      · rw [hc, hall p c ((hf.painted_some hab).mpr hc) ((hg.painted_none hab).mpr hkeep)]
      · exact hkeep' ground

/-- Painting one coat last instead of in its place gives the same, just if the later coats do not
hide it. -/
lemma Paints.last_iff (hf : Paints f) (hg : Paints g) (hh : Paints h) (hab : a ≠ b) (ground : P → C) :
    h (g (f ground)) = g (h (f ground)) ↔
    ∀ p c, painted a b h p = some c → painted a b (fun buf => g (h (f buf))) p = some c := by
  have hall := (hf.comp hh).comp hg
  constructor
  · intro heq p c hc
    have hover := (hh.painted_some hab).mp hc
    rw [hall.painted_some hab]
    rcases hg p with ⟨c', hc'⟩ | hkeep
    · intro buf
      rw [hc', ← hc' (h (f ground)), ← heq, hover]
    · intro buf
      rw [hkeep, hover]
  · intro hshow
    funext p
    rcases hh p with ⟨c, hc⟩ | hkeep
    · rw [hc, (hall.painted_some hab).mp (hshow p c ((hh.painted_some hab).mpr hc)) ground]
    · rw [hkeep]
      rcases hg p with ⟨c, hc⟩ | hkeep'
      · rw [hc, hc]
      · rw [hkeep', hkeep', hkeep]

end Coats

end SBoy28.Lib
