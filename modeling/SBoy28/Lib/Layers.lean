import SBoy28.Lib.Painting

/-!
# Layers

A layer has a value at some points and nothing at the others. A pile of layers over a picture shows at each point
the value of the topmost layer that has one there, and the picture where there is none.
-/

namespace SBoy28.Lib

variable {P C : Type*} {f g : (P → C) → P → C} {pile pile' : List (P → Option C)} {ground ground' : P → C} {c : C}
  {p : P}

/-- What a pile of layers shows, the top layer first. -/
def overlay (ground : P → C) (pile : List (P → Option C)) (p : P) : C :=
  (pile.findSome? fun layer => layer p).getD (ground p)

@[simp] lemma overlay_nil (ground : P → C) (p : P) : overlay ground [] p = ground p := rfl

lemma overlay_cons (ground : P → C) (layer : P → Option C) (pile : List (P → Option C)) (p : P) :
    overlay ground (layer :: pile) p = (layer p).getD (overlay ground pile p) := by
  unfold overlay
  rw [List.findSome?_cons]
  cases layer p <;> rfl

/-- The upper part of a pile lies on what the lower part shows. -/
lemma overlay_append (ground : P → C) (pile pile' : List (P → Option C)) :
    overlay ground (pile' ++ pile) = overlay (overlay ground pile) pile' := by
  funext p
  induction pile' with
  | nil => rfl
  | cons layer pile' ih => rw [List.cons_append, overlay_cons, overlay_cons, ih]

lemma overlay_ground (h : ∀ layer ∈ pile, layer p = none) : overlay ground pile p = ground p := by
  unfold overlay
  rw [List.findSome?_eq_none_iff.mpr h]
  rfl

/-- One layer decides what is seen at a point if the layers above it and below it are empty there. -/
lemma overlay_single {above below : List (P → Option C)} (layer : P → Option C)
    (habove : ∀ layer ∈ above, layer p = none) (hbelow : ∀ layer ∈ below, layer p = none) :
    overlay ground (above ++ layer :: below) p = (layer p).getD (ground p) := by
  rw [overlay_append, overlay_ground habove, overlay_cons, overlay_ground hbelow]

/-- Nothing of the ground is seen where some layer is not empty. -/
lemma overlay_covered (h : ∃ layer ∈ pile, (layer p).isSome) : overlay ground pile p = overlay ground' pile p := by
  obtain ⟨layer, hmem, hsome⟩ := h
  unfold overlay
  cases hfind : pile.findSome? fun layer => layer p with
  | some c => rfl
  | none =>
    rw [List.findSome?_eq_none_iff.mp hfind layer hmem] at hsome
    exact absurd hsome Bool.false_ne_true

/-- An operation on pictures that puts a pile of layers on them. -/
def Piles (f : (P → C) → P → C) (pile : List (P → Option C)) : Prop := ∀ ground, f ground = overlay ground pile

namespace Piles

lemma id : Piles (fun buf : P → C => buf) [] := fun _ => rfl

lemma comp (hf : Piles f pile) (hg : Piles g pile') : Piles (fun buf => g (f buf)) (pile' ++ pile) := by
  intro ground
  rw [overlay_append, ← hf, ← hg]

end Piles

/-- An operation that fills in one colour puts on one layer. -/
lemma Fills.piles (hf : Fills c f) {part : P → Prop} [DecidablePred part] (h : ∀ p, Touches f p ↔ part p) :
    Piles f [fun p => if part p then some c else none] := by
  intro ground
  funext p
  rw [overlay_cons, overlay_nil]
  by_cases hp : part p
  · rw [if_pos hp]
    exact hf.eq_of_touches ((h p).mpr hp) ground
  · rw [if_neg hp]
    exact eq_of_not_touches (mt (h p).mp hp) ground

end SBoy28.Lib
