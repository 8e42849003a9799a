import SBoy28.Lib.Linked
import Mathlib.Data.List.Basic

/-!
# Intrusive first-in first-out queues

A queue is a head and a tail pointer into nodes that carry their own link. Several queues
share one link per node, so every lemma says which links an operation changes.
-/

namespace SBoy28.Lib

variable {α : Type*} {next next' : α → Option α}

/-- Head and tail delimit the chain `l`. -/
def IsQueue (next : α → Option α) (head tail : Option α) (l : List α) : Prop :=
  Linked next head l ∧ tail = l.getLast?

lemma isQueue_nil : IsQueue next none none ([] : List α) := ⟨rfl, rfl⟩

lemma IsQueue.head {head tail : Option α} {l : List α} (h : IsQueue next head tail l) :
    head = l.head? := h.1.head

lemma IsQueue.nodup {head tail : Option α} {l : List α} (h : IsQueue next head tail l) :
    l.Nodup := h.1.nodup

lemma IsQueue.congr {head tail : Option α} {l : List α} (h : IsQueue next head tail l)
    (he : ∀ a ∈ l, next' a = next a) : IsQueue next' head tail l :=
  ⟨h.1.congr he, h.2⟩

lemma isQueue_singleton {t : α} (ht : next t = none) : IsQueue next (some t) (some t) [t] :=
  ⟨⟨rfl, ht⟩, rfl⟩

/-- Linking a node behind the tail appends it. -/
theorem IsQueue.push {head : Option α} {l : List α} {t u : α}
    (h : IsQueue next head (some u) l) (ht : next' t = none) (hu : next' u = some t)
    (he : ∀ a ∈ l, a ≠ u → next' a = next a) : IsQueue next' head (some t) (l ++ [t]) := by
  obtain ⟨l', rfl⟩ := List.getLast?_eq_some_iff.mp h.2.symm
  have hnd := h.nodup
  refine ⟨?_, by simp⟩
  rw [List.append_assoc, List.singleton_append]
  apply h.1.snoc ht hu
  intro a ha
  refine he a (by simp [ha]) ?_
  rintro rfl
  simp only [List.nodup_append, List.mem_singleton] at hnd
  exact hnd.2.2 a ha a rfl rfl

/-- Taking the head off. -/
theorem IsQueue.pop {t : α} {tail : Option α} {l : List α}
    (h : IsQueue next (some t) tail l) :
    ∃ rest, l = t :: rest ∧ IsQueue next (next t) (if next t = none then none else tail) rest := by
  obtain ⟨rest, rfl, hr⟩ := h.1.exists_cons
  refine ⟨rest, rfl, hr, ?_⟩
  cases rest with
  | nil =>
    rw [if_pos (show next t = none from hr)]
    rfl
  | cons a rest =>
    have hne : next t ≠ none := by
      rw [hr.head]
      simp
    rw [if_neg hne, h.2, List.getLast?_cons_cons]

end SBoy28.Lib
