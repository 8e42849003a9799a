import Mathlib.Data.List.Basic

/-!
# First come, first served

A waiting line is served at the front and grows at the back. Whatever arrives in the meantime, and also if
what was served goes to the back again, the members of the line at the start are served first, and in their
order.
-/

namespace SBoy28.Lib

variable {α : Type*} {q q' d l : List α} {a : α} {i : ℕ}

/-- From the line `q`, after the members `d` were served, the line is `q'`. -/
inductive Fifo (q : List α) : List α → List α → Prop where
  | refl : Fifo q [] q
  | arrive {d q' : List α} (l : List α) (h : Fifo q d q') : Fifo q d (q' ++ l)
  | serve {d q' : List α} {a : α} (l : List α) (h : Fifo q d (a :: q')) : Fifo q (d ++ [a]) (q' ++ l)

namespace Fifo

/-- What was served and what is left starts with the line at the start. -/
theorem isPrefix (h : Fifo q d q') : q <+: d ++ q' := by
  induction h with
  | refl => exact List.prefix_rfl
  | arrive l _ ih =>
    rw [← List.append_assoc]
    exact ih.trans (List.prefix_append _ l)
  | @serve d q' a l _ ih =>
    have hsplit : d ++ [a] ++ (q' ++ l) = d ++ a :: q' ++ l := by simp
    rw [hsplit]
    exact ih.trans (List.prefix_append _ l)

lemma getElem?_total (h : Fifo q d q') (ha : q[i]? = some a) : (d ++ q')[i]? = some a := by
  obtain ⟨l, hl⟩ := h.isPrefix
  obtain ⟨hi, -⟩ := List.getElem?_eq_some_iff.mp ha
  rw [← hl, List.getElem?_append_left hi, ha]

/-- The member at index `i` is the one served at index `i`. -/
lemma served (h : Fifo q d q') (ha : q[i]? = some a) (hi : i < d.length) : d[i]? = some a := by
  have hget := h.getElem?_total ha
  rwa [List.getElem?_append_left hi] at hget

/-- Until then it is in the line, and has moved up by one place for each one served. -/
lemma waiting (h : Fifo q d q') (ha : q[i]? = some a) (hi : d.length ≤ i) : q'[i - d.length]? = some a := by
  have hget := h.getElem?_total ha
  rwa [List.getElem?_append_right hi] at hget

/-- If the whole line was served, then before anything else. -/
lemma isPrefix_served (h : Fifo q d q') (hd : q.length ≤ d.length) : q <+: d :=
  List.prefix_of_prefix_length_le h.isPrefix (List.prefix_append d q') hd

end Fifo

end SBoy28.Lib
