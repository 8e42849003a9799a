import Mathlib.Data.List.Nodup
import Mathlib.Logic.Function.Basic
import Mathlib.Logic.Relation
import Mathlib.Tactic.Common

/-!
# Singly linked chains

A chain is a list of nodes reached from a head through a partial successor function
`next`. The successor is read from some store, so the lemmas say what a chain looks like
after the store has changed at one node: a link appended behind the last node, a node
removed at the head, or an update off the chain.
-/

namespace SBoy28.Lib

variable {α : Type*} {next next' : α → Option α}

/-- `l` is the complete chain of nodes reached from `h` through `next`. -/
def Linked (next : α → Option α) : Option α → List α → Prop
  | h, [] => h = none
  | h, a :: l => h = some a ∧ Linked next (next a) l

@[simp] lemma linked_nil {h : Option α} : Linked next h [] ↔ h = none := Iff.rfl

@[simp] lemma linked_cons {h : Option α} {a : α} {l : List α} :
    Linked next h (a :: l) ↔ h = some a ∧ Linked next (next a) l := Iff.rfl

lemma Linked.head {h : Option α} {l : List α} (hl : Linked next h l) : h = l.head? := by
  cases l with
  | nil => exact hl
  | cons a l => exact hl.1

lemma Linked.eq_nil {l : List α} (hl : Linked next none l) : l = [] := by
  cases l with
  | nil => rfl
  | cons a l => exact absurd hl.1 (by simp)

lemma Linked.exists_cons {a : α} {l : List α} (hl : Linked next (some a) l) :
    ∃ t, l = a :: t ∧ Linked next (next a) t := by
  cases l with
  | nil => exact absurd hl (by simp)
  | cons b t =>
    obtain ⟨hb, ht⟩ := hl
    obtain rfl := Option.some.inj hb
    exact ⟨t, rfl, ht⟩

/-- The chain of a head is unique. -/
theorem Linked.unique {h : Option α} {l l' : List α} (hl : Linked next h l)
    (hl' : Linked next h l') : l = l' := by
  induction l generalizing h l' with
  | nil =>
    rw [linked_nil] at hl
    subst hl
    exact hl'.eq_nil.symm
  | cons a l ih =>
    obtain ⟨rfl, ht⟩ := hl
    obtain ⟨t, rfl, ht'⟩ := hl'.exists_cons
    rw [ih ht ht']

/-- A chain only depends on the successors of its own nodes. -/
theorem Linked.congr {h : Option α} {l : List α} (hl : Linked next h l)
    (he : ∀ a ∈ l, next' a = next a) : Linked next' h l := by
  induction l generalizing h with
  | nil => exact hl
  | cons a l ih =>
    refine ⟨hl.1, ?_⟩
    rw [he a (by simp)]
    exact ih hl.2 (fun b hb => he b (by simp [hb]))

/-- The image of a chain under a map of the nodes that follows the links. -/
theorem Linked.map {β : Type*} {nextβ : β → Option β} (f : α → β) {h : Option α} {l : List α}
    (hl : Linked next h l) (hf : ∀ a ∈ l, nextβ (f a) = (next a).map f) :
    Linked nextβ (h.map f) (l.map f) := by
  induction l generalizing h with
  | nil =>
    rw [linked_nil] at hl
    rw [hl]
    rfl
  | cons a l ih =>
    obtain ⟨rfl, ht⟩ := hl
    refine ⟨rfl, ?_⟩
    rw [hf a (by simp)]
    exact ih ht (fun b hb => hf b (by simp [hb]))

/-- Every suffix of a chain is the chain of its first node. -/
lemma Linked.suffix {h : Option α} {l t : List α} (hl : Linked next h (l ++ t)) :
    Linked next (if l = [] then h else t.head?) t := by
  induction l generalizing h with
  | nil => simpa using hl
  | cons a l ih =>
    have hs := ih hl.2
    have hne : a :: l ≠ [] := by simp
    rw [if_neg hne]
    by_cases hl' : l = []
    · subst hl'
      have hh := hs.head
      rw [← hh]
      exact hs
    · rwa [if_neg hl'] at hs

lemma Linked.suffix_cons {h : Option α} {l t : List α} {a : α} (hl : Linked next h (l ++ a :: t)) :
    Linked next (next a) t := by
  have hs := hl.suffix
  exact hs.2

/-- A chain that ends visits no node twice. -/
theorem Linked.nodup {h : Option α} {l : List α} (hl : Linked next h l) : l.Nodup := by
  induction l generalizing h with
  | nil => exact List.nodup_nil
  | cons a l ih =>
    refine List.nodup_cons.mpr ⟨fun ha => ?_, ih hl.2⟩
    -- a second visit of `a` would make its chain a proper suffix of itself
    obtain ⟨s, t, rfl⟩ := List.append_of_mem ha
    have ht : Linked next (next a) t := hl.2.suffix_cons
    have he := congrArg List.length (ht.unique hl.2)
    simp only [List.length_append, List.length_cons] at he
    omega

lemma Linked.next_getElem {h : Option α} {l : List α} (hl : Linked next h l) (i : ℕ)
    (hi : i < l.length) : next l[i] = l[i + 1]? := by
  induction l generalizing h i with
  | nil => exact absurd hi (by simp)
  | cons a l ih =>
    cases i with
    | zero =>
      rw [List.getElem_cons_zero, hl.2.head]
      cases l <;> rfl
    | succ i => exact ih hl.2 i (by simpa using hi)

/-- The nodes of a chain are those that can be reached from its head. -/
theorem Linked.mem_iff {h a : α} {l : List α} (hl : Linked next (some h) l) :
    a ∈ l ↔ Relation.ReflTransGen (fun b c => next b = some c) h a := by
  constructor
  · intro ha
    induction l generalizing h with
    | nil => cases ha
    | cons b l ih =>
      obtain ⟨hb, hl⟩ := hl
      obtain rfl := Option.some.inj hb
      rcases List.mem_cons.mp ha with rfl | ha
      · exact Relation.ReflTransGen.refl
      · cases hn : next h with
        | none =>
          rw [hn] at hl
          rw [hl.eq_nil] at ha
          cases ha
        | some c => exact Relation.ReflTransGen.head hn (ih (hn ▸ hl) ha)
  · intro hreach
    induction hreach with
    | refl =>
      obtain ⟨t, rfl, -⟩ := hl.exists_cons
      exact List.mem_cons_self
    | tail _ hn ih =>
      -- the successor of a node of the chain is its next element
      obtain ⟨s, t, rfl⟩ := List.append_of_mem ih
      have ht := hl.suffix_cons
      rw [hn] at ht
      obtain ⟨t', rfl, -⟩ := ht.exists_cons
      simp

/-- A node linked behind the last one extends the chain. -/
theorem Linked.snoc {h : Option α} {l : List α} {a b : α} (hl : Linked next h (l ++ [a]))
    (hb : next' b = none) (hab : next' a = some b) (he : ∀ c ∈ l, next' c = next c) :
    Linked next' h (l ++ [a, b]) := by
  induction l generalizing h with
  | nil => exact ⟨hl.1, hab, hb⟩
  | cons c l ih =>
    refine ⟨hl.1, ?_⟩
    rw [he c (by simp)]
    exact ih hl.2 (fun d hd => he d (by simp [hd]))

end SBoy28.Lib
