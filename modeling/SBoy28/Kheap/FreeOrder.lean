import SBoy28.Kheap.Blocks
import SBoy28.Lib.Canonical

/-!
# The order of frees

The block list of a heap is determined by its live pointers and the sizes of their blocks, so it does
not matter in which order blocks are given back.
-/

namespace SBoy28.Kheap
open Lib

variable {h h' : Heap} {live live' : Finset UInt32} {bs bs' : List Blk} {ps : List UInt32}

/-- Calls of `kfree`, one after the other. -/
def freeAll (h : Heap) (ps : List UInt32) : Option Heap := ps.foldlM kfree h

lemma HeapInvariant.freeAll (hi : HeapInvariant h live bs) (hps : ps.Nodup) (hlive : ∀ p ∈ ps, p ∈ live) :
    ∃ h' bs', Kheap.freeAll h ps = some h' ∧ HeapInvariant h' (live \ ps.toFinset) bs' ∧
      ∀ b ∈ bs, b.free = false → (∀ p ∈ ps, b.payload 16 ≠ p.toNat) → b ∈ bs' := by
  induction ps generalizing h live bs with
  | nil => exact ⟨h, bs, rfl, by simpa using hi, fun b hb _ _ => hb⟩
  | cons p ps ih =>
    obtain ⟨hp, hps⟩ := List.nodup_cons.mp hps
    obtain ⟨h₁, bs₁, hk, hi₁, hkeep₁⟩ := hi.kfree_used (hlive p List.mem_cons_self)
    have hlive₁ : ∀ q ∈ ps, q ∈ live.erase p := by
      intro q hq
      refine Finset.mem_erase.mpr ⟨?_, hlive q (List.mem_cons_of_mem p hq)⟩
      rintro rfl
      exact hp hq
    obtain ⟨h₂, bs₂, hall, hi₂, hkeep₂⟩ := ih hi₁ hps hlive₁
    refine ⟨h₂, bs₂, ?_, ?_, ?_⟩
    · rw [Kheap.freeAll, List.foldlM_cons, hk]
      exact hall
    · have hset : live.erase p \ ps.toFinset = live \ (p :: ps).toFinset := by
        ext q
        simp only [Finset.mem_sdiff, Finset.mem_erase, List.mem_toFinset, List.mem_cons, not_or]
        tauto
      exact hset ▸ hi₂
    · intro b hb hused hne
      have hb₁ := hkeep₁ b hb hused (hne p List.mem_cons_self)
      exact hkeep₂ b hb₁ hused (fun q hq => hne q (List.mem_cons_of_mem p hq))

lemma HeapInvariant.kmalloc_kfree (hi : HeapInvariant h live bs) {n p : UInt32} {h₁ : Heap}
    (hk : Kheap.kmalloc h n = some (p, h₁)) (hp : p ≠ 0) :
    ∃ h₂, Kheap.kfree h₁ p = some h₂ ∧ HeapInvariant h₂ live bs := by
  have hn : n ≠ 0 := by
    rintro rfl
    rw [Kheap.kmalloc, if_pos rfl, Option.some.injEq, Prod.mk.injEq] at hk
    exact hp hk.1.symm
  rcases hi.kmalloc_used hn with ⟨-, hfail⟩ | ⟨q, h', bs₁, -, -, -, hq, hcall, hi₁, hkeep, -⟩
  · rw [hk, Option.some.injEq, Prod.mk.injEq] at hfail
    exact absurd hfail.1 hp
  · rw [hk, Option.some.injEq, Prod.mk.injEq] at hcall
    obtain ⟨rfl, rfl⟩ := hcall
    obtain ⟨h₂, bs₂, hfree, hi₂, hkeep₂⟩ := hi₁.kfree_used (Finset.mem_insert_self p live)
    rw [Finset.erase_insert hq] at hi₂
    have hused : KeepsUsed bs bs₂ := by
      intro b hb hbused
      refine hkeep₂ b (hkeep b hb hbused) hbused ?_
      intro hbp
      exact hq ((hi.live_usedAt p).mpr ⟨b, hb, hbused, hbp⟩)
    have hsame : bs = bs₂ := by
      refine hi.tiles.determined (by decide) hi.coalesced hi₂.tiles hi₂.coalesced hused ?_
      intro b hb hbused
      exact hi.used_mem hi₂ hb hbused (Finset.Subset.refl live) (fun c hc hcused _ => hused c hc hcused)
    exact ⟨h₂, hfree, hsame ▸ hi₂⟩

/-- What is in use after some pointers have been given back does not depend on their order. -/
lemma keepsUsed_of_perm {h₁ : Heap} {bs₁ bs₂ : List Blk} {qs : List UInt32} (hi : HeapInvariant h live bs)
    (hperm : ps.Perm qs) (hi₁ : HeapInvariant h₁ (live \ ps.toFinset) bs₁)
    (hk₁ : ∀ b ∈ bs, b.free = false → (∀ p ∈ ps, b.payload 16 ≠ p.toNat) → b ∈ bs₁)
    (hk₂ : ∀ b ∈ bs, b.free = false → (∀ p ∈ qs, b.payload 16 ≠ p.toNat) → b ∈ bs₂) :
    KeepsUsed bs₁ bs₂ := by
  intro b hb hused
  obtain ⟨p, hp, hpb⟩ := hi₁.used_live hb hused
  have hne : ∀ q ∈ ps, b.payload 16 ≠ q.toNat := by
    intro q hq hbq
    obtain rfl := UInt32.toNat_inj.mp (hpb.trans hbq)
    exact (Finset.mem_sdiff.mp hp).2 (List.mem_toFinset.mpr hq)
  have hbs : b ∈ bs := hi.used_mem hi₁ hb hused Finset.sdiff_subset
    (fun c hc hcused hcb => hk₁ c hc hcused (fun q hq => hcb ▸ hne q hq))
  exact hk₂ b hbs hused (fun q hq => hne q (hperm.mem_iff.mpr hq))

/-- The block list does not depend on the order of frees. Giving back what `kmalloc` has just returned
restores the list, and live pointers that are given back in two orders leave the same list. -/
theorem free_order (hi : HeapInvariant h live bs) :
    (∀ n p h₁, kmalloc h n = some (p, h₁) → p ≠ 0 →
      ∃ h₂, kfree h₁ p = some h₂ ∧ HeapInvariant h₂ live bs) ∧
    ∀ ps qs : List UInt32, ps.Nodup → (∀ p ∈ ps, p ∈ live) → ps.Perm qs →
      ∃ h₁ h₂ bs', freeAll h ps = some h₁ ∧ freeAll h qs = some h₂ ∧
        HeapInvariant h₁ (live \ ps.toFinset) bs' ∧ HeapInvariant h₂ (live \ ps.toFinset) bs' := by
  refine ⟨fun n p h₁ hk hp => hi.kmalloc_kfree hk hp, ?_⟩
  intro ps qs hnodup hlive hperm
  obtain ⟨h₁, bs₁, hall₁, hi₁, hk₁⟩ := hi.freeAll hnodup hlive
  obtain ⟨h₂, bs₂, hall₂, hi₂, hk₂⟩ :=
    hi.freeAll (hperm.nodup_iff.mp hnodup) (fun p hp => hlive p (hperm.mem_iff.mpr hp))
  have hset : ps.toFinset = qs.toFinset := List.toFinset_eq_of_perm ps qs hperm
  have hk := keepsUsed_of_perm hi hperm hi₁ hk₁ hk₂
  have hk' := keepsUsed_of_perm hi hperm.symm hi₂ hk₂ hk₁
  have hsame : bs₁ = bs₂ :=
    hi₁.tiles.determined (by decide) hi₁.coalesced hi₂.tiles hi₂.coalesced hk hk'
  rw [← hset, ← hsame] at hi₂
  exact ⟨h₁, h₂, bs₁, hall₁, hall₂, hi₁, hi₂⟩

theorem free_order_fresh :
    ∃ h₁ h₂, kmalloc (kheapInit fun _ => 0) 10 = some (0xD0000010, h₁) ∧ kfree h₁ 0xD0000010 = some h₂ ∧
      HeapInvariant h₂ ∅ [initialBlock] := by
  obtain ⟨h₂, hfree, hi⟩ := (free_order (kheapInit_invariant fun _ => 0)).1 10 0xD0000010 _ rfl (by decide)
  exact ⟨_, h₂, rfl, hfree, hi⟩

end SBoy28.Kheap
