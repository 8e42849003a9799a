import SBoy28.Kheap.Invariant
import SBoy28.Lib.FreeSpace

/-!
# Which blocks stay in use

A call of `kmalloc` or `kfree` leaves the used blocks alone, but for the one it is about.
-/

namespace SBoy28.Kheap
open Lib

variable {h : Heap} {live live' : Finset UInt32} {bs bs' : List Blk}

lemma Represents.unique {m : Memory} {p : UInt32} (hr : Represents m p bs) (hr' : Represents m p bs') :
    bs = bs' := by
  induction bs generalizing p bs' with
  | nil =>
    cases bs' with
    | nil => rfl
    | cons c cs =>
      rw [represents_nil] at hr
      exact absurd hr (ptr_eq_some.mp (represents_cons.mp hr').1).1
  | cons b bs ih =>
    obtain ⟨hp, hb, hrest⟩ := represents_cons.mp hr
    cases bs' with
    | nil =>
      rw [represents_nil] at hr'
      exact absurd hr' (ptr_eq_some.mp hp).1
    | cons c cs =>
      obtain ⟨hpc, hc, hrest'⟩ := represents_cons.mp hr'
      have haddr : b.addr = c.addr := Option.some.inj (hp.symm.trans hpc)
      have hbc : b = c := by
        obtain ⟨ba, bsize, bfree⟩ := b
        obtain ⟨ca, csize, cfree⟩ := c
        simp only at haddr
        subst haddr
        simp only [Blk.mk.injEq, true_and]
        exact ⟨hb.size.symm.trans hc.size, hb.free.symm.trans hc.free⟩
      subst hbc
      rw [ih hrest hrest']

lemma HeapInvariant.unique (hi : HeapInvariant h live bs) (hi' : HeapInvariant h live' bs') : bs = bs' :=
  hi.represents.unique hi'.represents

lemma HeapInvariant.live_usedAt (hi : HeapInvariant h live bs) (p : UInt32) :
    p ∈ live ↔ UsedAt 16 bs p.toNat := by
  rw [hi.live_iff, usedAt_iff]

lemma HeapInvariant.used_live (hi : HeapInvariant h live bs) {b : Blk} (hb : b ∈ bs)
    (hused : b.free = false) : ∃ p ∈ live, p.toNat = b.payload 16 := by
  have hbnd := hi.tiles.bounds hb
  have hend := heapEnd_lt
  have hp : (UInt32.ofNat (b.payload 16)).toNat = b.payload 16 := by
    apply toNat_ofNat_of_lt
    simp only [Blk.payload]
    omega
  refine ⟨UInt32.ofNat (b.payload 16), (hi.live_usedAt _).mpr ⟨b, hb, hused, hp.symm⟩, hp⟩

/-- A free block has room for `n` bytes, rounded up as `kmalloc` does. -/
def HasRoom (bs : List Blk) (n : UInt32) : Prop :=
  ∃ b ∈ bs, b.free = true ∧ (alignSize n).toNat ≤ b.size

lemma carve_none_iff {n : ℕ} :
    carve 16 4 n bs = none ↔ ¬∃ b ∈ bs, b.free = true ∧ n ≤ b.size := by
  have hfind : (carve 16 4 n bs).map Prod.fst = _ := carve_find n bs
  rw [← Option.map_eq_none_iff (f := Prod.fst), hfind, Option.map_eq_none_iff, List.find?_eq_none]
  simp [Blk.fits]

/-- `kmalloc` with the used blocks: it fails without room, and else the returned pointer is new and
heads a block that is large enough. -/
theorem HeapInvariant.kmalloc_used (hi : HeapInvariant h live bs) {n : UInt32} (hn : n ≠ 0) :
    (¬HasRoom bs n ∧ Kheap.kmalloc h n = some (0, h)) ∨
      ∃ p h' bs', HasRoom bs n ∧ carve 16 4 (alignSize n).toNat bs = some (p.toNat, bs') ∧ p ≠ 0 ∧
        p ∉ live ∧ Kheap.kmalloc h n = some (p, h') ∧ HeapInvariant h' (insert p live) bs' ∧
        KeepsUsed bs bs' ∧
        ∃ b ∈ bs', b.free = false ∧ b.payload 16 = p.toNat ∧ (alignSize n).toNat ≤ b.size := by
  rcases hi.kmalloc_cases hn with ⟨hc, hk⟩ | ⟨p, h', bs', hc, hp, hk, hi'⟩
  · exact Or.inl ⟨carve_none_iff.mp hc, hk⟩
  · refine Or.inr ⟨p, h', bs', ?_, hc, hp, ?_, hk, hi', carve_keepsUsed hc, carve_size hc⟩
    · by_contra hroom
      rw [carve_none_iff.mpr hroom] at hc
      cases hc
    · rw [hi.live_usedAt]
      exact carve_fresh (by decide) hi.tiles hc

/-- `kfree` of a live pointer with the used blocks. -/
theorem HeapInvariant.kfree_used (hi : HeapInvariant h live bs) {p : UInt32} (hp : p ∈ live) :
    ∃ h' bs', Kheap.kfree h p = some h' ∧ HeapInvariant h' (live.erase p) bs' ∧
      ∀ b ∈ bs, b.free = false → b.payload 16 ≠ p.toNat → b ∈ bs' := by
  obtain ⟨h', hk, hi'⟩ := hi.kfree hp
  exact ⟨h', _, hk, hi', fun b hb hused hne => release_keepsUsed hb hused hne⟩

/-- A used block of the second heap is one of the first, if that has its pointer too and kept it. -/
lemma HeapInvariant.used_mem {h' : Heap} (hi : HeapInvariant h live bs) (hi' : HeapInvariant h' live' bs')
    {b : Blk} (hb : b ∈ bs') (hused : b.free = false) (hsub : live' ⊆ live)
    (hk : ∀ c ∈ bs, c.free = false → c.payload 16 = b.payload 16 → c ∈ bs') : b ∈ bs := by
  obtain ⟨p, hp, hpb⟩ := hi'.used_live hb hused
  obtain ⟨c, hc, hcused, hcp⟩ := (hi.live_usedAt p).mp (hsub hp)
  have hcb : c.payload 16 = b.payload 16 := hcp.trans hpb
  rcases hi'.tiles.separated (hk c hc hcused hcb) hb with rfl | hsep | hsep
  · exact hc
  · simp only [Blk.payload] at hcb
    omega
  · simp only [Blk.payload] at hcb
    omega

/-- A heap with the same live pointers, in which the used blocks are still there, has as many free
bytes. -/
theorem HeapInvariant.freeSize_eq {h' : Heap} (hi : HeapInvariant h live bs)
    (hi' : HeapInvariant h' live bs') (hk : KeepsUsed bs bs') : freeSize bs' = freeSize bs := by
  refine Lib.freeSize_eq (by decide) hi.tiles hi.coalesced hi'.tiles hi'.coalesced hk ?_
  intro c hc hused
  exact hi.used_mem hi' hc hused (Finset.Subset.refl live) (fun b hb hbused _ => hk b hb hbused)

/-- A further live pointer to a block that is not empty leaves fewer free bytes. -/
theorem HeapInvariant.freeSize_lt {h' : Heap} (hi : HeapInvariant h live bs)
    (hi' : HeapInvariant h' live' bs') (hk : KeepsUsed bs bs') {b : Blk} (hb : b ∈ bs')
    (hused : b.free = false) (hsize : 0 < b.size) {p : UInt32} (hp : p ∉ live)
    (hpb : b.payload 16 = p.toNat) : freeSize bs' < freeSize bs := by
  refine Lib.freeSize_lt (by decide) hi.tiles hi.coalesced hi'.tiles hk hb hused ?_ hsize
  intro hmem
  exact hp ((hi.live_usedAt p).mpr ⟨b, hmem, hused, hpb⟩)

end SBoy28.Kheap
