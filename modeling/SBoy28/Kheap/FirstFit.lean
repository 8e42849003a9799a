import SBoy28.Kheap.Invariant

/-!
# Which calls of `kmalloc` succeed

`kmalloc` takes the first free block with room for the rounded size. The rounding wraps around
for the three largest sizes, and then any free block is taken.
-/

namespace SBoy28.Kheap
open Lib

variable {h : Heap} {live : Finset UInt32} {bs : List Blk} {n : UInt32}

/-- `n` rounded up to a multiple of 4, over the integers. -/
def roundUp (n : ℕ) : ℕ := (n + 3) / 4 * 4

lemma alignSize_toNat (hn : n.toNat ≤ 2 ^ 32 - 4) : (alignSize n).toNat = roundUp n.toNat := by
  have h4 : (4 : UInt32).toNat = 4 := rfl
  have hm : (n % 4).toNat = n.toNat % 4 := by rw [UInt32.toNat_mod, h4]
  unfold alignSize roundUp
  by_cases hz : n % 4 ≠ 0
  · have hne : n.toNat % 4 ≠ 0 := fun h0 => hz (UInt32.toNat_inj.mp (by rw [hm, h0]; rfl))
    rw [if_pos hz, UInt32.toNat_add, toNat_sub_of_le (by omega), hm, h4]
    omega
  · have h0 : (n % 4).toNat = 0 := by
      rw [not_not.mp hz]
      rfl
    rw [if_neg hz]
    omega

/-- The rounding of a size near the end of the range wraps around. -/
lemma alignSize_wrap (hn : ¬n.toNat ≤ 2 ^ 32 - 4) : (alignSize n).toNat = 0 := by
  have h4 : (4 : UInt32).toNat = 4 := rfl
  have hm : (n % 4).toNat = n.toNat % 4 := by rw [UInt32.toNat_mod, h4]
  have hlt := n.toNat_lt
  have hz : n % 4 ≠ 0 := by
    intro h0
    have h0' := congrArg UInt32.toNat h0
    rw [hm, UInt32.toNat_zero] at h0'
    omega
  rw [alignSize, if_pos hz, UInt32.toNat_add, toNat_sub_of_le (by omega), hm, h4]
  omega

/-- `kmalloc(n)` is sound and complete: it fails just if no free block has room, and else it
returns the first one that has, as a block of at least `n` bytes. -/
def FirstFit (h : Heap) (bs : List Blk) (n : UInt32) : Prop :=
  ∃ p h', kmalloc h n = some (p, h') ∧
    (p ≠ 0 ↔ ∃ b ∈ bs, b.free = true ∧ roundUp n.toNat ≤ b.size) ∧
    (p ≠ 0 → (∃ b, bs.find? (Blk.fits (roundUp n.toNat)) = some b ∧ p.toNat = b.addr + 16) ∧
      n.toNat ≤ (blockSize h'.mem (p - blockHeader)).toNat) ∧
    (p = 0 → h' = h)

lemma fits_iff {k : ℕ} {b : Blk} : b.fits k = true ↔ b.free = true ∧ k ≤ b.size := by
  simp [Blk.fits]

/-- Where the rounding does not wrap around, `kmalloc` is first fit. -/
lemma HeapInvariant.firstFit (hi : HeapInvariant h live bs) (hn : n ≠ 0)
    (hle : n.toNat ≤ 2 ^ 32 - 4) : FirstFit h bs n := by
  have halign := alignSize_toNat hle
  have hfind : (carve 16 4 (alignSize n).toNat bs).map Prod.fst = _ := carve_find (alignSize n).toNat bs
  rw [halign] at hfind
  rcases hi.kmalloc_cases hn with ⟨hc, hk⟩ | ⟨p, h', bs', hc, hp, hk, hi'⟩
  · rw [halign] at hc
    rw [hc] at hfind
    have hnone : ∀ b ∈ bs, ¬b.fits (roundUp n.toNat) = true := by
      rw [← List.find?_eq_none]
      exact Option.map_eq_none_iff.mp hfind.symm
    refine ⟨0, h, hk, ⟨fun h0 => absurd rfl h0, ?_⟩, fun h0 => absurd rfl h0, fun _ => rfl⟩
    rintro ⟨b, hb, hfree, hsize⟩
    exact absurd (fits_iff.mpr ⟨hfree, hsize⟩) (hnone b hb)
  · obtain ⟨c, hcm, hused, hpay, hroom⟩ := carve_size hc
    rw [halign] at hc
    rw [hc] at hfind
    obtain ⟨b, hb, hbp⟩ := Option.map_eq_some_iff.mp hfind.symm
    have hfits := fits_iff.mp (List.find?_some hb)
    refine ⟨p, h', hk, ⟨fun _ => ⟨b, List.mem_of_find?_eq_some hb, hfits⟩, fun _ => hp⟩, fun _ => ⟨⟨b, hb, ?_⟩, ?_⟩,
      fun h0 => absurd h0 hp⟩
    · simpa [Blk.payload] using hbp.symm
    · -- the header of the returned block shows its size
      have hround : n.toNat ≤ roundUp n.toNat := by
        unfold roundUp
        omega
      simp only [Blk.payload] at hpay
      have hsub : (p - blockHeader).toNat = c.addr := by
        have h16 : blockHeader.toNat = 16 := rfl
        rw [toNat_sub_of_le (by omega)]
        omega
      rw [(hi'.represents.header c hcm).blockSize hsub]
      omega

/-- Where the rounding wraps around, a heap with a free block answers with too small a block. -/
lemma HeapInvariant.not_firstFit (hi : HeapInvariant h live bs) (hn : n ≠ 0)
    (hgt : ¬n.toNat ≤ 2 ^ 32 - 4) {b : Blk} (hb : b ∈ bs) (hfree : b.free = true) : ¬FirstFit h bs n := by
  rintro ⟨p, h', hk, hiff, -, -⟩
  have hend := heapEnd_lt
  have hfind : (carve 16 4 (alignSize n).toNat bs).map Prod.fst = _ := carve_find (alignSize n).toNat bs
  rw [alignSize_wrap hgt] at hfind
  rcases hi.kmalloc_cases hn with ⟨hc, -⟩ | ⟨q, h'', bs', -, hq, hk', -⟩
  · rw [alignSize_wrap hgt] at hc
    rw [hc] at hfind
    have hnone := List.find?_eq_none.mp (Option.map_eq_none_iff.mp hfind.symm) b hb
    exact hnone (fits_iff.mpr ⟨hfree, Nat.zero_le _⟩)
  · rw [hk] at hk'
    obtain ⟨c, hc, -, hsize⟩ := hiff.mp (by simpa [(Prod.mk.inj (Option.some.inj hk')).1] using hq)
    have hbnd := (hi.tiles.bounds hc).2
    unfold roundUp at hsize
    omega

/-- `kmalloc` does what it should just if the rounding does not wrap around or no block is free. -/
theorem kmalloc_firstFit_iff (hi : HeapInvariant h live bs) (hn : n ≠ 0) :
    FirstFit h bs n ↔ n.toNat ≤ 2 ^ 32 - 4 ∨ ∀ b ∈ bs, b.free = false := by
  constructor
  · intro hf
    by_contra hc
    simp only [not_or, not_forall, Bool.not_eq_false, exists_prop] at hc
    obtain ⟨hgt, b, hb, hfree⟩ := hc
    exact hi.not_firstFit hn hgt hb hfree hf
  · rintro (hle | hused)
    · exact hi.firstFit hn hle
    · have hnofit : ∀ b ∈ bs, ¬b.fits (alignSize n).toNat = true := by
        intro b hb hfits
        rw [fits_iff, hused b hb] at hfits
        exact absurd hfits.1 (by simp)
      rcases hi.kmalloc_cases hn with ⟨-, hk⟩ | ⟨p, h', bs', hc, -⟩
      · refine ⟨0, h, hk, ⟨fun h0 => absurd rfl h0, ?_⟩, fun h0 => absurd rfl h0, fun _ => rfl⟩
        rintro ⟨b, hb, hfree, -⟩
        rw [hused b hb] at hfree
        cases hfree
      · have hfind : (carve 16 4 (alignSize n).toNat bs).map Prod.fst = _ := carve_find (alignSize n).toNat bs
        rw [hc, List.find?_eq_none.mpr hnofit] at hfind
        cases hfind

theorem kmalloc_firstFit_iff_fresh : FirstFit (kheapInit fun _ => 0) [initialBlock] 10 :=
  (kmalloc_firstFit_iff (kheapInit_invariant fun _ => 0) (by decide)).mpr (Or.inl (by decide))

/-- A fresh heap of 4 MB serves a call for almost 4 GB. -/
theorem kmalloc_firstFit_wrap : HeapInvariant (kheapInit fun _ => 0) ∅ [initialBlock] ∧
    ¬FirstFit (kheapInit fun _ => 0) [initialBlock] 0xFFFFFFFF :=
  ⟨kheapInit_invariant _, (kheapInit_invariant _).not_firstFit (by decide) (by decide)
    (List.mem_singleton.mpr rfl) rfl⟩

end SBoy28.Kheap
