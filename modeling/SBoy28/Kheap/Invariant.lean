import SBoy28.Kheap.Refinement
import Mathlib.Data.Finset.Lattice.Basic

/-!
# The heap invariant over runs

After `kheap_init` and any calls of `kmalloc` and `kfree` the headers in memory are a
coalesced tiling of the heap whose used blocks are the live pointers.
-/

namespace SBoy28.Kheap
open Lib

def heapStart : ℕ := 0xD0000000
def heapEnd : ℕ := heapStart + 1024 * 4096

/-- The block list `bs` is what memory holds, and what it must look like. -/
structure HeapInvariant (h : Heap) (live : Finset UInt32) (bs : List Blk) : Prop where
  represents : Represents h.mem h.heapHead bs
  tiles : Tiles 16 heapEnd heapStart bs
  granular : ∀ b ∈ bs, 4 ∣ b.size
  coalesced : Coalesced bs
  live_iff : ∀ p, p ∈ live ↔ ∃ b ∈ bs, b.free = false ∧ p.toNat = b.addr + 16

lemma heapEnd_lt : heapEnd < 2 ^ 32 := by decide

lemma four_le_heapStart : 4 ≤ heapStart := by decide

lemma usedAt_iff {bs : List Blk} {p : UInt32} :
    UsedAt 16 bs p.toNat ↔ ∃ b ∈ bs, b.free = false ∧ p.toNat = b.addr + 16 := by
  simp only [UsedAt, Blk.payload, eq_comm]

/-- The one free block of a fresh heap. -/
def initialBlock : Blk := ⟨heapStart, 1024 * 4096 - 16, true⟩

lemma kheapInit_represents (m : Memory) :
    Represents (kheapInit m).mem (kheapInit m).heapHead [initialBlock] := by
  have hp : heapVirtualAddress.toNat = heapStart := rfl
  refine represents_cons.mpr ⟨rfl, ⟨?_, ?_, ?_⟩, ?_⟩
  · simp only [kheapInit, initialBlock, setMagic, setNext, hp]
    rw [load32_store32_other _ _ (by omega), load32_store32_other _ _ (by omega), setIsFree, hp,
      load32_store8_other _ _ (by omega), setSize, hp, load32_store32]
    rfl
  · simp only [kheapInit, initialBlock]
    rw [setMagic_outside _ (by rw [hp]; omega), setNext_outside _ (by rw [hp]; omega), setIsFree, hp,
      store8_same]
    rfl
  · simp only [kheapInit, initialBlock, setMagic, hp, load32_store32]
  · refine represents_nil.mpr ?_
    simp only [kheapInit, initialBlock, setMagic, setNext, hp]
    rw [load32_store32_other _ _ (by omega), load32_store32]

lemma kheapInit_invariant (m : Memory) : HeapInvariant (kheapInit m) ∅ [initialBlock] where
  represents := kheapInit_represents m
  tiles := ⟨rfl, rfl⟩
  granular := by decide
  coalesced := List.isChain_singleton _
  live_iff := by simp [initialBlock]

lemma alignSize_dvd (size : UInt32) : 4 ∣ (alignSize size).toNat := by
  have h4 : (4 : UInt32).toNat = 4 := rfl
  have hm : (size % 4).toNat = size.toNat % 4 := by rw [UInt32.toNat_mod, h4]
  unfold alignSize
  by_cases hs : size % 4 ≠ 0
  · rw [if_pos hs, UInt32.toNat_add, toNat_sub_of_le (by omega), hm, h4]
    omega
  · rw [if_neg hs]
    have h0 : (size % 4).toNat = 0 := by
      rw [not_not.mp hs]
      rfl
    omega

variable {h h' : Heap} {live : Finset UInt32} {bs : List Blk}

/-- What a call of `kmalloc` does to the block list. -/
theorem HeapInvariant.kmalloc_cases (hi : HeapInvariant h live bs) {n : UInt32} (hn : n ≠ 0) :
    (carve 16 4 (alignSize n).toNat bs = none ∧ Kheap.kmalloc h n = some (0, h)) ∨
      ∃ p h' bs', carve 16 4 (alignSize n).toNat bs = some (p.toNat, bs') ∧ p ≠ 0 ∧
        Kheap.kmalloc h n = some (p, h') ∧ HeapInvariant h' (insert p live) bs' := by
  obtain ⟨hnone, hsome⟩ :=
    kmalloc_represents hi.represents hi.tiles heapEnd_lt four_le_heapStart hn
  cases hc : carve 16 4 (alignSize n).toNat bs with
  | none => exact Or.inl ⟨rfl, hnone hc⟩
  | some r =>
    right
    obtain ⟨q, bs'⟩ := r
    obtain ⟨m', hk, hr'⟩ := hsome q bs' hc
    have ht' := carve_tiles hi.tiles hc
    have hused := carve_used hc
    obtain ⟨b, hb, -, hbq⟩ : UsedAt 16 bs' q := (hused q).mpr (.inr rfl)
    have hbnd := ht'.bounds hb
    have hend := heapEnd_lt
    simp only [Blk.payload] at hbq
    have hq : (UInt32.ofNat q).toNat = q := toNat_ofNat_of_lt (by omega)
    have hp0 : UInt32.ofNat q ≠ 0 := by
      intro h0
      have := congrArg UInt32.toNat h0
      rw [hq, UInt32.toNat_zero] at this
      omega
    refine ⟨UInt32.ofNat q, ⟨m', h.heapHead⟩, bs', by rw [hq], hp0, hk, hr', ht', ?_,
      carve_coalesced hi.coalesced hc, ?_⟩
    · exact carve_dvd (by decide) (alignSize_dvd n) hi.granular hc
    · intro p
      rw [Finset.mem_insert, hi.live_iff, ← usedAt_iff, ← usedAt_iff, hused, or_comm, ← hq,
        UInt32.toNat_inj, hq]

/-- Every call of `kmalloc` returns and keeps the invariant. -/
theorem HeapInvariant.kmalloc (hi : HeapInvariant h live bs) (n : UInt32) :
    ∃ p h' bs', Kheap.kmalloc h n = some (p, h') ∧
      HeapInvariant h' (if p = 0 then live else insert p live) bs' := by
  by_cases hn : n = 0
  · refine ⟨0, h, bs, ?_, hi⟩
    rw [Kheap.kmalloc, if_pos hn]
  · rcases hi.kmalloc_cases hn with ⟨-, hk⟩ | ⟨p, h', bs', -, hp, hk, hi'⟩
    · exact ⟨0, h, bs, hk, hi⟩
    · exact ⟨p, h', bs', hk, by rwa [if_neg hp]⟩

/-- Every call of `kfree` on a live pointer returns and keeps the invariant. -/
theorem HeapInvariant.kfree (hi : HeapInvariant h live bs) {p : UInt32} (hp : p ∈ live) :
    ∃ h', Kheap.kfree h p = some h' ∧ HeapInvariant h' (live.erase p) (release 16 p.toNat bs) := by
  obtain ⟨b, hb, -, hpb⟩ := (hi.live_iff p).mp hp
  obtain ⟨m', hk, hr'⟩ := kfree_represents hi.represents hi.tiles heapEnd_lt hb hpb
  refine ⟨_, hk, hr', release_tiles hi.tiles, release_dvd (by decide) hi.granular,
    release_coalesced hi.coalesced, ?_⟩
  intro q
  rw [Finset.mem_erase, hi.live_iff, ← usedAt_iff, ← usedAt_iff,
    release_used (by decide) hi.tiles, and_comm, ne_eq, ne_eq, UInt32.toNat_inj]

lemma HeapInvariant.live_block (hi : HeapInvariant h live bs) {p : UInt32} (hp : p ∈ live) :
    ∃ b ∈ bs, b.free = false ∧ p.toNat = b.addr + 16 ∧
      (blockSize h.mem (p - blockHeader)).toNat = b.size := by
  obtain ⟨b, hb, hbf, hpb⟩ := (hi.live_iff p).mp hp
  refine ⟨b, hb, hbf, hpb, ?_⟩
  apply (hi.represents.header b hb).blockSize
  rw [toNat_sub_of_le (by rw [hpb]; exact Nat.le_add_left _ _), hpb]
  exact Nat.add_sub_cancel _ _

/-- Changes inside one payload change no header. -/
lemma HeapInvariant.payload (hi : HeapInvariant h live bs) {b : Blk} (hb : b ∈ bs) {m : Memory}
    (he : ∀ i, i < b.addr + 16 ∨ b.addr + 16 + b.size ≤ i → m i = h.mem i) :
    HeapInvariant { h with mem := m } live bs := by
  refine ⟨?_, hi.tiles, hi.granular, hi.coalesced, hi.live_iff⟩
  apply hi.represents.congr
  intro c hc i hlo hhi
  apply he
  rcases hi.tiles.separated hb hc with rfl | hsep | hsep <;> omega

/-- A store into a live payload changes no header. -/
theorem HeapInvariant.store (hi : HeapInvariant h live bs) {p : UInt32} (hp : p ∈ live) {a : ℕ}
    (hlo : p.toNat ≤ a) (hhi : a < p.toNat + (blockSize h.mem (p - blockHeader)).toNat)
    (v : UInt8) : HeapInvariant { h with mem := store8 h.mem a v } live bs := by
  obtain ⟨b, hb, -, hpb, hsz⟩ := hi.live_block hp
  apply hi.payload hb
  intro i hi
  apply store8_other
  rintro rfl
  omega

/-- A run keeps some block list that satisfies the invariant. -/
lemma HeapRun.invariant (hr : HeapRun h live) : ∃ bs, HeapInvariant h live bs := by
  induction hr with
  | init m => exact ⟨_, kheapInit_invariant m⟩
  | malloc n p hr hc ih =>
    obtain ⟨bs, hi⟩ := ih
    obtain ⟨p', h₁, bs', hk, hi'⟩ := hi.kmalloc n
    rw [hc, Option.some.injEq, Prod.mk.injEq] at hk
    obtain ⟨rfl, rfl⟩ := hk
    exact ⟨bs', hi'⟩
  | freeNull hr hc ih =>
    obtain ⟨bs, hi⟩ := ih
    simp only [Kheap.kfree, ite_true, Option.some.injEq] at hc
    exact ⟨bs, hc ▸ hi⟩
  | free p hr hp hc ih =>
    obtain ⟨bs, hi⟩ := ih
    obtain ⟨h₁, hk, hi'⟩ := hi.kfree hp
    rw [hc, Option.some.injEq] at hk
    exact ⟨_, hk ▸ hi'⟩
  | store p a v hr hp hlo hhi ih =>
    obtain ⟨bs, hi⟩ := ih
    exact ⟨bs, hi.store hp hlo hhi v⟩

lemma HeapInvariant.next (hi : HeapInvariant h live bs) {l t : List Blk} {b : Blk}
    (hbs : bs = l ++ b :: t) :
    load32 h.mem b.addr = if t = [] then 0 else UInt32.ofNat (b.addr + 16 + b.size) := by
  subst hbs
  obtain ⟨q, -, hr⟩ := represents_append.mp hi.represents
  obtain ⟨c, -, ht⟩ := hi.tiles.append
  obtain ⟨-, -, hrest⟩ := represents_cons.mp hr
  have hbl := (ht.bounds (b := b) (by simp)).2
  have hend := heapEnd_lt
  have hba := ht.1
  cases t with
  | nil => exact represents_nil.mp hrest
  | cons d t =>
    have hd := (ptr_eq_some.mp (represents_cons.mp hrest).1).2
    have hda := ht.2.1
    rw [if_neg (by simp)]
    apply UInt32.toNat_inj.mp
    rw [hd, toNat_ofNat_of_lt (by omega)]
    omega

lemma HeapInvariant.all_freed (hi : HeapInvariant h ∅ bs) : bs = [initialBlock] := by
  have hfree : ∀ b ∈ bs, b.free = true := by
    intro b hb
    by_contra hbf
    have hend := heapEnd_lt
    have hbnd := hi.tiles.bounds hb
    have hlive := (hi.live_iff (UInt32.ofNat (b.addr + 16))).mpr
      ⟨b, hb, by simpa using hbf, toNat_ofNat_of_lt (by omega)⟩
    exact absurd hlive (Finset.notMem_empty _)
  cases bs with
  | nil => exact absurd (show heapStart = heapEnd from hi.tiles) (by decide)
  | cons b bs =>
    obtain rfl := hi.coalesced.all_free hfree
    have hba := hi.tiles.1
    have hlim : heapStart + 16 + b.size = heapEnd := hi.tiles.2
    have hbf := hfree b (by simp)
    obtain ⟨addr, size, free⟩ := b
    simp only at hba hlim hbf
    subst hba hbf
    have hsz : size = 1024 * 4096 - 16 := by
      unfold heapEnd at hlim
      omega
    simp only [initialBlock, hsz]

/-- The representation invariant of the kernel heap. In every reachable state the blocks
reached from `heap_head` tile the heap in address order, each `next` pointing at the end of
its block, with all sizes multiples of 4, all magic values in place, no two neighbouring free
blocks and the used blocks exactly the live ones. So live payloads are disjoint and hold no
header, a heap without live pointers is one free block again, and every call returns. -/
theorem kheap_run_invariant (hr : HeapRun h live) :
    (∃ bs, HeapInvariant h live bs ∧ (bs.map Blk.addr).Pairwise (· < ·) ∧
      (∀ l b t, bs = l ++ b :: t →
        load32 h.mem b.addr = if t = [] then 0 else UInt32.ofNat (b.addr + 16 + b.size)) ∧
      (∀ p ∈ live, ∀ b ∈ bs,
        b.addr + 16 ≤ p.toNat ∨ p.toNat + (blockSize h.mem (p - blockHeader)).toNat ≤ b.addr) ∧
      (live = ∅ → bs = [⟨0xD0000000, 1024 * 4096 - 16, true⟩])) ∧
    (∀ p ∈ live, ∀ q ∈ live, p ≠ q →
      p.toNat + (blockSize h.mem (p - blockHeader)).toNat ≤ q.toNat ∨
        q.toNat + (blockSize h.mem (q - blockHeader)).toNat ≤ p.toNat) ∧
    (∀ n, (kmalloc h n).isSome) ∧ ∀ p, p = 0 ∨ p ∈ live → (kfree h p).isSome := by
  obtain ⟨bs, hi⟩ := hr.invariant
  refine ⟨⟨bs, hi, hi.tiles.increasing (by decide), fun l b t => hi.next, ?_, ?_⟩, ?_, ?_, ?_⟩
  · intro p hp c hc
    obtain ⟨b, hb, -, hpb, hsz⟩ := hi.live_block hp
    rcases hi.tiles.separated hb hc with rfl | h' | h' <;> omega
  · rintro rfl
    exact hi.all_freed
  · intro p hp q hq hpq
    obtain ⟨b, hb, -, hpb, hsz⟩ := hi.live_block hp
    obtain ⟨c, hc, -, hqc, hsz'⟩ := hi.live_block hq
    rcases hi.tiles.separated hb hc with rfl | h' | h'
    · exact absurd (UInt32.toNat_inj.mp (hpb.trans hqc.symm)) hpq
    · omega
    · omega
  · intro n
    obtain ⟨p, h', bs', hk, -⟩ := hi.kmalloc n
    rw [hk]
    rfl
  · rintro p (rfl | hp)
    · rfl
    · obtain ⟨h', hk, -⟩ := hi.kfree hp
      rw [hk]
      rfl

theorem kheap_run_invariant_malloc_free :
    ∃ h h', kmalloc (kheapInit fun _ => 0) 10 = some (0xD0000010, h) ∧
      kfree h 0xD0000010 = some h' ∧ (∃ bs, HeapInvariant h {0xD0000010} bs) ∧
      ∃ bs, HeapInvariant h' ∅ bs := by
  refine ⟨_, _, rfl, rfl, ?_, ?_⟩
  · obtain ⟨⟨bs, hi, -⟩, -⟩ := kheap_run_invariant (.malloc 10 0xD0000010 (.init fun _ => 0) rfl)
    exact ⟨bs, hi⟩
  · obtain ⟨⟨bs, hi, -⟩, -⟩ := kheap_run_invariant
      (.free 0xD0000010 (.malloc 10 0xD0000010 (.init fun _ => 0) rfl) (by decide) rfl)
    exact ⟨bs, hi⟩

end SBoy28.Kheap
