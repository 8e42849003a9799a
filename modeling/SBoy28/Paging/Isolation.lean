import SBoy28.Paging.Tables

/-!
# Isolation of pages

The directory, the tables and the mapped pages never share a block, physical memory stays mapped
to itself, and a call changes what is found at one page only.
-/

namespace SBoy28.Paging
open Lib

variable {ebss : UInt32} {p : Pmm} {s s' : Vmm} {T : Set ℕ} {i j k n d : ℕ}

section Blocks

/-- The blocks that the allocator has handed out and not taken back. -/
def usedBlocks (ebss : UInt32) (p : Pmm) : Set ℕ :=
  {n | n < 8192 ∧ ¬Reserved ebss n ∧ p.bitmap.mem n = true}

structure PmmOk (ebss : UInt32) (p : Pmm) : Prop where
  counted : Counted p
  reserved : ∀ n, Reserved ebss n → p.bitmap.mem n = true

lemma PmmOk.start (hend : ebss.toNat + 1024 ≤ 2 ^ 25) (p : Pmm) : PmmOk ebss (pmmInit ebss p) :=
  ⟨(PoolOk.start hend p).counted, (PoolOk.start hend p).reserved⟩

/-- The used blocks make a pool that has handed out nothing else. -/
def Pool.ofUsed (ebss : UInt32) (p : Pmm) : Pool :=
  let used := (Finset.range 8192).filter fun n => ¬Reserved ebss n ∧ p.bitmap.mem n = true
  ⟨p, used, used⟩

lemma mem_ofUsed {n : ℕ} : n ∈ (Pool.ofUsed ebss p).returned ↔ n ∈ usedBlocks ebss p := by
  simp [Pool.ofUsed, usedBlocks]

lemma PmmOk.pool (h : PmmOk ebss p) : PoolOk ebss (Pool.ofUsed ebss p) where
  counted := h.counted
  reserved := h.reserved
  returned n hn := ⟨(mem_ofUsed.mp hn).1, (mem_ofUsed.mp hn).2.1⟩
  outstanding n hn := ⟨hn, (mem_ofUsed.mp hn).2.2⟩
  used n hlt hset := by
    by_cases hr : Reserved ebss n
    · exact Or.inl hr
    · exact Or.inr (mem_ofUsed.mpr ⟨hlt, hr, hset⟩)

/-- What a call of `pmm_alloc_block` does to the used blocks. -/
theorem PmmOk.alloc_cases (h : PmmOk ebss p) :
    (pmmAllocBlock p = (0, p) ∧ p.usedBlocks.toNat = 8192) ∨ ∃ n q, pmmAllocBlock p = (UInt32.ofNat n * 4096, q) ∧
      UInt32.ofNat n * 4096 ≠ 0 ∧ n < 8192 ∧ n ∉ usedBlocks ebss p ∧ PmmOk ebss q ∧
      q.usedBlocks.toNat = p.usedBlocks.toNat + 1 ∧ usedBlocks ebss q = insert n (usedBlocks ebss p) := by
  have hpool := h.pool
  rcases hpool.alloc_cases with ⟨hcall, hall⟩ | ⟨n, ht⟩
  · have hfree : p.bitmap.free 8192 = 0 := Bitmap.free_eq_zero_iff.mpr hall
    have hcount := h.counted.count
    exact Or.inl ⟨hcall, by omega⟩
  · right
    have hcall : pmmAllocBlock p = _ := ht.call
    have hclear : p.bitmap.mem n = false := ht.clear
    have hbit := ofNat_toNat ht.lt
    have hnext := hpool.alloc
    have hq : (Pool.ofUsed ebss p).alloc.pmm = (pmmAllocBlock p).2 := alloc_pmm _
    refine ⟨n, (pmmAllocBlock p).2, ?_, ht.addr, ht.lt, ?_, ⟨?_, ?_⟩, ?_, ?_⟩
    · rw [hcall]
    · rintro ⟨-, -, hset⟩
      rw [hclear] at hset
      exact absurd hset (by simp)
    · exact hq ▸ hnext.counted
    · exact hq ▸ hnext.reserved
    · rw [hcall]
      exact (h.counted.take (by rw [hbit]; exact hclear) (by rw [hbit]; exact ht.lt)).2
    · ext k
      rw [hcall]
      simp only [usedBlocks, pmmBitmapSet, Set.mem_insert_iff, Set.mem_ofPred_eq, Bitmap.mem_set, hbit,
        Bool.or_eq_true, decide_eq_true_eq]
      constructor
      · rintro ⟨hlt, hr, hset | rfl⟩
        · exact Or.inr ⟨hlt, hr, hset⟩
        · exact Or.inl rfl
      · rintro (rfl | ⟨hlt, hr, hset⟩)
        · exact ⟨ht.lt, ht.free, Or.inr rfl⟩
        · exact ⟨hlt, hr, Or.inl hset⟩

theorem PmmOk.free (h : PmmOk ebss p) (addr : UInt32) (hn : addr.toNat / 4096 ∈ usedBlocks ebss p) :
    PmmOk ebss (pmmFreeBlock p addr) ∧
      usedBlocks ebss (pmmFreeBlock p addr) = usedBlocks ebss p \ {addr.toNat / 4096} := by
  have hnext : PoolOk ebss ((Pool.ofUsed ebss p).free addr) := h.pool.free (mem_ofUsed.mpr hn)
  obtain ⟨hlt, hr, hset⟩ := hn
  refine ⟨⟨hnext.counted, hnext.reserved⟩, ?_⟩
  have hdiv : (addr / 4096).toNat = addr.toNat / 4096 := UInt32.toNat_div _ _
  rcases free_cases h.counted addr with ⟨-, hclear⟩ | ⟨-, -, hcall⟩
  · rw [hclear hlt] at hset
    exact absurd hset (by simp)
  · ext k
    rw [hcall]
    simp only [usedBlocks, pmmBitmapUnset, Set.mem_sdiff, Set.mem_singleton_iff, Set.mem_ofPred_eq,
      Bitmap.mem_unset, hdiv, Bool.and_eq_true, Bool.not_eq_true', decide_eq_false_iff_not]
    tauto

/-- What `pmm_alloc_block` does to the state of the page tables. -/
theorem allocBlock_cases (h : PmmOk ebss s.pmm) :
    (s.allocBlock = (0, { s with exhausted := true }) ∧ s.pmm.usedBlocks.toNat = 8192) ∨
      ∃ n q, s.allocBlock = (UInt32.ofNat n * 4096, { s with pmm := q }) ∧
      UInt32.ofNat n * 4096 ≠ 0 ∧ (UInt32.ofNat n * 4096).toNat = n * 4096 ∧
      n ∉ usedBlocks ebss s.pmm ∧ PmmOk ebss q ∧
      q.usedBlocks.toNat = s.pmm.usedBlocks.toNat + 1 ∧
      usedBlocks ebss q = insert n (usedBlocks ebss s.pmm) := by
  rcases h.alloc_cases with ⟨hcall, hfull⟩ | ⟨n, q, hcall, hne, hlt, hfresh, hok, hcount, hused⟩
  · left
    refine ⟨?_, hfull⟩
    simp [Vmm.allocBlock, hcall]
  · right
    refine ⟨n, q, ?_, hne, blockAddr_toNat hlt, hfresh, hok, hcount, hused⟩
    simp [Vmm.allocBlock, hcall, hne]

end Blocks

section Tables

/-- The tables stand in blocks of `T`, and the first `k` of them map memory to itself. -/
structure Mapped (k : ℕ) (T : Set ℕ) (s : Vmm) (d : ℕ) : Prop where
  dir : s.pageDirectory.toNat = d * 4096
  owns : Owns (outside 8192) (frameOf s) T
  identity : ∀ i < k, ∀ j < 1024, frameOf s (.page i j) = some (i * 1024 + j)

lemma outside_zero {u : User} (hu : u ∈ outside 8192) : u ∈ outside 0 := by
  cases u with
  | directory => trivial
  | table i => exact hu
  | page i j => exact ⟨hu.1, hu.2.1, Nat.zero_le _⟩

namespace Mapped

variable (h : Mapped k T s d)
include h

lemma directory_ne_table (hi : i < 1024) : frameOf s (.table i) ≠ some d := by
  have hmem : User.directory ∈ outside 8192 := trivial
  exact h.owns.ne_of_other hmem hi (by simp) (frameOf_directory h.dir)

lemma table_ne (hi : i < 1024) (hj : j < 1024) (hij : j ≠ i) (ht : frameOf s (.table i) = some n) :
    frameOf s (.table j) ≠ some n :=
  h.owns.ne_of_other (u := .table i) hi hj (fun he => hij (User.table.inj he)) ht

lemma mono {T' : Set ℕ} (hsub : T ⊆ T') : Mapped k T' s d := ⟨h.dir, h.owns.mono hsub, h.identity⟩

/-- Taking a fresh block as a table of absent entries, or as one of the identity tables. -/
theorem addTable {table : UInt32} (val : ℕ → UInt32) {e : UInt32} (k' : ℕ) (hi : i < 1024)
    (habsent : frameOf s (.table i) = none) (hfresh : n ∉ T) (haddr : table.toNat = n * 4096)
    (he : target e = some n) (hval : 8 ≤ i → ∀ j < 1024, target (val j) = none)
    (hk : ∀ a < k', a < k ∧ a ≠ i ∨ a = i ∧ ∀ j < 1024, target (val j) = some (i * 1024 + j))
    (hk' : k' ≤ 1024) :
    Mapped k' (insert n T) (s.install table val i e) d ∧
      frameOf (s.install table val i e) (.table i) = some n ∧
      ∀ u ∈ outside 8192, u ≠ .table i → frameOf (s.install table val i e) u = frameOf s u := by
  have hdir := (install_rest s table val i e).2.1
  have hnd : n ≠ d := by
    rintro rfl
    exact hfresh (h.owns.taken .directory trivial n (frameOf_directory h.dir))
  have hother : ∀ a < 1024, a ≠ i → frameOf s (.table a) ≠ some n :=
    fun a ha _ => h.owns.ne_of_fresh (u := .table a) ha hfresh
  obtain ⟨hself, hpage, hdirectory, htable, hpages⟩ := frameOf_writeTable h.dir hdir hi hnd hother he
    (fun a ha => h.directory_ne_table ha) (fun b k hk => cell_install h.dir haddr val e hi hk)
  have hsame : ∀ u ∈ outside 8192, u ≠ .table i → frameOf (s.install table val i e) u = frameOf s u := by
    intro u hu hne
    cases u with
    | directory => exact hdirectory
    | table a => exact htable a hu (fun ha => hne (by rw [ha]))
    | page a j =>
      obtain ⟨ha, hj, hout⟩ := hu
      by_cases hai : a = i
      · subst hai
        rw [hpage j hj, hval (by omega) j hj, frameOf_page_none habsent]
      · exact hpages a ha hai j hj
  refine ⟨⟨by rw [hdir, h.dir], h.owns.take hfresh hself hsame, ?_⟩, hself, hsame⟩
  intro a ha j hj
  rcases hk a ha with ⟨hak, hai⟩ | ⟨rfl, hid⟩
  · rw [hpages a (by omega) hai j hj, h.identity a hak j hj]
  · rw [hpage j hj, hid j hj]

lemma identity_other (h8 : 8 ≤ i) (hk : k ≤ 8)
    (hsame : ∀ u ∈ outside 0, u ≠ .page i j → frameOf s' u = frameOf s u) :
    ∀ a < k, ∀ l < 1024, frameOf s' (.page a l) = some (a * 1024 + l) := by
  intro a ha l hl
  have hmem : User.page a l ∈ outside 0 := ⟨by omega, hl, Nat.zero_le _⟩
  have hne : User.page a l ≠ .page i j := by
    intro heq
    have hai := (User.page.inj heq).1
    omega
  rw [hsame _ hmem hne, h.identity a ha l hl]

/-- Mapping a page to a fresh block. -/
theorem setPage {table e : UInt32} {m : ℕ} (hi : i < 1024) (h8 : 8 ≤ i) (hj : j < 1024) (hk : k ≤ 8)
    (ht : frameOf s (.table i) = some n) (htable : table.toNat = n * 4096) (he : target e = some m)
    (hfresh : m ∉ T) :
    Mapped k (insert m T) (s.setEntry table j e) d ∧
      frameOf (s.setEntry table j e) (.page i j) = some m ∧
      ∀ u ∈ outside 0, u ≠ .page i j → frameOf (s.setEntry table j e) u = frameOf s u := by
  have hnd : n ≠ d := fun he => h.directory_ne_table hi (he ▸ ht)
  have hdir : (s.setEntry table j e).pageDirectory = s.pageDirectory := rfl
  obtain ⟨hself, hsame⟩ := frameOf_writePage h.dir hdir hi hnd
    (fun a ha hai => h.table_ne hi ha hai ht) hj ht (fun b l hl => cell_setEntry htable hj hl)
  rw [he] at hself
  have hzero := fun u hu => hsame u (outside_zero hu)
  refine ⟨⟨h.dir, h.owns.take hfresh hself hzero, h.identity_other h8 hk hsame⟩, hself, hsame⟩

/-- Clearing the entry of a mapped page. -/
theorem clearPage {table : UInt32} {m : ℕ} (hi : i < 1024) (h8 : 8 ≤ i) (hj : j < 1024) (hk : k ≤ 8)
    (ht : frameOf s (.table i) = some n) (htable : table.toNat = n * 4096)
    (hp : frameOf s (.page i j) = some m) :
    Mapped k (T \ {m}) (s.setEntry table j 0) d ∧
      frameOf (s.setEntry table j 0) (.page i j) = none ∧
      ∀ u ∈ outside 0, u ≠ .page i j → frameOf (s.setEntry table j 0) u = frameOf s u := by
  have hnd : n ≠ d := fun he => h.directory_ne_table hi (he ▸ ht)
  have hdir : (s.setEntry table j 0).pageDirectory = s.pageDirectory := rfl
  obtain ⟨hself, hsame⟩ := frameOf_writePage h.dir hdir hi hnd
    (fun a ha hai => h.table_ne hi ha hai ht) hj ht (fun b l hl => cell_setEntry htable hj hl)
  have hout : User.page i j ∈ outside 8192 := ⟨hi, hj, by omega⟩
  have hzero := fun u hu => hsame u (outside_zero hu)
  refine ⟨⟨h.dir, h.owns.give hout hp hself hzero, h.identity_other h8 hk hsame⟩, hself, hsame⟩

end Mapped

lemma Mapped.setPmm (h : Mapped k T s d) (q : Pmm) : Mapped k T { s with pmm := q } d :=
  ⟨h.dir, h.owns, h.identity⟩

end Tables

section Calls

/-- The invariant of the allocator and the tables together. -/
structure PagesOk (ebss : UInt32) (s : Vmm) (d : ℕ) : Prop where
  pmm : PmmOk ebss s.pmm
  mapped : Mapped 8 (usedBlocks ebss s.pmm) s d

lemma pdIndex_eq (v : UInt32) : pdIndex v = v.toNat / 4194304 := by
  rw [pdIndex, UInt32.toNat_shiftRight]
  exact Nat.shiftRight_eq_div_pow _ _

lemma ptIndex_eq (v : UInt32) : ptIndex v = v.toNat / 4096 % 1024 := by
  rw [ptIndex, UInt32.toNat_and, UInt32.toNat_shiftRight]
  have hmask := Nat.and_two_pow_sub_one_eq_mod (v.toNat >>> 12) 10
  have hshift : v.toNat >>> 12 = v.toNat / 4096 := Nat.shiftRight_eq_div_pow _ _
  rw [hshift] at hmask
  rw [← hmask, ← hshift]
  rfl

lemma pdIndex_lt (v : UInt32) : pdIndex v < 1024 := by
  have hv := v.toNat_lt
  rw [pdIndex_eq]
  omega

lemma ptIndex_lt (v : UInt32) : ptIndex v < 1024 := by
  rw [ptIndex_eq]
  omega

/-- The page of an address. -/
def pageOf (v : UInt32) : User := .page (pdIndex v) (ptIndex v)

lemma pageOf_eq_iff {v w : UInt32} : pageOf w = pageOf v ↔ w.toNat / 4096 = v.toNat / 4096 := by
  have hv := v.toNat_lt
  have hw := w.toNat_lt
  simp only [pageOf, User.page.injEq, pdIndex_eq, ptIndex_eq]
  omega

lemma pageOf_outside {v : UInt32} (hv : 8192 * 4096 ≤ v.toNat) : pageOf v ∈ outside 8192 := by
  refine ⟨pdIndex_lt v, ptIndex_lt v, ?_⟩
  rw [pdIndex_eq, ptIndex_eq]
  omega

lemma pageTableFor_new {s₁ : Vmm} {addr : UInt32} (flags : UInt32)
    (hnew : ¬(s.entry s.pageDirectory i &&& pagePresent ≠ 0)) (hcall : s.allocBlock = (addr, s₁)) :
    pageTableFor s i flags = (addr, s₁.install addr (fun _ => 0) i
      (addr ||| pagePresent ||| pageRw ||| (flags &&& pageUser))) := by
  rw [pageTableFor, if_neg hnew, hcall, Vmm.install]

/-- The table of a page exists or is created from a fresh block; `T` leaves out the block that the
caller holds already. -/
theorem pageTableFor_cases (hp : PmmOk ebss s.pmm) (h : Mapped 8 T s d) (hT : T ⊆ usedBlocks ebss s.pmm)
    (hi : i < 1024) (h8 : 8 ≤ i) (flags : UInt32) :
    (pageTableFor s i flags).2.exhausted = true ∨
      ∃ n T', (pageTableFor s i flags).1.toNat = n * 4096 ∧
        frameOf (pageTableFor s i flags).2 (.table i) = some n ∧
        PmmOk ebss (pageTableFor s i flags).2.pmm ∧ Mapped 8 T' (pageTableFor s i flags).2 d ∧
        usedBlocks ebss (pageTableFor s i flags).2.pmm = usedBlocks ebss s.pmm ∪ T' ∧
        (∀ m ∈ usedBlocks ebss s.pmm, m ∉ T → m ∉ T') ∧
        ∀ u ∈ outside 8192, u ≠ .table i → frameOf (pageTableFor s i flags).2 u = frameOf s u := by
  by_cases hpresent : s.entry s.pageDirectory i &&& pagePresent ≠ 0
  · right
    have hcall : pageTableFor s i flags = (s.entry s.pageDirectory i &&& ~~~0xFFF, s) := by
      rw [pageTableFor, if_pos hpresent]
    rw [hcall]
    refine ⟨(s.entry s.pageDirectory i).toNat / 4096, T, base_toNat _, ?_, hp, h, ?_, ?_, ?_⟩
    · rw [frameOf, target, if_pos hpresent]
    · exact (Set.union_eq_self_of_subset_right hT).symm
    · exact fun m _ hm => hm
    · exact fun u _ _ => rfl
  · have habsent : frameOf s (.table i) = none := by rw [frameOf, target, if_neg hpresent]
    rcases allocBlock_cases hp with ⟨hcall, -⟩ | ⟨n, q, hcall, -, haddr, hfresh, hq, -, hused⟩
    · left
      rw [pageTableFor_new flags hpresent hcall, (install_rest _ _ _ _ _).2.2]
    · right
      have htarget := target_table (UInt32.ofNat n * 4096) flags
      rw [haddr, Nat.mul_div_cancel _ (by decide)] at htarget
      obtain ⟨hmapped, hself, hsame⟩ := (h.setPmm q).addTable (fun _ => 0) 8 hi habsent (fun hn => hfresh (hT hn))
        haddr htarget (fun _ _ _ => target_zero) (fun a ha => Or.inl ⟨ha, by omega⟩) (by decide)
      rw [pageTableFor_new flags hpresent hcall, (install_rest _ _ _ _ _).1]
      refine ⟨n, insert n T, haddr, hself, hq, hmapped, ?_, ?_, hsame⟩
      · simp only [hused, Set.union_insert, Set.union_eq_self_of_subset_right hT]
      · rintro m hm hmT (rfl | hmT')
        · exact hfresh hm
        · exact hmT hmT'

/-- What `vmm_alloc_page` does to the users of blocks. -/
theorem PagesOk.allocPage (h : PagesOk ebss s d) {v : UInt32} (hv : 8192 * 4096 ≤ v.toNat) (flags : UInt32) :
    (vmmAllocPage s v flags).exhausted = true ∨
      ∃ m, PagesOk ebss (vmmAllocPage s v flags) d ∧ frameOf (vmmAllocPage s v flags) (pageOf v) = some m ∧
        m ∉ usedBlocks ebss s.pmm ∧
        ∀ u ∈ outside 8192, u ≠ pageOf v → u ≠ .table (pdIndex v) →
          frameOf (vmmAllocPage s v flags) u = frameOf s u := by
  rcases allocBlock_cases h.pmm with ⟨hcall, -⟩ | ⟨m, q, hcall, hne, haddr, hfresh, hq, -, hused⟩
  · left
    rw [vmmAllocPage, hcall]
    rfl
  · have hresult : vmmAllocPage s v flags =
        vmmMapPage { s with pmm := q } v (UInt32.ofNat m * 4096) flags := by
      rw [vmmAllocPage, hcall, if_pos hne]
    have hsub : usedBlocks ebss s.pmm ⊆ usedBlocks ebss q := hused ▸ Set.subset_insert _ _
    have h8 : 8 ≤ pdIndex v := by
      rw [pdIndex_eq]
      omega
    have hm : m ∈ usedBlocks ebss q := hused ▸ Set.mem_insert _ _
    rw [hresult, vmmMapPage]
    rcases pageTableFor_cases (s := { s with pmm := q }) hq (h.mapped.setPmm q) hsub (pdIndex_lt v) h8 flags with
      hex | ⟨n, T, hn, ht, hp, hmapped, hall, hkeep, hsame⟩
    · exact Or.inl hex
    · right
      have htarget := target_page (UInt32.ofNat m * 4096) flags
      rw [haddr, Nat.mul_div_cancel _ (by decide)] at htarget
      obtain ⟨hset, hself, hother⟩ := hmapped.setPage (pdIndex_lt v) h8 (ptIndex_lt v) le_rfl ht hn htarget
        (hkeep m hm hfresh)
      refine ⟨m, ⟨hp, hset.mono ?_⟩, hself, hfresh, ?_⟩
      · rw [setEntry_pmm, hall]
        rintro k (rfl | hk)
        · exact Or.inl hm
        · exact Or.inr hk
      · intro u hu hpage htable
        rw [hother u (outside_zero hu) hpage, hsame u hu htable]
        rfl

/-- What `vmm_free_page` does: nothing if there is no page, and else it gives the block of the page back
and clears its entry. -/
theorem freePage_cases (s : Vmm) (v : UInt32) :
    (frameOf s (pageOf v) = none ∧ vmmFreePage s v = s) ∨ ∃ (n m : ℕ) (table addr : UInt32),
      frameOf s (.table (pdIndex v)) = some n ∧ table.toNat = n * 4096 ∧ frameOf s (pageOf v) = some m ∧
      addr.toNat = m * 4096 ∧
      vmmFreePage s v = Vmm.setEntry { s with pmm := pmmFreeBlock s.pmm addr } table (ptIndex v) 0 := by
  by_cases hpde : s.entry s.pageDirectory (pdIndex v) &&& pagePresent ≠ 0
  · obtain ⟨a, ha⟩ : ∃ a, a = s.entry s.pageDirectory (pdIndex v) &&& ~~~0xFFF := ⟨_, rfl⟩
    have ht : frameOf s (.table (pdIndex v)) = some ((s.entry s.pageDirectory (pdIndex v)).toNat / 4096) := by
      rw [frameOf, target, if_pos hpde]
    have hpage : frameOf s (pageOf v) = target (s.entry a (ptIndex v)) := by
      rw [pageOf, frameOf, if_pos hpde, ha]
    have haddr := base_toNat (s.entry s.pageDirectory (pdIndex v))
    rw [← ha] at haddr
    by_cases hpte : s.entry a (ptIndex v) &&& pagePresent ≠ 0
    · right
      rw [target, if_pos hpte] at hpage
      refine ⟨_, _, a, s.entry a (ptIndex v) &&& ~~~0xFFF, ht, haddr, hpage, base_toNat _, ?_⟩
      rw [vmmFreePage, if_pos hpde, ← ha, if_pos hpte]
    · left
      rw [hpage, target, if_neg hpte]
      refine ⟨rfl, ?_⟩
      rw [vmmFreePage, if_pos hpde, ← ha, if_neg hpte]
  · left
    rw [pageOf, frameOf, if_neg hpde]
    refine ⟨rfl, ?_⟩
    rw [vmmFreePage, if_neg hpde]

theorem PagesOk.freePage (h : PagesOk ebss s d) {v : UInt32} (hv : 8192 * 4096 ≤ v.toNat) :
    PagesOk ebss (vmmFreePage s v) d ∧ frameOf (vmmFreePage s v) (pageOf v) = none ∧
      ∀ u ∈ outside 8192, u ≠ pageOf v → frameOf (vmmFreePage s v) u = frameOf s u := by
  have h8 : 8 ≤ pdIndex v := by
    rw [pdIndex_eq]
    omega
  rcases freePage_cases s v with ⟨hpage, hresult⟩ | ⟨n, m, table, addr, ht, htable, hpage, haddr, hresult⟩
  · rw [hresult]
    exact ⟨h, hpage, fun u _ _ => rfl⟩
  · have hdiv : addr.toNat / 4096 = m := by rw [haddr, Nat.mul_div_cancel _ (by decide)]
    have hmem := h.mapped.owns.taken _ (pageOf_outside hv) m hpage
    obtain ⟨hq, hused⟩ := h.pmm.free addr (hdiv ▸ hmem)
    rw [hdiv] at hused
    obtain ⟨hclear, hself, hother⟩ := (h.mapped.setPmm (pmmFreeBlock s.pmm addr)).clearPage (pdIndex_lt v) h8
      (ptIndex_lt v) le_rfl ht htable hpage
    rw [hresult]
    refine ⟨⟨hq, ?_⟩, hself, fun u hu hne => hother u (outside_zero hu) hne⟩
    rw [setEntry_pmm, hused]
    exact hclear

end Calls

end SBoy28.Paging
