import SBoy28.Paging.Accounting
import SBoy28.Lib.Simulation

/-!
# The frames of the kernel

The frames that `pmm_init` reserves, the page directory and the page tables have to stay marked as used.
`vmm_alloc_page` and `vmm_map_page` keep them so for all arguments, with or without free memory.
`vmm_free_page` gives back whatever frame its walk finds, and the identity mapping shows it all of them.
-/

namespace SBoy28.Paging
open Lib

variable {ebss : UInt32} {s s' : Vmm} {p : Pmm} {i j n d : ℕ}

section Specification

inductive VmmCall where
  | allocPage (virtualAddr flags : UInt32)
  | mapPage (virtualAddr physicalAddr flags : UInt32)
  | freePage (virtualAddr : UInt32)
  deriving DecidableEq, Repr

def VmmCall.perform (s : Vmm) : VmmCall → Vmm
  | .allocPage v flags => vmmAllocPage s v flags
  | .mapPage v a flags => vmmMapPage s v a flags
  | .freePage v => vmmFreePage s v

/-- A frame that `pmm_init` reserved, or that is in use as the page directory or as a page table. -/
def KernelFrame (ebss : UInt32) (s : Vmm) (n : ℕ) : Prop :=
  Reserved ebss n ∨ frameOf s .directory = some n ∨ ∃ i < 1024, frameOf s (.table i) = some n

/-- If the call frees a page, then its walk finds no kernel frame. -/
def Spares (ebss : UInt32) (s : Vmm) : VmmCall → Prop
  | .freePage v => ∀ n < s.pmm.totalBlocks.toNat, frameOf s (pageOf v) = some n → ¬KernelFrame ebss s n
  | _ => True

end Specification

section Allocator

/-- A call of `pmm_alloc_block` keeps used blocks used and returns a clear one. -/
lemma PmmOk.alloc (h : PmmOk ebss p) : PmmOk ebss (pmmAllocBlock p).2 ∧
    (∀ n, p.bitmap.mem n = true → (pmmAllocBlock p).2.bitmap.mem n = true) ∧
    ((pmmAllocBlock p).1 ≠ 0 → p.bitmap.mem ((pmmAllocBlock p).1.toNat / 4096) = false) := by
  rcases h.pool.alloc_cases with ⟨hcall, -⟩ | ⟨n, ht⟩
  · have hnone : pmmAllocBlock p = (0, p) := hcall
    rw [hnone]
    exact ⟨h, fun _ hn => hn, fun hne => absurd rfl hne⟩
  · have hbit := ofNat_toNat ht.lt
    have hcall : pmmAllocBlock p = (UInt32.ofNat n * 4096,
      { pmmBitmapSet p (UInt32.ofNat n) with usedBlocks := p.usedBlocks + 1 }) := ht.call
    have hkeeps : ∀ k, p.bitmap.mem k = true → (p.bitmap.set (UInt32.ofNat n)).mem k = true := by
      intro k hk
      rw [Bitmap.mem_set, hk, Bool.true_or]
    rw [hcall]
    refine ⟨⟨?_, fun k hk => hkeeps k (h.reserved k hk)⟩, hkeeps, fun _ => ?_⟩
    · exact (h.counted.take (by rw [hbit]; exact ht.clear) (by rw [hbit]; exact ht.lt)).1
    · rw [blockAddr_toNat ht.lt, Nat.mul_div_cancel _ (by decide)]
      exact ht.clear

/-- Giving back a block that was not handed out does nothing, unless it is reserved. -/
lemma PmmOk.free_other (h : PmmOk ebss p) {addr : UInt32} (hn : addr.toNat / 4096 ∉ usedBlocks ebss p)
    (hr : addr.toNat / 4096 < 8192 → ¬Reserved ebss (addr.toNat / 4096)) : pmmFreeBlock p addr = p := by
  rcases free_cases h.counted addr with ⟨hcall, -⟩ | ⟨hlt, hset, -⟩
  · exact hcall
  · exact absurd ⟨hlt, hr hlt, hset⟩ hn

end Allocator

section Invariant

/-- The directory and the tables stand in blocks that the allocator has handed out, or a table stands at the
null pointer, and no table stands in the block of the directory. -/
structure TablesOk (ebss : UInt32) (s : Vmm) (d : ℕ) : Prop where
  pmm : PmmOk ebss s.pmm
  dir : s.pageDirectory.toNat = d * 4096
  directory : d ∈ usedBlocks ebss s.pmm
  table : ∀ i < 1024, ∀ n, frameOf s (.table i) = some n → n ≠ d ∧ (n = 0 ∨ n ∈ usedBlocks ebss s.pmm)

lemma reserved_zero (ebss : UInt32) : Reserved ebss 0 := Or.inl (by decide)

namespace TablesOk

variable (h : TablesOk ebss s d)
include h

lemma ne_zero : d ≠ 0 := by
  rintro rfl
  exact h.directory.2.1 (reserved_zero ebss)

lemma total : s.pmm.totalBlocks.toNat = 8192 := by
  rw [h.pmm.counted.total]
  rfl

/-- An entry written into a block other than the directory's leaves the tables where they are. -/
lemma table_setEntry {table e : UInt32} (ht : table.toNat = n * 4096) (hn : n ≠ d) (hj : j < 1024) (hi : i < 1024) :
    frameOf (s.setEntry table j e) (.table i) = frameOf s (.table i) := by
  have hdir : (s.setEntry table j e).pageDirectory.toNat = d * 4096 := h.dir
  rw [frameOf_table hdir, frameOf_table h.dir, cell_setEntry ht hj hi, if_neg (fun he => hn he.1.symm)]

lemma setEntry {table e : UInt32} (ht : table.toNat = n * 4096) (hn : n ≠ d) (hj : j < 1024) :
    TablesOk ebss (s.setEntry table j e) d where
  pmm := h.pmm
  dir := h.dir
  directory := h.directory
  table i hi m hm := by
    rw [h.table_setEntry ht hn hj hi] at hm
    exact h.table i hi m hm

/-- The allocator hands out a block that is not the directory's, or the null pointer. -/
lemma allocBlock : TablesOk ebss s.allocBlock.2 d ∧ ∃ n, s.allocBlock.1.toNat = n * 4096 ∧ n ≠ d ∧
    (n = 0 ∨ n ∈ usedBlocks ebss s.allocBlock.2.pmm) := by
  rcases allocBlock_cases h.pmm with ⟨hcall, -⟩ | ⟨n, q, hcall, -, haddr, hfresh, hq, -, hused⟩
  · rw [hcall]
    exact ⟨⟨h.pmm, h.dir, h.directory, h.table⟩, 0, rfl, h.ne_zero.symm, Or.inl rfl⟩
  · rw [hcall]
    have hsub : usedBlocks ebss s.pmm ⊆ usedBlocks ebss q := hused ▸ Set.subset_insert _ _
    refine ⟨⟨hq, h.dir, hsub h.directory, fun i hi m hm => ?_⟩, n, haddr, ?_,
      Or.inr (hused ▸ Set.mem_insert _ _)⟩
    · exact ⟨(h.table i hi m hm).1, (h.table i hi m hm).2.imp_right fun hm' => hsub hm'⟩
    · rintro rfl
      exact hfresh h.directory

lemma install {table e : UInt32} (ht : table.toNat = n * 4096) (hn : n ≠ d)
    (hused : n = 0 ∨ n ∈ usedBlocks ebss s.pmm) (he : target e = some n) (val : ℕ → UInt32) (hi : i < 1024) :
    TablesOk ebss (s.install table val i e) d := by
  obtain ⟨hpmm, hdir, -⟩ := install_rest s table val i e
  have hdir' : (s.install table val i e).pageDirectory.toNat = d * 4096 := by rw [hdir, h.dir]
  refine ⟨by rw [hpmm]; exact h.pmm, hdir', by rw [hpmm]; exact h.directory, ?_⟩
  intro a ha m hm
  rw [frameOf_table hdir', cell_install h.dir ht val e hi ha] at hm
  rw [hpmm]
  by_cases hai : a = i
  · rw [if_pos ⟨rfl, hai⟩, he, Option.some_inj] at hm
    exact hm ▸ ⟨hn, hused⟩
  · rw [if_neg (fun hc => hai hc.2), if_neg hn.symm, ← frameOf_table h.dir] at hm
    exact h.table a ha m hm

end TablesOk

end Invariant

section Calls

namespace TablesOk

variable (h : TablesOk ebss s d)
include h

lemma pageTableFor (hi : i < 1024) (flags : UInt32) : TablesOk ebss (pageTableFor s i flags).2 d ∧
    ∃ n, (Paging.pageTableFor s i flags).1.toNat = n * 4096 ∧ n ≠ d := by
  by_cases hpresent : s.entry s.pageDirectory i &&& pagePresent ≠ 0
  · rw [Paging.pageTableFor, if_pos hpresent]
    have ht : frameOf s (.table i) = some ((s.entry s.pageDirectory i).toNat / 4096) := by
      rw [frameOf, target, if_pos hpresent]
    exact ⟨h, _, base_toNat _, (h.table i hi _ ht).1⟩
  · obtain ⟨hok, n, haddr, hn, hused⟩ := h.allocBlock
    have htarget := target_table s.allocBlock.1 flags
    rw [haddr, Nat.mul_div_cancel _ (by decide)] at htarget
    rw [pageTableFor_new flags hpresent rfl]
    exact ⟨hok.install haddr hn hused htarget _ hi, n, haddr, hn⟩

lemma mapPage (v a flags : UInt32) : TablesOk ebss (vmmMapPage s v a flags) d := by
  obtain ⟨hok, n, haddr, hn⟩ := h.pageTableFor (pdIndex_lt v) flags
  rw [vmmMapPage]
  exact hok.setEntry haddr hn (ptIndex_lt v)

lemma allocPage (v flags : UInt32) : TablesOk ebss (vmmAllocPage s v flags) d := by
  obtain ⟨hok, -⟩ := h.allocBlock
  rw [vmmAllocPage]
  split
  · exact hok.mapPage v _ flags
  · exact hok

lemma identityTable {k : ℕ} (hk : k < 1024) : TablesOk ebss (identityTable 8192 s k) d := by
  obtain ⟨hok, n, haddr, hn, hused⟩ := h.allocBlock
  have htarget := target_identity s.allocBlock.1
  rw [haddr, Nat.mul_div_cancel _ (by decide)] at htarget
  rw [identityTable_eq rfl]
  exact hok.install haddr hn hused htarget _ hk

/-- `vmm_free_page` keeps the kernel frames if its walk does not find one. -/
lemma freePage {v : UInt32} (hs : Spares ebss s (.freePage v)) : TablesOk ebss (vmmFreePage s v) d := by
  rcases freePage_cases s v with ⟨-, hresult⟩ | ⟨n, m, table, addr, ht, htable, hpage, haddr, hresult⟩
  · rw [hresult]
    exact h
  · have hdiv : addr.toNat / 4096 = m := by rw [haddr, Nat.mul_div_cancel _ (by decide)]
    have hnd := (h.table (pdIndex v) (pdIndex_lt v) n ht).1
    have hspared : m < 8192 → ¬KernelFrame ebss s m := fun hm => hs m (h.total ▸ hm) hpage
    rw [hresult]
    refine TablesOk.setEntry (s := { s with pmm := pmmFreeBlock s.pmm addr }) ?_ htable hnd (ptIndex_lt v)
    by_cases hm : m ∈ usedBlocks ebss s.pmm
    · obtain ⟨hq, hused⟩ := h.pmm.free addr (hdiv ▸ hm)
      rw [hdiv] at hused
      have hkernel := hspared hm.1
      refine ⟨hq, h.dir, ?_, ?_⟩
      · simp only [hused]
        refine ⟨h.directory, fun he => hkernel (Or.inr (Or.inl ?_))⟩
        rw [frameOf_directory h.dir, he]
      · intro i hi k hk
        obtain ⟨hkd, hk0⟩ := h.table i hi k hk
        refine ⟨hkd, hk0.imp_right fun hku => ?_⟩
        simp only [hused]
        exact ⟨hku, fun he => hkernel (Or.inr (Or.inr ⟨i, hi, he ▸ hk⟩))⟩
    · have hsame : pmmFreeBlock s.pmm addr = s.pmm := by
        refine h.pmm.free_other (hdiv ▸ hm) fun hlt hr => ?_
        rw [hdiv] at hlt hr
        exact hspared hlt (Or.inl hr)
      rw [hsame]
      exact h

theorem perform {c : VmmCall} (hs : Spares ebss s c) : TablesOk ebss (c.perform s) d := by
  cases c with
  | allocPage v flags => exact h.allocPage v flags
  | mapPage v a flags => exact h.mapPage v a flags
  | freePage v => exact h.freePage hs

end TablesOk

end Calls

section Boot

/-- The loop over the identity tables, with or without blocks for them. -/
lemma TablesOk.turns (h : TablesOk ebss s d) {k : ℕ} (hk : k ≤ 1024) :
    TablesOk ebss ((List.range k).foldl (Paging.identityTable 8192) s) d := by
  induction k with
  | zero => exact h
  | succ k ih =>
    rw [List.range_succ, List.foldl_append]
    exact (ih (by omega)).identityTable (by omega)

end Boot

section Results

end Results

end SBoy28.Paging
