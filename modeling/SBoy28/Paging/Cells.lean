import SBoy28.Paging.Accounting
import SBoy28.Lib.Memory

/-!
# What a call leaves alone

The calls write into the page directory and into page tables. What is in any other block that is in use stays as it
is.
-/

namespace SBoy28.Paging
open Lib

variable {ebss : UInt32} {s s' : Vmm} {d n i j k : ℕ}

/-- A byte of physical memory. -/
def physicalByte (s : Vmm) (a : ℕ) : UInt8 := byteOf (s.word (a / 4)) (a % 4)

/-- The block holds neither the directory nor a table. -/
def Untabled (s : Vmm) (d n : ℕ) : Prop := n ≠ d ∧ ∀ i < 1024, frameOf s (.table i) ≠ some n

lemma frameOf_congr (hd : s.pageDirectory.toNat = d * 4096) (hd' : s'.pageDirectory = s.pageDirectory)
    (hn : Untabled s d n) (hcell : ∀ b k, k < 1024 → b ≠ n → s'.cell b k = s.cell b k) {u : User}
    (hu : u ∈ outside 0) : frameOf s' u = frameOf s u := by
  have hdir : s'.pageDirectory.toNat = d * 4096 := by rw [hd', hd]
  have htable : ∀ k < 1024, frameOf s' (.table k) = frameOf s (.table k) := by
    intro k hk
    rw [frameOf_table hdir, frameOf_table hd, hcell d k hk hn.1.symm]
  cases u with
  | directory => rw [frameOf_directory hdir, frameOf_directory hd]
  | table k => exact htable k hu
  | page k l =>
    obtain ⟨hk, hl, -⟩ := hu
    rw [frameOf_page, frameOf_page, htable k hk]
    cases hf : frameOf s (.table k) with
    | none => rfl
    | some b =>
      have hb : b ≠ n := fun h => hn.2 k hk (h ▸ hf)
      rw [Option.bind_some, Option.bind_some, hcell b l hl hb]

lemma PagesOk.untabled (h : PagesOk ebss s d) {u : User} (hu : u ∈ outside 8192) (hf : frameOf s u = some n)
    (hpage : u ≠ .directory ∧ ∀ i, u ≠ .table i) : Untabled s d n := by
  refine ⟨?_, fun i hi => h.mapped.owns.ne_of_other hu hi (hpage.2 i).symm hf⟩
  have hdir : User.directory ∈ outside 8192 := trivial
  rintro rfl
  exact h.mapped.owns.ne_of_other hu hdir hpage.1.symm hf (frameOf_directory h.mapped.dir)

lemma PagesOk.reserved_untabled (h : PagesOk ebss s d) (hn : Reserved ebss n) : Untabled s d n := by
  constructor
  · rintro rfl
    exact (h.mapped.owns.taken .directory trivial n (frameOf_directory h.mapped.dir)).2.1 hn
  · intro i hi hf
    exact (h.mapped.owns.taken (.table i) hi n hf).2.1 hn

/-- A call for a page leaves alone what is in a block that is in use, unless it is the one of a table. -/
lemma PagesOk.allocPage_cell (h : PagesOk ebss s d) (v flags : UInt32)
    (halive : (vmmAllocPage s v flags).exhausted = false) (hn : Untabled s d n)
    (hused : Reserved ebss n ∨ n ∈ usedBlocks ebss s.pmm) (hk : k < 1024) :
    (vmmAllocPage s v flags).cell n k = s.cell n k := by
  have hfresh : ∀ {p q : Pmm} {m : ℕ}, (m ∉ usedBlocks ebss p) → usedBlocks ebss q = insert m (usedBlocks ebss p) →
      usedBlocks ebss s.pmm ⊆ usedBlocks ebss p → n ≠ m := by
    rintro p q m hm hq hsub rfl
    rcases hused with hres | hmem
    · exact (hq ▸ Set.mem_insert n _ : n ∈ usedBlocks ebss q).2.1 hres
    · exact hm (hsub hmem)
  rcases allocBlock_cases h.pmm with ⟨hcall, -⟩ | ⟨m, q, hcall, hne, -, hm, hq, -, hinsert⟩
  · rw [vmmAllocPage, hcall] at halive
    cases halive
  have hresult : vmmAllocPage s v flags = vmmMapPage { s with pmm := q } v (UInt32.ofNat m * 4096) flags := by
    rw [vmmAllocPage, hcall, if_pos hne]
  rw [hresult, vmmMapPage]
  by_cases hpresent : s.entry s.pageDirectory (pdIndex v) &&& pagePresent ≠ 0
  · have htable : pageTableFor { s with pmm := q } (pdIndex v) flags =
        (s.entry s.pageDirectory (pdIndex v) &&& ~~~0xFFF, { s with pmm := q }) := if_pos hpresent
    have hframe : frameOf s (.table (pdIndex v)) = some ((s.entry s.pageDirectory (pdIndex v)).toNat / 4096) := by
      rw [frameOf, target, if_pos hpresent]
    rw [htable, cell_setEntry (base_toNat _) (ptIndex_lt v) hk, if_neg]
    · rfl
    · rintro ⟨rfl, -⟩
      exact hn.2 _ (pdIndex_lt v) hframe
  · rcases allocBlock_cases (s := { s with pmm := q }) hq with
      ⟨hcall', -⟩ | ⟨t, q', hcall', -, haddr, ht, hq', -, hinsert'⟩
    · rw [hresult, vmmMapPage, setEntry_exhausted, pageTableFor_new (s := { s with pmm := q }) flags hpresent hcall',
        (install_rest _ _ _ _ _).2.2] at halive
      cases halive
    · have hnt : n ≠ t := hfresh ht hinsert' (hinsert ▸ Set.subset_insert m _)
      rw [pageTableFor_new (s := { s with pmm := q }) flags hpresent hcall', cell_setEntry haddr (ptIndex_lt v) hk,
        if_neg fun he => hnt he.1, cell_install (s := { s with pmm := q' }) h.mapped.dir haddr _ _ (pdIndex_lt v) hk,
        if_neg fun he => hn.1 he.1, if_neg hnt]
      rfl

lemma freePage_cell (hn : Untabled s d n) (v : UInt32) (hk : k < 1024) :
    (vmmFreePage s v).cell n k = s.cell n k := by
  rcases freePage_cases s v with ⟨-, hresult⟩ | ⟨b, m, table, addr, ht, htable, -, -, hresult⟩
  · rw [hresult]
  · rw [hresult, cell_setEntry htable (ptIndex_lt v) hk, if_neg]
    · rfl
    · rintro ⟨rfl, -⟩
      exact hn.2 _ (pdIndex_lt v) ht

/-- A byte is in a word of its block. -/
lemma physicalByte_cell (s : Vmm) (a : ℕ) : physicalByte s a = byteOf (s.cell (a / 4096) (a / 4 % 1024)) (a % 4) := by
  have hword : a / 4 = a / 4096 * 1024 + a / 4 % 1024 := by omega
  rw [physicalByte, Vmm.cell, ← hword]

end SBoy28.Paging
