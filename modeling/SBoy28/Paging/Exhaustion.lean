import SBoy28.Paging.Accounting

/-!
# Out of frames

`vmm_alloc_page` and `vmm_map_page` do not look at what `pmm_alloc_block` returns for a page table, and
`vmm_alloc_page` returns its address in any case. So a call that runs out of frames leaves a table at the
null pointer, or reports a page that is not there.
-/

namespace SBoy28.Paging
open Lib

variable {s : Vmm} {v : UInt32} {i : ℕ}

section Specification

/-- A call that maps a page. -/
inductive MappingCall where
  | allocPage (virtualAddr flags : UInt32)
  | mapPage (virtualAddr physicalAddr flags : UInt32)
  deriving DecidableEq, Repr

/-- A call with the pointer that it returns; `vmm_map_page` returns none. -/
def MappingCall.run (s : Vmm) : MappingCall → Option UInt32 × Vmm
  | .allocPage v flags => (some v, vmmAllocPage s v flags)
  | .mapPage v a flags => (none, vmmMapPage s v a flags)

/-- `pmm_alloc_block` returns the null pointer at some point in the call. -/
def Denied (s : Vmm) (c : MappingCall) : Prop := (c.run { s with exhausted := false }).2.exhausted = true

/-- The call returns the null pointer, if it returns one, and leaves the directory, the memory and the
number of used frames as they were. -/
structure FailsCleanly (s : Vmm) (c : MappingCall) : Prop where
  result : ∀ a, (c.run s).1 = some a → a = 0
  directory : (c.run s).2.pageDirectory = s.pageDirectory
  memory : (c.run s).2.word = s.word
  used : (c.run s).2.pmm.usedBlocks = s.pmm.usedBlocks

/-- No frame is free. -/
def AllUsed (p : Pmm) : Prop := ∀ n < p.totalBlocks.toNat, p.bitmap.mem n = true

end Specification

section Calls

lemma bitmapSizeDwords_bounds (t : UInt32) :
    t.toNat ≤ (bitmapSizeDwords t).toNat * 32 ∧ (bitmapSizeDwords t).toNat * 32 ≤ 2 ^ 32 := by
  have hlt := t.toNat_lt
  have h1 : (1 : UInt32).toNat = 1 := rfl
  have hdiv : (t / 32).toNat = t.toNat / 32 := UInt32.toNat_div t 32
  have hmod : (t % 32).toNat = t.toNat % 32 := UInt32.toNat_mod t 32
  unfold bitmapSizeDwords
  split
  · rw [toNat_add_of_lt (by omega), hdiv, h1]
    omega
  · rename_i h
    have h0 : t.toNat % 32 = 0 := by
      rw [← hmod, not_not.mp h]
      rfl
    omega

/-- `pmm_alloc_block` on any bitmap: it takes a frame unless there is none. -/
lemma allocBlock_any (p : Pmm) : (AllUsed p ∧ pmmAllocBlock p = (0, p)) ∨
    (¬AllUsed p ∧ (pmmAllocBlock p).2.usedBlocks = p.usedBlocks + 1) := by
  obtain ⟨hlimit, hwords⟩ := bitmapSizeDwords_bounds p.totalBlocks
  rw [pmmAllocBlock, Bitmap.scan_eq p.bitmap hlimit hwords]
  cases hfind : (List.range p.totalBlocks.toNat).find? (fun n => !p.bitmap.mem n) with
  | none =>
    rw [List.find?_range_eq_none] at hfind
    exact Or.inl ⟨fun n hn => by simpa using hfind n hn, rfl⟩
  | some n =>
    rw [List.find?_range_eq_some] at hfind
    obtain ⟨hn, hlt, -⟩ := hfind
    refine Or.inr ⟨fun hall => ?_, rfl⟩
    rw [hall n (List.mem_range.mp hlt)] at hn
    cases hn

lemma mapPage_exhausted (s : Vmm) (v a flags : UInt32) : (vmmMapPage s v a flags).exhausted =
    (s.exhausted || (!tablePresent s (pdIndex v) && (pmmAllocBlock s.pmm).1 == 0)) := by
  rw [vmmMapPage, setEntry_exhausted]
  by_cases hpresent : s.entry s.pageDirectory (pdIndex v) &&& pagePresent ≠ 0
  · rw [pageTableFor, if_pos hpresent, tablePresent_iff.mpr hpresent]
    simp
  · have habsent : tablePresent s (pdIndex v) = false := by
      simpa using fun h => hpresent (tablePresent_iff.mp h)
    rw [pageTableFor_new flags hpresent rfl, (install_rest _ _ _ _ _).2.2, habsent]
    simp

lemma entry_setEntry_self (s : Vmm) (table : UInt32) (i : ℕ) (e : UInt32) :
    (s.setEntry table i e).entry table i = e := by
  simp [Vmm.entry, Vmm.setEntry]

lemma present_setEntry {e dir : UInt32} (he : e &&& pagePresent ≠ 0) (table : UInt32) (k : ℕ)
    (hi : s.entry dir i &&& pagePresent ≠ 0) : (s.setEntry table k e).entry dir i &&& pagePresent ≠ 0 := by
  simp only [Vmm.entry, Vmm.setEntry, Function.update_apply]
  split
  · exact he
  · exact hi

lemma mapPage_present (s : Vmm) (v a flags : UInt32) : tablePresent (vmmMapPage s v a flags) (pdIndex v) = true := by
  have hpage : ((a &&& ~~~0xFFF) ||| (flags &&& 0xFFF) ||| pagePresent) &&& pagePresent ≠ 0 :=
    present_or.mpr (Or.inr (by decide))
  rw [tablePresent_iff, vmmMapPage, setEntry_pageDirectory]
  apply present_setEntry hpage
  by_cases hpresent : s.entry s.pageDirectory (pdIndex v) &&& pagePresent ≠ 0
  · rw [pageTableFor, if_pos hpresent]
    exact hpresent
  · rw [pageTableFor_new flags hpresent rfl, Vmm.install, setEntry_pageDirectory, entry_setEntry_self]
    exact present_or.mpr (Or.inl (present_or.mpr (Or.inl (present_or.mpr (Or.inr (by decide))))))

/-- `vmm_map_page` that needs a page table changes the directory, with or without a frame for it. -/
lemma mapPage_changes (hs : tablePresent s (pdIndex v) = false) (a flags : UInt32) :
    (vmmMapPage s v a flags).pageDirectory ≠ s.pageDirectory ∨ (vmmMapPage s v a flags).word ≠ s.word := by
  by_contra hsame
  simp only [not_or, not_not] at hsame
  have hpresent := mapPage_present s v a flags
  rw [tablePresent, Vmm.entry, hsame.1, hsame.2] at hpresent
  rw [tablePresent, Vmm.entry, hpresent] at hs
  cases hs

end Calls

section Results

lemma denied_mapPage (v a flags : UInt32) : Denied s (.mapPage v a flags) ↔
    tablePresent s (pdIndex v) = false ∧ (pmmAllocBlock s.pmm).1 = 0 := by
  have htable : tablePresent { s with exhausted := false } (pdIndex v) = tablePresent s (pdIndex v) := rfl
  rw [Denied, MappingCall.run, mapPage_exhausted, htable, Bool.false_or, Bool.and_eq_true, Bool.not_eq_true',
    beq_iff_eq]

lemma allocPage_eq (s : Vmm) (v flags : UInt32) : vmmAllocPage s v flags =
    if (pmmAllocBlock s.pmm).1 ≠ 0 then vmmMapPage s.allocBlock.2 v (pmmAllocBlock s.pmm).1 flags
    else s.allocBlock.2 := rfl

/-- If the first allocation of `vmm_alloc_page` succeeds, then it is the one for a page table that fails. -/
lemma denied_allocPage {v flags : UInt32} (h : Denied s (.allocPage v flags))
    (hfirst : (pmmAllocBlock s.pmm).1 ≠ 0) : tablePresent s (pdIndex v) = false := by
  have hblock : ((pmmAllocBlock s.pmm).1 == 0) = false := beq_eq_false_iff_ne.mpr hfirst
  have htable : tablePresent (Vmm.allocBlock { s with exhausted := false }).2 (pdIndex v) =
      tablePresent s (pdIndex v) := rfl
  have hexhausted : (Vmm.allocBlock { s with exhausted := false }).2.exhausted = false := by
    rw [Vmm.allocBlock, Bool.false_or]
    exact hblock
  rw [Denied, MappingCall.run, allocPage_eq, if_pos hfirst, mapPage_exhausted, htable, hexhausted, Bool.false_or,
    Bool.and_eq_true] at h
  simpa using h.1

lemma ne_add_one (x : UInt32) : x + 1 ≠ x := by
  intro h
  have hnat := congrArg UInt32.toNat h
  have hlt := x.toNat_lt
  rw [UInt32.toNat_add, show (1 : UInt32).toNat = 1 from rfl] at hnat
  omega

lemma allocBlock_used_iff (p : Pmm) : (pmmAllocBlock p).2.usedBlocks = p.usedBlocks ↔ AllUsed p := by
  obtain ⟨hall, hpmm⟩ | ⟨hfree, hused⟩ := allocBlock_any p
  · rw [hpmm]
    exact iff_of_true rfl hall
  · rw [hused]
    exact iff_of_false (ne_add_one _) hfree

/-- A call that is denied a frame fails cleanly just if it is `vmm_alloc_page(0, flags)` and no frame is
free at all. -/
theorem fails_cleanly_iff {c : MappingCall} (h : Denied s c) :
    FailsCleanly s c ↔ (∃ flags, c = .allocPage 0 flags) ∧ AllUsed s.pmm := by
  cases c with
  | mapPage v a flags =>
    obtain ⟨habsent, -⟩ := (denied_mapPage v a flags).mp h
    constructor
    · intro hclean
      exact ((mapPage_changes habsent a flags).elim (fun hne => hne hclean.directory)
        fun hne => hne hclean.memory).elim
    · rintro ⟨⟨_, hcall⟩, -⟩
      cases hcall
  | allocPage v flags =>
    by_cases hfirst : (pmmAllocBlock s.pmm).1 = 0
    · have hstate : vmmAllocPage s v flags = s.allocBlock.2 := by
        rw [allocPage_eq, if_neg (not_not.mpr hfirst)]
      have hrun : (MappingCall.allocPage v flags).run s = (some v, s.allocBlock.2) := by
        rw [MappingCall.run, hstate]
      constructor
      · intro hclean
        have hv : v = 0 := hclean.result v (by rw [hrun])
        have hused := hclean.used
        rw [hrun] at hused
        exact ⟨⟨flags, by rw [hv]⟩, (allocBlock_used_iff s.pmm).mp hused⟩
      · rintro ⟨⟨_, hcall⟩, hall⟩
        obtain ⟨rfl, -⟩ : v = 0 ∧ _ := by simpa using hcall
        refine ⟨fun a ha => ?_, ?_, ?_, ?_⟩ <;> rw [hrun] at *
        · exact (Option.some.inj ha).symm
        · rfl
        · rfl
        · exact (allocBlock_used_iff s.pmm).mpr hall
    · have habsent := denied_allocPage h hfirst
      have habsent' : tablePresent s.allocBlock.2 (pdIndex v) = false := habsent
      have hstate : vmmAllocPage s v flags = vmmMapPage s.allocBlock.2 v (pmmAllocBlock s.pmm).1 flags := by
        rw [allocPage_eq, if_pos hfirst]
      constructor
      · intro hclean
        have hdir := hclean.directory
        have hmem := hclean.memory
        rw [MappingCall.run, hstate] at hdir hmem
        exact ((mapPage_changes habsent' _ flags).elim (fun hne => hne hdir) fun hne => hne hmem).elim
      · rintro ⟨-, hall⟩
        obtain ⟨-, hpmm⟩ | ⟨hfree, -⟩ := allocBlock_any s.pmm
        · rw [hpmm] at hfirst
          exact absurd rfl hfirst
        · exact absurd hall hfree

/-- All of the 8192 blocks are in use, and the page directory at 1 MB is empty. -/
def fullVmm : Vmm := ⟨⟨fun _ => 0xFFFFFFFF, 8192, 8192⟩, fun _ => 0, 0x100000, false⟩

/-- If all blocks are in use, `vmm_alloc_page` for the null page returns the null pointer and does nothing. -/
theorem fails_cleanly_iff_full :
    Denied fullVmm (.allocPage 0 pageRw) ∧ FailsCleanly fullVmm (.allocPage 0 pageRw) := by
  have hdenied : Denied fullVmm (.allocPage 0 pageRw) := rfl
  have hall : AllUsed fullVmm.pmm := (allocBlock_used_iff fullVmm.pmm).mp rfl
  exact ⟨hdenied, (fails_cleanly_iff hdenied).mpr ⟨⟨pageRw, rfl⟩, hall⟩⟩

/-- If all blocks are in use, `vmm_alloc_page` still returns the address of the heap, where no page is. -/
theorem fails_cleanly_heap :
    Denied fullVmm (.allocPage 0xD0000000 pageRw) ∧ ¬FailsCleanly fullVmm (.allocPage 0xD0000000 pageRw) := by
  refine ⟨rfl, fun hclean => ?_⟩
  exact absurd (hclean.result 0xD0000000 rfl) (by decide)

end Results

end SBoy28.Paging
