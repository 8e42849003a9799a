import SBoy28.Paging.Boot
import Mathlib.Data.Finset.Prod

/-!
# Frame accounting

Every call of `vmm_alloc_page` takes a frame for its page, and one more if it creates a page table;
`vmm_free_page` gives one back. The balance is off by the frames of pages that were allocated while
they were present.
-/

namespace SBoy28.Paging
open Lib

variable {ebss : UInt32} {s : Vmm} {i d : ℕ}

section Calls

inductive PageCall where
  | alloc (virtualAddr flags : UInt32)
  | free (virtualAddr : UInt32)
  deriving DecidableEq, Repr

def PageCall.addr : PageCall → UInt32
  | .alloc v _ => v
  | .free v => v

def PageCall.perform (s : Vmm) : PageCall → Vmm
  | .alloc v flags => vmmAllocPage s v flags
  | .free v => vmmFreePage s v

def performAll (s : Vmm) (calls : List PageCall) : Vmm := calls.foldl PageCall.perform s

/-- The used frames as the counts of `pmm.c` show them. -/
def reportedUsed (s : Vmm) : ℕ := (pmmGetTotalBlockCount s.pmm - pmmGetFreeBlockCount s.pmm).toNat

/-- There is a page table for the 4 MB region `i`. -/
def tablePresent (s : Vmm) (i : ℕ) : Bool := s.entry s.pageDirectory i &&& pagePresent ≠ 0

/-- The page table that a call creates, if it creates one. -/
def newTables (s s' : Vmm) (i : ℕ) : ℕ := if !tablePresent s i && tablePresent s' i then 1 else 0

/-- How many page tables the calls create. -/
def tablesCreated (s : Vmm) : List PageCall → ℕ
  | [] => 0
  | c :: cs => newTables s (c.perform s) (pdIndex c.addr) + tablesCreated (c.perform s) cs

/-- The pairs of a directory index and a table index. It is irreducible as evaluation would
enumerate it. -/
@[irreducible] def pageIndices (n : ℕ) : Finset (ℕ × ℕ) := Finset.range n ×ˢ Finset.range n

/-- The pages outside the identity mapping that are present. -/
def presentPages (s : Vmm) : Finset (ℕ × ℕ) :=
  (pageIndices 1024).filter fun x =>
    s.pmm.totalBlocks.toNat ≤ x.1 * 1024 + x.2 ∧ (frameOf s (.page x.1 x.2)).isSome

/-- A call of `vmm_alloc_page` for a page that is present. -/
def Remaps (s : Vmm) : PageCall → Prop
  | .alloc v _ => walk s v ≠ none
  | .free _ => False

instance (s : Vmm) (c : PageCall) : Decidable (Remaps s c) := by
  cases c <;> unfold Remaps <;> infer_instance

def remapped (s : Vmm) : List PageCall → ℕ
  | [] => 0
  | c :: cs => (if Remaps s c then 1 else 0) + remapped (c.perform s) cs

end Calls

section Counts

lemma reportedUsed_eq (s : Vmm) : reportedUsed s = s.pmm.usedBlocks.toNat := by
  have hsub : s.pmm.totalBlocks - (s.pmm.totalBlocks - s.pmm.usedBlocks) = s.pmm.usedBlocks := by
    apply UInt32.toNat_inj.mp
    have ht := s.pmm.totalBlocks.toNat_lt
    have hu := s.pmm.usedBlocks.toNat_lt
    rw [UInt32.toNat_sub, UInt32.toNat_sub]
    omega
  rw [reportedUsed, pmmGetTotalBlockCount, pmmGetFreeBlockCount, hsub]

lemma tablePresent_iff : tablePresent s i = true ↔ s.entry s.pageDirectory i &&& pagePresent ≠ 0 := by
  simp [tablePresent]

lemma tablePresent_of_page {j n : ℕ} (h : frameOf s (.page i j) = some n) : tablePresent s i = true := by
  rw [tablePresent_iff]
  intro hp
  rw [frameOf, if_neg (not_not.mpr hp)] at h
  cases h

/-- The blocks that `vmm_map_page` takes for its table. -/
lemma pageTableFor_count (hp : PmmOk ebss s.pmm) (flags : UInt32)
    (halive : (pageTableFor s i flags).2.exhausted = false) :
    (pageTableFor s i flags).2.pmm.usedBlocks.toNat =
      s.pmm.usedBlocks.toNat + if tablePresent s i then 0 else 1 := by
  by_cases hpresent : s.entry s.pageDirectory i &&& pagePresent ≠ 0
  · rw [if_pos (tablePresent_iff.mpr hpresent), pageTableFor, if_pos hpresent, Nat.add_zero]
  · rw [if_neg (fun h => hpresent (tablePresent_iff.mp h))]
    rcases allocBlock_cases hp with ⟨hcall, -⟩ | ⟨n, q, hcall, -, -, -, -, hnext, -⟩
    · rw [pageTableFor_new flags hpresent hcall, (install_rest _ _ _ _ _).2.2] at halive
      cases halive
    · rw [pageTableFor_new flags hpresent hcall, (install_rest _ _ _ _ _).1]
      exact hnext

lemma allocPage_count (hp : PmmOk ebss s.pmm) {v flags : UInt32}
    (halive : (vmmAllocPage s v flags).exhausted = false) :
    (vmmAllocPage s v flags).pmm.usedBlocks.toNat =
      s.pmm.usedBlocks.toNat + 1 + if tablePresent s (pdIndex v) then 0 else 1 := by
  rcases allocBlock_cases hp with ⟨hcall, -⟩ | ⟨m, q, hcall, hne, -, -, hq, hnext, -⟩
  · rw [vmmAllocPage, hcall] at halive
    cases halive
  · have hresult : vmmAllocPage s v flags =
        vmmMapPage { s with pmm := q } v (UInt32.ofNat m * 4096) flags := by
      rw [vmmAllocPage, hcall, if_pos hne]
    rw [hresult, vmmMapPage, setEntry_exhausted] at halive
    have hcount := pageTableFor_count (s := { s with pmm := q }) hq flags halive
    rw [hresult, vmmMapPage, setEntry_pmm, hcount, hnext]
    rfl

lemma freePage_count (h : PagesOk ebss s d) {v : UInt32} (hv : 8192 * 4096 ≤ v.toNat) :
    (vmmFreePage s v).pmm.usedBlocks.toNat + (if (frameOf s (pageOf v)).isSome then 1 else 0) =
      s.pmm.usedBlocks.toNat := by
  rcases freePage_cases s v with ⟨hpage, hresult⟩ | ⟨n, m, table, addr, -, -, hpage, haddr, hresult⟩
  · simp [hresult, hpage]
  · have hdiv : addr.toNat / 4096 = m := by rw [haddr, Nat.mul_div_cancel _ (by decide)]
    obtain ⟨hlt, -, hset⟩ := h.mapped.owns.taken _ (pageOf_outside hv) _ hpage
    rw [hpage, hresult, setEntry_pmm]
    rcases free_cases h.pmm.counted addr with ⟨-, hclear⟩ | ⟨-, hmem, hcall⟩
    · rw [hdiv] at hclear
      rw [hclear hlt] at hset
      cases hset
    · have hblock : (addr / 4096).toNat = addr.toNat / 4096 := UInt32.toNat_div _ _
      have hgive := (h.pmm.counted.give (b := addr / 4096) (by rw [hblock]; exact hmem)
        (by rw [hblock, hdiv]; exact hlt)).2
      rw [hcall]
      exact hgive

lemma mem_pageIndices {n : ℕ} {x : ℕ × ℕ} : x ∈ pageIndices n ↔ x.1 < n ∧ x.2 < n := by
  rw [pageIndices, Finset.mem_product, Finset.mem_range, Finset.mem_range]

lemma mem_presentPages (h : PagesOk ebss s d) {x : ℕ × ℕ} :
    x ∈ presentPages s ↔ User.page x.1 x.2 ∈ outside 8192 ∧ (frameOf s (.page x.1 x.2)).isSome := by
  rw [presentPages, Finset.mem_filter, mem_pageIndices, h.total]
  constructor
  · rintro ⟨⟨h1, h2⟩, h3, h4⟩
    exact ⟨⟨h1, h2, h3⟩, h4⟩
  · rintro ⟨⟨h1, h2, h3⟩, h4⟩
    exact ⟨⟨h1, h2⟩, h3, h4⟩

lemma presentPages_alloc (h : PagesOk ebss s d) {v flags : UInt32} (hv : 8192 * 4096 ≤ v.toNat)
    (halive : (vmmAllocPage s v flags).exhausted = false) :
    presentPages (vmmAllocPage s v flags) = insert (pdIndex v, ptIndex v) (presentPages s) ∧
      tablePresent (vmmAllocPage s v flags) (pdIndex v) = true := by
  rcases h.allocPage hv flags with hex | ⟨m, hok, hself, -, hsame⟩
  · rw [halive] at hex
    cases hex
  · refine ⟨?_, tablePresent_of_page hself⟩
    ext x
    rw [mem_presentPages hok, Finset.mem_insert, mem_presentPages h]
    by_cases hx : x = (pdIndex v, ptIndex v)
    · subst hx
      simp only [pageOf] at hself
      simp [hself, show User.page (pdIndex v) (ptIndex v) ∈ outside 8192 from pageOf_outside hv]
    · have hne : User.page x.1 x.2 ≠ pageOf v := by
        intro he
        obtain ⟨h1, h2⟩ := User.page.inj he
        exact hx (Prod.ext h1 h2)
      constructor
      · rintro ⟨hout, hsome⟩
        rw [hsame _ hout hne (by simp)] at hsome
        exact Or.inr ⟨hout, hsome⟩
      · rintro (he | ⟨hout, hsome⟩)
        · exact absurd he hx
        · rw [← hsame _ hout hne (by simp)] at hsome
          exact ⟨hout, hsome⟩

lemma presentPages_free (h : PagesOk ebss s d) {v : UInt32} (hv : 8192 * 4096 ≤ v.toNat) :
    presentPages (vmmFreePage s v) = (presentPages s).erase (pdIndex v, ptIndex v) := by
  obtain ⟨hok, hself, hsame⟩ := h.freePage hv
  ext x
  rw [mem_presentPages hok, Finset.mem_erase, mem_presentPages h]
  by_cases hx : x = (pdIndex v, ptIndex v)
  · subst hx
    simp only [pageOf] at hself
    simp [hself]
  · have hne : User.page x.1 x.2 ≠ pageOf v := by
      intro he
      obtain ⟨h1, h2⟩ := User.page.inj he
      exact hx (Prod.ext h1 h2)
    constructor
    · rintro ⟨hout, hsome⟩
      rw [hsame _ hout hne] at hsome
      exact ⟨hx, hout, hsome⟩
    · rintro ⟨-, hout, hsome⟩
      rw [← hsame _ hout hne] at hsome
      exact ⟨hout, hsome⟩

lemma mem_presentPages_page (h : PagesOk ebss s d) {v : UInt32} (hv : 8192 * 4096 ≤ v.toNat) :
    (pdIndex v, ptIndex v) ∈ presentPages s ↔ (frameOf s (pageOf v)).isSome := by
  rw [mem_presentPages h]
  exact ⟨fun hx => hx.2, fun hx => ⟨pageOf_outside hv, hx⟩⟩

lemma remaps_iff {v flags : UInt32} : Remaps s (.alloc v flags) ↔ (frameOf s (pageOf v)).isSome = true := by
  rw [Remaps, walk_page rfl]
  cases frameOf s (pageOf v) <;> simp

end Counts

section Runs

lemma PagesOk.balance_alloc (h : PagesOk ebss s d) {v flags : UInt32} (hv : 8192 * 4096 ≤ v.toNat)
    (halive : (vmmAllocPage s v flags).exhausted = false) :
    (vmmAllocPage s v flags).pmm.usedBlocks.toNat + (presentPages s).card =
      s.pmm.usedBlocks.toNat + newTables s (vmmAllocPage s v flags) (pdIndex v) +
        (presentPages (vmmAllocPage s v flags)).card + (if Remaps s (.alloc v flags) then 1 else 0) := by
  obtain ⟨hpages, htable⟩ := presentPages_alloc h hv halive
  have hcount := allocPage_count h.pmm halive
  have hnew : newTables s (vmmAllocPage s v flags) (pdIndex v) =
      if tablePresent s (pdIndex v) then 0 else 1 := by
    rw [newTables, htable, Bool.and_true]
    cases tablePresent s (pdIndex v) <;> rfl
  by_cases hmem : (pdIndex v, ptIndex v) ∈ presentPages s
  · rw [if_pos (remaps_iff.mpr ((mem_presentPages_page h hv).mp hmem)), hpages,
      Finset.insert_eq_of_mem hmem]
    omega
  · rw [if_neg (fun hr => hmem ((mem_presentPages_page h hv).mpr (remaps_iff.mp hr))), hpages,
      Finset.card_insert_of_notMem hmem]
    omega

lemma PagesOk.balance_free (h : PagesOk ebss s d) {v : UInt32} (hv : 8192 * 4096 ≤ v.toNat) :
    (vmmFreePage s v).pmm.usedBlocks.toNat + (presentPages s).card =
      s.pmm.usedBlocks.toNat + newTables s (vmmFreePage s v) (pdIndex v) +
        (presentPages (vmmFreePage s v)).card := by
  have hcount := freePage_count h hv
  have hnew : newTables s (vmmFreePage s v) (pdIndex v) = 0 := by
    rw [newTables]
    cases ht : tablePresent s (pdIndex v) with
    | true => rfl
    | false =>
      have hpde : ¬(s.entry s.pageDirectory (pdIndex v) &&& pagePresent ≠ 0) := by
        rw [← tablePresent_iff, ht]
        simp
      rw [vmmFreePage, if_neg hpde, ht]
      rfl
  rw [hnew, presentPages_free h hv]
  by_cases hmem : (pdIndex v, ptIndex v) ∈ presentPages s
  · rw [if_pos ((mem_presentPages_page h hv).mp hmem)] at hcount
    have hcard := Finset.card_erase_add_one hmem
    omega
  · rw [if_neg (fun hc => hmem ((mem_presentPages_page h hv).mpr hc))] at hcount
    rw [Finset.erase_eq_of_notMem hmem]
    omega

theorem PagesOk.balance (h : PagesOk ebss s d) {c : PageCall} (hv : 8192 * 4096 ≤ c.addr.toNat)
    (halive : (c.perform s).exhausted = false) :
    PagesOk ebss (c.perform s) d ∧
      (c.perform s).pmm.usedBlocks.toNat + (presentPages s).card =
        s.pmm.usedBlocks.toNat + newTables s (c.perform s) (pdIndex c.addr) +
          (presentPages (c.perform s)).card + (if Remaps s c then 1 else 0) := by
  cases c with
  | alloc v flags =>
    simp only [PageCall.addr, PageCall.perform] at hv halive ⊢
    refine ⟨?_, h.balance_alloc hv halive⟩
    rcases h.allocPage hv flags with hex | ⟨m, hok, -⟩
    · exact absurd (halive.symm.trans hex) (by simp)
    · exact hok
  | free v =>
    simp only [PageCall.addr, PageCall.perform] at hv ⊢
    exact ⟨(h.freePage hv).1, h.balance_free hv⟩

lemma exhausted_perform (h : s.exhausted = true) (c : PageCall) : (c.perform s).exhausted = true := by
  cases c with
  | alloc v flags => exact exhausted_allocPage h v flags
  | free v => exact (freePage_exhausted s v).trans h

lemma exhausted_performAll (h : s.exhausted = true) (calls : List PageCall) :
    (performAll s calls).exhausted = true := by
  induction calls generalizing s with
  | nil => exact h
  | cons c cs ih => exact ih (exhausted_perform h c)

/-- The balance after any calls: the frames of remapped pages are in use and serve no page. -/
theorem PagesOk.balance_run (h : PagesOk ebss s d) {calls : List PageCall}
    (hout : ∀ c ∈ calls, 8192 * 4096 ≤ c.addr.toNat) (halive : (performAll s calls).exhausted = false) :
    PagesOk ebss (performAll s calls) d ∧
      (performAll s calls).pmm.usedBlocks.toNat + (presentPages s).card =
        s.pmm.usedBlocks.toNat + tablesCreated s calls + (presentPages (performAll s calls)).card +
          remapped s calls := by
  induction calls generalizing s with
  | nil => exact ⟨h, rfl⟩
  | cons c cs ih =>
    have halive' : (c.perform s).exhausted = false := by
      by_contra hex
      have hrun := exhausted_performAll (by simpa using hex) cs
      rw [performAll, List.foldl_cons, ← performAll, hrun] at halive
      cases halive
    obtain ⟨hok, hstep⟩ := h.balance (hout c (by simp)) halive'
    obtain ⟨hok', hrest⟩ := ih hok (fun c' hc' => hout c' (by simp [hc'])) halive
    refine ⟨hok', ?_⟩
    simp only [performAll, List.foldl_cons, tablesCreated, remapped] at hrest ⊢
    omega

lemma remapped_eq_zero_iff (calls : List PageCall) : remapped s calls = 0 ↔
    ∀ l c r, calls = l ++ c :: r → ¬Remaps (performAll s l) c := by
  induction calls generalizing s with
  | nil => simp [remapped]
  | cons c cs ih =>
    rw [remapped, Nat.add_eq_zero_iff, ih]
    constructor
    · rintro ⟨hc, hcs⟩ l c' r he
      cases l with
      | nil =>
        obtain ⟨rfl, -⟩ := List.cons.inj he
        intro hr
        rw [performAll, List.foldl_nil] at hr
        simp [hr] at hc
      | cons b l =>
        obtain ⟨rfl, he'⟩ := List.cons.inj he
        exact hcs l c' r he'
    · intro hall
      refine ⟨?_, fun l c' r he => hall (c :: l) c' r (by rw [he, List.cons_append])⟩
      have hc : ¬Remaps s c := hall [] c cs rfl
      rw [if_neg hc]

/-- No page outside the identity mapping is present after boot. -/
lemma InitOk.no_pages {c : ℕ} (h : InitOk ebss c 8 s d) : presentPages s = ∅ := by
  ext x
  rw [mem_presentPages h.pagesOk]
  simp only [Finset.notMem_empty, iff_false, not_and]
  rintro ⟨h1, h2, h3⟩
  rw [frameOf_page_none (h.absent x.1 h1 (by omega))]
  simp

lemma InitOk.balanced_iff {c : ℕ} (h : InitOk ebss c 8 s d) {calls : List PageCall}
    (hout : ∀ c ∈ calls, 8192 * 4096 ≤ c.addr.toNat) (halive : (performAll s calls).exhausted = false) :
    reportedUsed (performAll s calls) =
        reportedUsed s + tablesCreated s calls + (presentPages (performAll s calls)).card ↔
      remapped s calls = 0 := by
  obtain ⟨-, hbalance⟩ := h.pagesOk.balance_run hout halive
  rw [h.no_pages, Finset.card_empty, Nat.add_zero] at hbalance
  rw [reportedUsed_eq, reportedUsed_eq]
  omega

/-- From `vmm_init` on, as long as memory has not run out: the used frames are those after
`vmm_init`, those of the page tables created since and those of the pages present outside the
identity mapping, just if no call of `vmm_alloc_page` was for a page that was present. -/
theorem frame_accounting (hend : ebss.toNat + 1024 ≤ 2 ^ 25) (s₀ : Vmm) (calls : List PageCall)
    (hout : ∀ c ∈ calls, (bootPaging ebss s₀).pmm.totalBlocks.toNat * 4096 ≤ c.addr.toNat)
    (halive : (performAll (bootPaging ebss s₀) calls).exhausted = false) :
    reportedUsed (performAll (bootPaging ebss s₀) calls) =
        reportedUsed (bootPaging ebss s₀) + tablesCreated (bootPaging ebss s₀) calls +
          (presentPages (performAll (bootPaging ebss s₀) calls)).card ↔
      ∀ l v flags r, calls = l ++ .alloc v flags :: r → walk (performAll (bootPaging ebss s₀) l) v = none := by
  rcases bootPaging_ok hend s₀ with ⟨hex, -⟩ | ⟨d, hok⟩
  · rw [exhausted_performAll hex] at halive
    cases halive
  rw [hok.pagesOk.total] at hout
  rw [hok.balanced_iff hout halive, remapped_eq_zero_iff]
  constructor
  · exact fun hall l v flags r he => not_not.mp (hall l _ r he)
  · intro hall l c r he
    cases c with
    | alloc v flags => exact not_not.mpr (hall l v flags r he)
    | free v => exact fun hc => hc

lemma performAll_one (c : PageCall) : performAll s [c] = c.perform s := rfl

lemma performAll_two (c c' : PageCall) : performAll s [c, c'] = c'.perform (c.perform s) := rfl

lemma blank_alive {v flags : UInt32} :
    (performAll (bootPaging 0x20000 blankMemory) [.alloc v flags]).exhausted = false := by
  obtain ⟨d, hok, hroom⟩ := @bootPaging_room 0x20000 4 (by decide) (by decide) blankMemory
  rw [performAll_one, PageCall.perform]
  exact allocPage_alive hok.pmm hok.alive (by omega) v flags

/-- One page in a new region: a table and a page. -/
theorem frame_accounting_first :
    reportedUsed (performAll (bootPaging 0x20000 blankMemory) [.alloc 0x40000000 2]) =
      reportedUsed (bootPaging 0x20000 blankMemory) +
        tablesCreated (bootPaging 0x20000 blankMemory) [.alloc 0x40000000 2] +
        (presentPages (performAll (bootPaging 0x20000 blankMemory) [.alloc 0x40000000 2])).card := by
  obtain ⟨d, hok, -⟩ := @bootPaging_room 0x20000 0 (by decide) (by decide) blankMemory
  refine (frame_accounting (by decide) blankMemory [.alloc 0x40000000 2] ?_ blank_alive).mpr ?_
  · rw [hok.pagesOk.total]
    decide +kernel
  · intro l v flags r he
    cases l with
    | nil =>
      obtain ⟨hc, -⟩ := List.cons.inj he
      obtain ⟨rfl, -⟩ := PageCall.alloc.inj hc
      have habsent : frameOf (bootPaging 0x20000 blankMemory) (pageOf 0x40000000) = none :=
        frameOf_page_none (hok.absent _ (pdIndex_lt _) (by decide +kernel))
      rw [performAll, List.foldl_nil, walk_page rfl, habsent]
      rfl
    | cons b l =>
      have hlen := congrArg List.length he
      simp at hlen

/-- The frame of a page that is allocated again stays in use. -/
lemma InitOk.leak {c : ℕ} (h : InitOk ebss c 8 s d) (hroom : s.pmm.usedBlocks.toNat + 4 ≤ 8192) {v : UInt32}
    (hv : 8192 * 4096 ≤ v.toNat) (flags : UInt32) :
    (performAll s [.alloc v flags, .alloc v flags]).exhausted = false ∧
      reportedUsed (performAll s [.alloc v flags, .alloc v flags]) ≠
        reportedUsed s + tablesCreated s [.alloc v flags, .alloc v flags] +
          (presentPages (performAll s [.alloc v flags, .alloc v flags])).card := by
  have halive := allocPage_alive h.pmm h.alive (by omega) v flags
  have hcount := allocPage_count h.pmm halive
  rcases h.pagesOk.allocPage hv flags with hex | ⟨m, hok, hpage, -⟩
  · rw [halive] at hex
    cases hex
  have halive' : (performAll s [.alloc v flags, .alloc v flags]).exhausted = false := by
    rw [performAll_two, PageCall.perform, PageCall.perform]
    exact allocPage_alive hok.pmm halive (by split at hcount <;> omega) v flags
  refine ⟨halive', ?_⟩
  rw [ne_eq, h.balanced_iff (by simpa [PageCall.addr] using hv) halive']
  have hremap : Remaps (vmmAllocPage s v flags) (.alloc v flags) := by
    rw [remaps_iff, hpage]
    rfl
  simp [remapped, PageCall.perform, hremap]

lemma bootPaging_leak (hend : ebss.toNat + 1024 ≤ 8179 * 4096) (s₀ : Vmm) {v : UInt32}
    (hv : 8192 * 4096 ≤ v.toNat) (flags : UInt32) : ¬∀ calls : List PageCall,
    (∀ c ∈ calls, (bootPaging ebss s₀).pmm.totalBlocks.toNat * 4096 ≤ c.addr.toNat) →
    (performAll (bootPaging ebss s₀) calls).exhausted = false →
    reportedUsed (performAll (bootPaging ebss s₀) calls) =
      reportedUsed (bootPaging ebss s₀) + tablesCreated (bootPaging ebss s₀) calls +
        (presentPages (performAll (bootPaging ebss s₀) calls)).card := by
  intro hall
  obtain ⟨d, hok, hroom⟩ := bootPaging_room (k := 4) (by decide) hend s₀
  obtain ⟨halive, hleak⟩ := hok.leak hroom hv flags
  refine hleak (hall _ ?_ halive)
  rw [hok.pagesOk.total]
  simpa [PageCall.addr] using hv

/-- A page that is allocated twice keeps its first frame from ever being used again. -/
theorem frame_accounting_leak : ¬∀ calls : List PageCall,
    (∀ c ∈ calls, (bootPaging 0x20000 blankMemory).pmm.totalBlocks.toNat * 4096 ≤ c.addr.toNat) →
    (performAll (bootPaging 0x20000 blankMemory) calls).exhausted = false →
    reportedUsed (performAll (bootPaging 0x20000 blankMemory) calls) =
      reportedUsed (bootPaging 0x20000 blankMemory) + tablesCreated (bootPaging 0x20000 blankMemory) calls +
        (presentPages (performAll (bootPaging 0x20000 blankMemory) calls)).card :=
  have hv : 8192 * 4096 ≤ (0x40000000 : UInt32).toNat := by decide +kernel
  bootPaging_leak (by decide) blankMemory hv 2

end Runs

end SBoy28.Paging
