import SBoy28.Paging.Isolation
import Mathlib.Order.Interval.Finset.Nat

/-!
# The page tables from boot on

`vmm_init` sets up the directory and the tables that map memory to itself, and every later call
keeps them.
-/

namespace SBoy28.Paging
open Lib

variable {ebss : UInt32} {s s' : Vmm} {i j k n d : ℕ}

section Init

/-- The state after the directory and `k` identity tables were made; `c` is the number of blocks
that were used before. -/
structure InitOk (ebss : UInt32) (c k : ℕ) (s : Vmm) (d : ℕ) : Prop where
  pmm : PmmOk ebss s.pmm
  mapped : Mapped k (usedBlocks ebss s.pmm) s d
  absent : ∀ i < 1024, k ≤ i → frameOf s (.table i) = none
  count : s.pmm.usedBlocks.toNat = c + 1 + k
  alive : s.exhausted = false

/-- The entries of an identity table. -/
def identityEntry (pt i : ℕ) : UInt32 :=
  if UInt32.ofNat (pt * 1024 + i) * 0x1000 < (8192 : UInt32) * 0x1000 then
    UInt32.ofNat (pt * 1024 + i) * 0x1000 ||| pagePresent ||| pageRw
  else 0

lemma target_identityEntry (hi : i < 8) (hj : j < 1024) : target (identityEntry i j) = some (i * 1024 + j) := by
  have haddr : (UInt32.ofNat (i * 1024 + j) * 0x1000).toNat = (i * 1024 + j) * 4096 :=
    blockAddr_toNat (by omega)
  have hend : ((8192 : UInt32) * 0x1000).toNat = 8192 * 4096 := rfl
  have hlt : UInt32.ofNat (i * 1024 + j) * 0x1000 < (8192 : UInt32) * 0x1000 := by
    rw [UInt32.lt_iff_toNat_lt, haddr, hend]
    omega
  rw [identityEntry, if_pos hlt, target_identity, haddr, Nat.mul_div_cancel _ (by decide)]

lemma identityTable_eq {s₁ : Vmm} {addr : UInt32} (hcall : s.allocBlock = (addr, s₁)) (pt : ℕ) :
    identityTable 8192 s pt = s₁.install addr (identityEntry pt) pt (addr ||| pagePresent ||| pageRw) := by
  rw [identityTable, hcall]
  rfl

lemma exhausted_allocBlock (h : s.exhausted = true) : s.allocBlock.2.exhausted = true := by
  rw [Vmm.allocBlock, h, Bool.true_or]

lemma exhausted_identityTable (h : s.exhausted = true) (pt : ℕ) :
    (identityTable 8192 s pt).exhausted = true := by
  have hcall : s.allocBlock = (s.allocBlock.1, s.allocBlock.2) := rfl
  rw [identityTable_eq hcall, (install_rest _ _ _ _ _).2.2, exhausted_allocBlock h]

lemma InitOk.step {c : ℕ} (h : InitOk ebss c k s d) (hk : k < 8) :
    ((identityTable 8192 s k).exhausted = true ∧ 8192 < c + 1 + (k + 1)) ∨
      InitOk ebss c (k + 1) (identityTable 8192 s k) d := by
  have hcount := h.count
  rcases allocBlock_cases h.pmm with ⟨hcall, hfull⟩ | ⟨n, q, hcall, -, haddr, hfresh, hq, hnext, hused⟩
  · left
    rw [identityTable_eq hcall, (install_rest _ _ _ _ _).2.2]
    exact ⟨rfl, by omega⟩
  · right
    have htarget := target_identity (UInt32.ofNat n * 4096)
    rw [haddr, Nat.mul_div_cancel _ (by decide)] at htarget
    obtain ⟨hmapped, -, hsame⟩ := (h.mapped.setPmm q).addTable (identityEntry k) (k + 1) (by omega)
      (h.absent k (by omega) le_rfl) hfresh haddr htarget (fun h8 => absurd h8 (by omega))
      (fun a ha => by
        by_cases hak : a = k
        · exact Or.inr ⟨hak, fun j hj => target_identityEntry hk hj⟩
        · exact Or.inl ⟨by omega, hak⟩)
      (by omega)
    obtain ⟨hpmm, -, halive⟩ := install_rest { s with pmm := q } (UInt32.ofNat n * 4096) (identityEntry k) k
      (UInt32.ofNat n * 4096 ||| pagePresent ||| pageRw)
    rw [identityTable_eq hcall]
    refine ⟨?_, ?_, ?_, ?_, ?_⟩
    · rw [hpmm]
      exact hq
    · rw [hpmm]
      simp only [hused]
      exact hmapped
    · intro a ha hka
      rw [hsame (.table a) ha (by simp; omega)]
      exact h.absent a ha (by omega)
    · rw [hpmm]
      simp only
      omega
    · rw [halive]
      exact h.alive

lemma InitOk.directory (hp : PmmOk ebss s.pmm) (halive : s.exhausted = false) :
    (s.allocBlock.2.exhausted = true ∧ s.pmm.usedBlocks.toNat = 8192) ∨
      ∃ d, InitOk ebss s.pmm.usedBlocks.toNat 0
        (Vmm.fill { s.allocBlock.2 with pageDirectory := s.allocBlock.1 } s.allocBlock.1 fun _ => pageRw) d := by
  rcases allocBlock_cases hp with ⟨hcall, hfull⟩ | ⟨d, q, hcall, -, haddr, -, hq, hnext, hused⟩
  · left
    rw [hcall]
    exact ⟨rfl, hfull⟩
  · right
    rw [hcall]
    obtain ⟨s₁, hs₁⟩ : ∃ s₁ : Vmm, s₁ = ⟨q, s.word, UInt32.ofNat d * 4096, false⟩ := ⟨_, rfl⟩
    have hstart : ({ s with pmm := q, pageDirectory := UInt32.ofNat d * 4096 } : Vmm) = s₁ := by
      rw [hs₁, ← halive]
    obtain ⟨hpmm, hdir, hex⟩ := fill_rest s₁ (UInt32.ofNat d * 4096) fun _ => pageRw
    simp only [hstart]
    have hd : (s₁.fill (UInt32.ofNat d * 4096) fun _ => pageRw).pageDirectory.toNat = d * 4096 := by
      rw [hdir, hs₁, haddr]
    have hpmm' : (s₁.fill (UInt32.ofNat d * 4096) fun _ => pageRw).pmm = q := by rw [hpmm, hs₁]
    have htable : ∀ i < 1024, frameOf (s₁.fill (UInt32.ofNat d * 4096) fun _ => pageRw) (.table i) = none := by
      intro i hi
      rw [frameOf_table hd, cell_fill haddr _ hi, if_pos rfl, target_absent]
    have hnone : ∀ u ∈ outside 8192, u ≠ .directory →
        frameOf (s₁.fill (UInt32.ofNat d * 4096) fun _ => pageRw) u = none := by
      intro u hu hne
      cases u with
      | directory => exact absurd rfl hne
      | table i => exact htable i hu
      | page i j => exact frameOf_page_none (htable i hu.1)
    refine ⟨d, ⟨?_, ⟨hd, ⟨?_, ?_⟩, fun i hi => absurd hi (by omega)⟩, fun i hi _ => htable i hi, ?_, ?_⟩⟩
    · rw [hpmm']
      exact hq
    · intro u hu n hn
      rw [hpmm', hused]
      by_cases hne : u = .directory
      · rw [hne, frameOf_directory hd, Option.some_inj] at hn
        exact Or.inl hn.symm
      · rw [hnone u hu hne] at hn
        cases hn
    · intro u hu w hw n hn hn'
      have hdirectory : ∀ x ∈ outside 8192,
          frameOf (s₁.fill (UInt32.ofNat d * 4096) fun _ => pageRw) x = some n → x = .directory := by
        intro x hx hxn
        by_contra hne
        rw [hnone x hx hne] at hxn
        cases hxn
      rw [hdirectory u hu hn, hdirectory w hw hn']
    · rw [hpmm', hnext]
    · rw [hex, hs₁]

lemma exhausted_turns (h : s.exhausted = true) (l : List ℕ) :
    (l.foldl (identityTable 8192) s).exhausted = true := by
  induction l generalizing s with
  | nil => exact h
  | cons i l ih =>
    rw [List.foldl_cons]
    exact ih (exhausted_identityTable h i)

/-- The loop over the identity tables, after `k` turns. -/
lemma InitOk.turns {c : ℕ} (h : InitOk ebss c 0 s d) (k : ℕ) (hk : k ≤ 8) :
    (((List.range k).foldl (identityTable 8192) s).exhausted = true ∧ 8192 < c + 1 + k) ∨
      InitOk ebss c k ((List.range k).foldl (identityTable 8192) s) d := by
  induction k with
  | zero => exact Or.inr h
  | succ k ih =>
    rw [List.range_succ, List.foldl_append]
    simp only [List.foldl_cons, List.foldl_nil]
    rcases ih (by omega) with ⟨hex, hfull⟩ | hok
    · exact Or.inl ⟨exhausted_identityTable hex k, by omega⟩
    · exact hok.step (by omega)

lemma vmmInit_eq (htotal : s.allocBlock.2.pmm.totalBlocks = 8192) :
    vmmInit s = (List.range 8).foldl (identityTable 8192)
      (Vmm.fill { s.allocBlock.2 with pageDirectory := s.allocBlock.1 } s.allocBlock.1 fun _ => pageRw) := by
  obtain ⟨f, hf⟩ : ∃ f, f = Vmm.fill { s.allocBlock.2 with pageDirectory := s.allocBlock.1 }
    s.allocBlock.1 fun _ => pageRw := ⟨_, rfl⟩
  have hinit : vmmInit s = (List.range ((f.pmm.totalBlocks + 1023) / 1024).toNat).foldl
      (identityTable f.pmm.totalBlocks) f := by
    simp only [vmmInit, pmmGetTotalBlockCount, ← hf]
  have hpmm : f.pmm.totalBlocks = 8192 := by
    rw [hf, (fill_rest _ _ _).1]
    exact htotal
  rw [hinit, hpmm, ← hf]
  rfl

/-- After `vmm_init` the tables are in order, unless memory ran out, which takes fewer than nine
free blocks. -/
theorem vmmInit_ok (hp : PmmOk ebss s.pmm) (halive : s.exhausted = false) :
    ((vmmInit s).exhausted = true ∧ 8192 < s.pmm.usedBlocks.toNat + 9) ∨
      ∃ d, InitOk ebss s.pmm.usedBlocks.toNat 8 (vmmInit s) d := by
  have htotal : s.allocBlock.2.pmm.totalBlocks = 8192 := by
    rcases allocBlock_cases hp with ⟨hcall, -⟩ | ⟨n, q, hcall, -, -, -, hq, -⟩
    · rw [hcall]
      exact hp.counted.total
    · rw [hcall]
      exact hq.counted.total
  rw [vmmInit_eq htotal]
  rcases InitOk.directory hp halive with ⟨hex, hfull⟩ | ⟨d, hok⟩
  · left
    refine ⟨exhausted_turns ?_ _, by omega⟩
    rw [(fill_rest _ _ _).2.2]
    exact hex
  · rcases hok.turns 8 le_rfl with ⟨hex, hfull⟩ | hok
    · exact Or.inl ⟨hex, by omega⟩
    · exact Or.inr ⟨d, hok⟩

end Init

section Runs

/-- `pmm_init` and `vmm_init`. -/
def bootPaging (ebss : UInt32) (s : Vmm) : Vmm :=
  vmmInit { s with pmm := pmmInit ebss s.pmm, exhausted := false }

/-- Calls of `vmm_alloc_page` and `vmm_free_page` for addresses past the identity mapping. -/
inductive PageStep : Vmm → Vmm → Prop where
  | alloc {s : Vmm} {v : UInt32} (flags : UInt32) (hv : s.pmm.totalBlocks.toNat * 4096 ≤ v.toNat) :
    PageStep s (vmmAllocPage s v flags)
  | free {s : Vmm} {v : UInt32} (hv : s.pmm.totalBlocks.toNat * 4096 ≤ v.toNat) : PageStep s (vmmFreePage s v)

lemma exhausted_mapPage (h : s.exhausted = true) (v a flags : UInt32) :
    (vmmMapPage s v a flags).exhausted = true := by
  rw [vmmMapPage, setEntry_exhausted]
  by_cases hpresent : s.entry s.pageDirectory (pdIndex v) &&& pagePresent ≠ 0
  · rw [pageTableFor, if_pos hpresent]
    exact h
  · have hcall : s.allocBlock = (s.allocBlock.1, s.allocBlock.2) := rfl
    rw [pageTableFor_new flags hpresent hcall, (install_rest _ _ _ _ _).2.2, exhausted_allocBlock h]

lemma exhausted_allocPage (h : s.exhausted = true) (v flags : UInt32) :
    (vmmAllocPage s v flags).exhausted = true := by
  have halloc := exhausted_allocBlock h
  simp only [vmmAllocPage]
  split
  · exact exhausted_mapPage halloc _ _ _
  · exact halloc

lemma freePage_exhausted (s : Vmm) (v : UInt32) : (vmmFreePage s v).exhausted = s.exhausted := by
  simp only [vmmFreePage]
  split
  · split
    · rfl
    · rfl
  · rfl

lemma PageStep.exhausted (hs : PageStep s s') (h : s.exhausted = true) : s'.exhausted = true := by
  cases hs with
  | alloc flags hv => exact exhausted_allocPage h _ _
  | free hv => exact (freePage_exhausted _ _).trans h

lemma PagesOk.total (h : PagesOk ebss s d) : s.pmm.totalBlocks.toNat = 8192 := by
  rw [h.pmm.counted.total]
  rfl

theorem PagesOk.step (h : PagesOk ebss s d) (hs : PageStep s s') :
    s'.exhausted = true ∨ PagesOk ebss s' d := by
  cases hs with
  | alloc flags hv =>
    rw [h.total] at hv
    rcases h.allocPage hv flags with hex | ⟨m, hok, -⟩
    · exact Or.inl hex
    · exact Or.inr hok
  | free hv =>
    rw [h.total] at hv
    exact Or.inr (h.freePage hv).1

lemma bootPaging_ok (hend : ebss.toNat + 1024 ≤ 2 ^ 25) (s₀ : Vmm) :
    ((bootPaging ebss s₀).exhausted = true ∧ 8192 < (pmmInit ebss s₀.pmm).usedBlocks.toNat + 9) ∨
      ∃ d, InitOk ebss (pmmInit ebss s₀.pmm).usedBlocks.toNat 8 (bootPaging ebss s₀) d :=
  vmmInit_ok (s := { s₀ with pmm := pmmInit ebss s₀.pmm, exhausted := false })
    (PmmOk.start hend s₀.pmm) rfl

lemma InitOk.pagesOk {c : ℕ} (h : InitOk ebss c 8 s d) : PagesOk ebss s d := ⟨h.pmm, h.mapped⟩

/-- The tables are in order as long as memory has not run out. -/
theorem pagesOk_run (hend : ebss.toNat + 1024 ≤ 2 ^ 25) {s₀ : Vmm}
    (hrun : Relation.ReflTransGen PageStep (bootPaging ebss s₀) s) :
    s.exhausted = true ∨ ∃ d, PagesOk ebss s d := by
  induction hrun with
  | refl =>
    rcases bootPaging_ok hend s₀ with ⟨hex, -⟩ | ⟨d, hok⟩
    · exact Or.inl hex
    · exact Or.inr ⟨d, hok.pagesOk⟩
  | tail _ hs ih =>
    rcases ih with hex | ⟨d, hok⟩
    · exact Or.inl (hs.exhausted hex)
    · rcases hok.step hs with hex | hok
      · exact Or.inl hex
      · exact Or.inr ⟨d, hok⟩

/-- The processor finds physical memory at its own addresses. -/
lemma PagesOk.walk_identity (h : PagesOk ebss s d) {v : UInt32} (hv : v.toNat < 8192 * 4096) :
    walk s v = some v := by
  have hpd : pdIndex v < 8 := by
    rw [pdIndex_eq]
    omega
  rw [walk_eq, h.mapped.identity _ hpd _ (ptIndex_lt v), Option.map_some, pdIndex_eq, ptIndex_eq]
  have hsum : (v.toNat / 4194304 * 1024 + v.toNat / 4096 % 1024) * 4096 + v.toNat % 4096 = v.toNat := by omega
  rw [hsum, UInt32.ofNat_toNat]

/-- A change of the blocks at one page changes what is found at that page only. -/
lemma PagesOk.walk_other (h : PagesOk ebss s d) {d' : ℕ} (h' : PagesOk ebss s' d') {v : UInt32}
    (hsame : ∀ w, pageOf w ≠ pageOf v → pageOf w ∈ outside 8192 → frameOf s' (pageOf w) = frameOf s (pageOf w))
    (w : UInt32) (hw : w.toNat / 4096 ≠ v.toNat / 4096) : walk s' w = walk s w := by
  by_cases hin : w.toNat < 8192 * 4096
  · rw [h.walk_identity hin, h'.walk_identity hin]
  · have hpage : pageOf w ≠ pageOf v := fun he => hw (pageOf_eq_iff.mp he)
    have hframe := hsame w hpage (pageOf_outside (by omega))
    rw [walk_eq, walk_eq]
    simp only [pageOf] at hframe
    rw [hframe]

lemma walk_page {v w : UInt32} (hw : w.toNat / 4096 = v.toNat / 4096) : walk s w =
    (frameOf s (pageOf v)).map fun n => UInt32.ofNat (n * 4096 + w.toNat % 4096) := by
  have hpage : pageOf w = pageOf v := pageOf_eq_iff.mpr hw
  rw [walk_eq, ← hpage]
  rfl

/-- After `pmm_init`, `vmm_init` and any calls, as long as memory has not run out: the directory,
the tables and the pages outside the identity mapping stand in different used blocks, physical
memory is found at its own addresses, and a call changes the one page of its address. -/
theorem page_isolation (hend : ebss.toNat + 1024 ≤ 2 ^ 25) (s₀ : Vmm)
    (hrun : Relation.ReflTransGen PageStep (bootPaging ebss s₀) s) (halive : s.exhausted = false) :
    (∀ u ∈ outside s.pmm.totalBlocks.toNat, ∀ n, frameOf s u = some n →
      n < s.pmm.totalBlocks.toNat ∧ ¬Reserved ebss n ∧ s.pmm.bitmap.mem n = true) ∧
    (∀ u ∈ outside s.pmm.totalBlocks.toNat, ∀ w ∈ outside s.pmm.totalBlocks.toNat, ∀ n,
      frameOf s u = some n → frameOf s w = some n → u = w) ∧
    (∀ v : UInt32, v.toNat < s.pmm.totalBlocks.toNat * 4096 → walk s v = some v) ∧
    (∀ v flags : UInt32, s.pmm.totalBlocks.toNat * 4096 ≤ v.toNat → (vmmAllocPage s v flags).exhausted = false →
      (∃ n, (∀ u ∈ outside s.pmm.totalBlocks.toNat, frameOf s u ≠ some n) ∧
        (∀ u ∈ outside s.pmm.totalBlocks.toNat, u ≠ pageOf v → frameOf (vmmAllocPage s v flags) u ≠ some n) ∧
        ∀ w : UInt32, w.toNat / 4096 = v.toNat / 4096 →
          walk (vmmAllocPage s v flags) w = some (UInt32.ofNat (n * 4096 + w.toNat % 4096))) ∧
      ∀ w : UInt32, w.toNat / 4096 ≠ v.toNat / 4096 → walk (vmmAllocPage s v flags) w = walk s w) ∧
    ∀ v : UInt32, s.pmm.totalBlocks.toNat * 4096 ≤ v.toNat →
      (∀ w : UInt32, w.toNat / 4096 = v.toNat / 4096 → walk (vmmFreePage s v) w = none) ∧
      ∀ w : UInt32, w.toNat / 4096 ≠ v.toNat / 4096 → walk (vmmFreePage s v) w = walk s w := by
  rcases pagesOk_run hend hrun with hex | ⟨d, hok⟩
  · rw [halive] at hex
    cases hex
  rw [hok.total]
  refine ⟨?_, hok.mapped.owns.distinct, fun v hv => hok.walk_identity hv, ?_, ?_⟩
  · exact fun u hu n hn => hok.mapped.owns.taken u hu n hn
  · intro v flags hv halive'
    rcases hok.allocPage hv flags with hex | ⟨m, hok', hself, hfresh, hsame⟩
    · rw [halive'] at hex
      cases hex
    refine ⟨⟨m, ?_, ?_, ?_⟩, ?_⟩
    · exact fun u hu => hok.mapped.owns.ne_of_fresh hu hfresh
    · intro u hu hne he
      exact hne (hok'.mapped.owns.distinct u hu _ (pageOf_outside hv) m he hself)
    · intro w hw
      rw [walk_page hw, hself, Option.map_some]
    · apply hok.walk_other hok'
      intro w hne hout
      exact hsame _ hout hne (by simp [pageOf])
  · intro v hv
    obtain ⟨hok', hself, hsame⟩ := hok.freePage hv
    refine ⟨?_, hok.walk_other hok' fun w hne hout => hsame _ hout hne⟩
    intro w hw
    rw [walk_page hw, hself, Option.map_none]

/-- A kernel that ends below the last blocks leaves memory for the tables and `k` more blocks. -/
lemma bootPaging_room {k : ℕ} (hk : k ≤ 7927) (hend : ebss.toNat + 1024 ≤ (8183 - k) * 4096) (s₀ : Vmm) :
    ∃ d, InitOk ebss (pmmInit ebss s₀.pmm).usedBlocks.toNat 8 (bootPaging ebss s₀) d ∧
      (bootPaging ebss s₀).pmm.usedBlocks.toNat + k ≤ 8192 := by
  obtain ⟨hcounted, hmem⟩ := pmmInit_ok (show ebss.toNat + 1024 ≤ 2 ^ 25 by omega) s₀.pmm
  have hsub : Finset.Ico (8183 - k) 8192 ⊆
      (Finset.range 8192).filter (fun n => (pmmInit ebss s₀.pmm).bitmap.mem n = false) := by
    intro n hn
    rw [Finset.mem_Ico] at hn
    rw [Finset.mem_filter, Finset.mem_range, hmem n hn.2, decide_eq_false_iff_not]
    unfold Reserved
    omega
  have hfree : 8192 - (8183 - k) ≤ (pmmInit ebss s₀.pmm).bitmap.free 8192 := by
    have hcard := Finset.card_le_card hsub
    rwa [Nat.card_Ico] at hcard
  have hcount := hcounted.count
  rcases bootPaging_ok (show ebss.toNat + 1024 ≤ 2 ^ 25 by omega) s₀ with ⟨-, hfull⟩ | ⟨d, hok⟩
  · omega
  · have hused := hok.count
    exact ⟨d, hok, by omega⟩

lemma pageTableFor_alive (hp : PmmOk ebss s.pmm) (halive : s.exhausted = false)
    (hroom : s.pmm.usedBlocks.toNat + 1 ≤ 8192) (flags : UInt32) :
    (pageTableFor s i flags).2.exhausted = false := by
  by_cases hpresent : s.entry s.pageDirectory i &&& pagePresent ≠ 0
  · rw [pageTableFor, if_pos hpresent]
    exact halive
  · rcases allocBlock_cases hp with ⟨-, hfull⟩ | ⟨n, q, hcall, -⟩
    · omega
    · rw [pageTableFor_new flags hpresent hcall, (install_rest _ _ _ _ _).2.2]
      exact halive

lemma allocPage_alive (hp : PmmOk ebss s.pmm) (halive : s.exhausted = false)
    (hroom : s.pmm.usedBlocks.toNat + 2 ≤ 8192) (v flags : UInt32) :
    (vmmAllocPage s v flags).exhausted = false := by
  rcases allocBlock_cases hp with ⟨-, hfull⟩ | ⟨m, q, hcall, hne, -, -, hq, hnext, -⟩
  · omega
  · rw [vmmAllocPage, hcall, if_pos hne, vmmMapPage, setEntry_exhausted]
    exact pageTableFor_alive (s := { s with pmm := q }) hq halive (by simp only; omega) flags

/-- Memory full of zeros before boot. -/
def blankMemory : Vmm := ⟨⟨fun _ => 0, 0, 0⟩, fun _ => 0, 0, false⟩

/-- A page is mapped and unmapped, and memory is found at its own addresses before and after. -/
theorem page_isolation_boot : ∃ s, s = vmmAllocPage (bootPaging 0x20000 blankMemory) 0x40000000 2 ∧
    (∃ n : ℕ, walk s 0x40000123 = some (UInt32.ofNat (n * 4096 + 0x123))) ∧ walk s 0x1000 = some 0x1000 ∧
    walk (vmmFreePage s 0x40000000) 0x40000123 = none ∧ walk (vmmFreePage s 0x40000000) 0x1000 = some 0x1000 := by
  have hend : (0x20000 : UInt32).toNat + 1024 ≤ 2 ^ 25 := by decide
  obtain ⟨d, hok, hroom⟩ := @bootPaging_room 0x20000 2 (by decide) (by decide) blankMemory
  have halive := allocPage_alive hok.pmm hok.alive (by omega) 0x40000000 2
  have htotal := hok.pagesOk.total
  have hout : (bootPaging 0x20000 blankMemory).pmm.totalBlocks.toNat * 4096 ≤ (0x40000000 : UInt32).toNat := by
    rw [htotal]
    decide
  have hrun := Relation.ReflTransGen.single (PageStep.alloc 2 hout)
  generalize hs : vmmAllocPage (bootPaging 0x20000 blankMemory) 0x40000000 2 = s at halive hrun
  obtain ⟨d', hok'⟩ := (pagesOk_run hend hrun).resolve_left (by simp [halive])
  have htotal' := hok'.total
  have hfirst := page_isolation hend blankMemory .refl hok.alive
  have hsecond := page_isolation hend blankMemory hrun halive
  obtain ⟨⟨n, -, -, hpage⟩, -⟩ := hfirst.2.2.2.1 0x40000000 2 hout (by rw [hs]; exact halive)
  obtain ⟨hgone, hkept⟩ := hsecond.2.2.2.2 0x40000000 (by rw [htotal']; decide)
  have hsame : walk s 0x1000 = some 0x1000 := hsecond.2.2.1 0x1000 (by rw [htotal']; decide)
  refine ⟨s, rfl, ⟨n, ?_⟩, hsame, hgone 0x40000123 (by decide), ?_⟩
  · rw [← hs]
    exact hpage 0x40000123 (by decide)
  · rw [hkept 0x1000 (by decide)]
    exact hsame

end Runs

end SBoy28.Paging
