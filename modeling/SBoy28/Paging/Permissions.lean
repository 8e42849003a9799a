import SBoy28.Paging.Accounting

/-!
# Effective page permissions

A user-mode access needs `PAGE_USER` in the directory entry and in the table entry.
`vmm_map_page` writes the table entry on every call, and the directory entry on the first call for
a 4 MB region only.
-/

namespace SBoy28.Paging
open Lib

variable {ebss : UInt32} {s : Vmm} {i j n d : ℕ}

section Calls

/-- The arguments of a call of `vmm_map_page`. -/
structure MapCall where
  virtualAddr : UInt32
  physicalAddr : UInt32
  flags : UInt32
  deriving DecidableEq, Repr

def MapCall.perform (s : Vmm) (c : MapCall) : Vmm := vmmMapPage s c.virtualAddr c.physicalAddr c.flags

def mapAll (s : Vmm) (calls : List MapCall) : Vmm := calls.foldl MapCall.perform s

/-- The most recent call for a page. -/
def lastMap (calls : List MapCall) (u : User) : Option MapCall :=
  (calls.filter fun c => pageOf c.virtualAddr = u).getLast?

/-- The first call for a 4 MB region. -/
def firstMap (calls : List MapCall) (i : ℕ) : Option MapCall :=
  calls.find? fun c => pdIndex c.virtualAddr = i

/-- The processor lets user mode use an address: both entries are present and have `PAGE_USER`. -/
def userAllowed (s : Vmm) (virtualAddr : UInt32) : Bool :=
  let pde := s.entry s.pageDirectory (pdIndex virtualAddr)
  let pte := s.entry (pde &&& ~~~0xFFF) (ptIndex virtualAddr)
  pde &&& pagePresent ≠ 0 && pte &&& pagePresent ≠ 0 && pde &&& pageUser ≠ 0 && pte &&& pageUser ≠ 0

/-- The table entry that a call writes. -/
def MapCall.entry (c : MapCall) : UInt32 :=
  (c.physicalAddr &&& ~~~0xFFF) ||| (c.flags &&& 0xFFF) ||| pagePresent

lemma lastMap_concat (calls : List MapCall) (c : MapCall) (u : User) :
    lastMap (calls ++ [c]) u = if pageOf c.virtualAddr = u then some c else lastMap calls u := by
  rw [lastMap, List.filter_append]
  by_cases hu : pageOf c.virtualAddr = u
  · simp [hu]
  · simp [hu, lastMap]

lemma firstMap_concat (calls : List MapCall) (c : MapCall) (i : ℕ) :
    firstMap (calls ++ [c]) i =
      (firstMap calls i).or (if pdIndex c.virtualAddr = i then some c else none) := by
  rw [firstMap, List.find?_append, ← firstMap]
  by_cases hi : pdIndex c.virtualAddr = i <;> simp [hi]

lemma lastMap_none {calls : List MapCall} (h : firstMap calls i = none) (j : ℕ) :
    lastMap calls (.page i j) = none := by
  rw [firstMap, List.find?_eq_none] at h
  rw [lastMap, List.getLast?_eq_none_iff, List.filter_eq_nil_iff]
  intro c hc he
  have hpage := of_decide_eq_true he
  rw [pageOf, User.page.injEq] at hpage
  exact h c hc (decide_eq_true hpage.1)

end Calls

section Bits

lemma user_base (x : UInt32) : (x &&& ~~~0xFFF) &&& pageUser = 0 := by
  rw [UInt32.and_assoc]
  exact UInt32.and_zero

lemma user_entry (c : MapCall) : c.entry &&& pageUser = c.flags &&& pageUser := by
  have hflags : (c.flags &&& 0xFFF) &&& pageUser = c.flags &&& pageUser := by
    rw [UInt32.and_assoc]
    rfl
  have hpresent : pagePresent &&& pageUser = 0 := rfl
  rw [MapCall.entry, and_or_distrib_right, and_or_distrib_right, user_base, hflags, hpresent]
  simp

lemma user_table {addr : UInt32} (ha : addr.toNat = n * 4096) (flags : UInt32) :
    (addr ||| pagePresent ||| pageRw ||| (flags &&& pageUser)) &&& pageUser = flags &&& pageUser := by
  have hbase : addr &&& ~~~0xFFF = addr := by
    apply UInt32.toNat_inj.mp
    rw [base_toNat, ha, Nat.mul_div_cancel _ (by decide)]
  have haddr := user_base addr
  rw [hbase] at haddr
  have hflags : (flags &&& pageUser) &&& pageUser = flags &&& pageUser := by
    rw [UInt32.and_assoc]
    rfl
  have hpresent : pagePresent &&& pageUser = 0 := rfl
  have hrw : pageRw &&& pageUser = 0 := rfl
  rw [and_or_distrib_right, and_or_distrib_right, and_or_distrib_right, haddr, hflags, hpresent, hrw]
  simp

end Bits

section Runs

/-- The directory and the tables, without the pages: a page may be mapped to any frame. -/
def tables : Set User :=
  fun
  | .directory => True
  | .table i => i < 1024
  | .page _ _ => False

/-- The entries outside the identity mapping after some calls. -/
structure Tracks (ebss : UInt32) (calls : List MapCall) (s : Vmm) (d : ℕ) : Prop where
  pmm : PmmOk ebss s.pmm
  dir : s.pageDirectory.toNat = d * 4096
  owns : Owns tables (frameOf s) (usedBlocks ebss s.pmm)
  absent : ∀ i < 1024, 8 ≤ i → firstMap calls i = none → frameOf s (.table i) = none
  first : ∀ i < 1024, 8 ≤ i → ∀ c, firstMap calls i = some c →
    (∃ n, frameOf s (.table i) = some n) ∧ s.cell d i &&& pageUser = c.flags &&& pageUser
  last : ∀ i < 1024, 8 ≤ i → ∀ n, frameOf s (.table i) = some n → ∀ j < 1024,
    s.cell n j = ((lastMap calls (.page i j)).map MapCall.entry).getD 0

lemma InitOk.tracks {c : ℕ} (h : InitOk ebss c 8 s d) : Tracks ebss [] s d where
  pmm := h.pmm
  dir := h.mapped.dir
  owns := by
    have hsub : ∀ u ∈ tables, u ∈ outside 8192 := by
      intro u hu
      cases u with
      | directory => trivial
      | table i => exact hu
      | page i j => exact absurd hu id
    exact ⟨fun u hu => h.mapped.owns.taken u (hsub u hu),
      fun u hu v hv => h.mapped.owns.distinct u (hsub u hu) v (hsub v hv)⟩
  absent i hi h8 _ := h.absent i hi h8
  first i hi h8 c hc := by simp [firstMap] at hc
  last i hi h8 n hn := by
    rw [h.absent i hi h8] at hn
    cases hn

/-- The tables outside the identity mapping hold the entries of the most recent calls. -/
def EntriesOf (calls : List MapCall) (s : Vmm) : Prop :=
  ∀ i < 1024, 8 ≤ i → ∀ n, frameOf s (.table i) = some n → ∀ j < 1024,
    s.cell n j = ((lastMap calls (.page i j)).map MapCall.entry).getD 0

lemma EntriesOf.map {calls : List MapCall} {c : MapCall} (h : EntriesOf calls s)
    (hd : s.pageDirectory.toNat = d * 4096) (hnd : n ≠ d)
    (hone : ∀ k < 1024, k ≠ pdIndex c.virtualAddr → frameOf s (.table k) ≠ some n)
    (ht : frameOf s (.table (pdIndex c.virtualAddr)) = some n) {table : UInt32}
    (htable : table.toNat = n * 4096) :
    let s' := s.setEntry table (ptIndex c.virtualAddr) c.entry
    (∀ u ∈ tables, frameOf s' u = frameOf s u) ∧ (∀ k < 1024, s'.cell d k = s.cell d k) ∧
      EntriesOf (calls ++ [c]) s' := by
  have hjlt := ptIndex_lt c.virtualAddr
  have hcell : ∀ b k, k < 1024 → (s.setEntry table (ptIndex c.virtualAddr) c.entry).cell b k =
      if b = n ∧ k = ptIndex c.virtualAddr then c.entry else s.cell b k :=
    fun b k hk => cell_setEntry htable hjlt hk
  have hdir : (s.setEntry table (ptIndex c.virtualAddr) c.entry).pageDirectory = s.pageDirectory := rfl
  obtain ⟨-, hsame⟩ := frameOf_writePage hd hdir (pdIndex_lt c.virtualAddr) hnd hone hjlt ht hcell
  have hframe : ∀ u ∈ tables, frameOf (s.setEntry table (ptIndex c.virtualAddr) c.entry) u = frameOf s u := by
    intro u hu
    cases u with
    | directory => exact hsame .directory trivial (by simp)
    | table k => exact hsame (.table k) hu (by simp)
    | page k l => exact absurd hu id
  refine ⟨hframe, fun k hk => ?_, fun k hk hk8 m hm l hl => ?_⟩
  · rw [hcell d k hk, if_neg (fun hc => hnd hc.1.symm)]
  · rw [hframe (.table k) hk] at hm
    have hold := h k hk hk8 m hm l hl
    rw [hcell m l hl, lastMap_concat, pageOf]
    by_cases hpage : m = n ∧ l = ptIndex c.virtualAddr
    · obtain ⟨rfl, rfl⟩ := hpage
      have hki : pdIndex c.virtualAddr = k := by
        by_contra hne
        exact hone k hk (Ne.symm hne) hm
      simp [hki]
    · rw [if_neg hpage, hold, if_neg]
      intro he
      obtain ⟨rfl, rfl⟩ := User.page.inj he
      rw [ht] at hm
      exact hpage ⟨(Option.some.inj hm).symm, rfl⟩

namespace Tracks

variable {calls : List MapCall} {c : MapCall} (h : Tracks ebss calls s d)
include h

lemma directory_ne (hi : i < 1024) : frameOf s (.table i) ≠ some d := by
  have hmem : User.directory ∈ tables := trivial
  exact h.owns.ne_of_other hmem hi (by simp) (frameOf_directory h.dir)

lemma table_ne (hi : i < 1024) (hj : j < 1024) (hij : j ≠ i) (ht : frameOf s (.table i) = some n) :
    frameOf s (.table j) ≠ some n :=
  h.owns.ne_of_other (u := .table i) hi hj (fun he => hij (User.table.inj he)) ht

/-- A call for a region that has a table writes one entry of it. -/
lemma map_present (h8 : 8 ≤ pdIndex c.virtualAddr) (ht : frameOf s (.table (pdIndex c.virtualAddr)) = some n)
    {table : UInt32} (htable : table.toNat = n * 4096) :
    Tracks ebss (calls ++ [c]) (s.setEntry table (ptIndex c.virtualAddr) c.entry) d := by
  have hlt := pdIndex_lt c.virtualAddr
  have hnd : n ≠ d := fun he => h.directory_ne hlt (he ▸ ht)
  obtain ⟨hframe, hcell, hlast⟩ := EntriesOf.map h.last h.dir hnd
    (fun k hk hne => h.table_ne hlt hk hne ht) ht htable
  have hfirst : ∀ k, firstMap (calls ++ [c]) k = firstMap calls k := by
    intro k
    rw [firstMap_concat]
    by_cases hk : pdIndex c.virtualAddr = k
    · subst hk
      cases hf : firstMap calls (pdIndex c.virtualAddr) with
      | none =>
        rw [h.absent _ hlt h8 hf] at ht
        cases ht
      | some c₀ => rfl
    · rw [if_neg hk, Option.or_none]
  refine ⟨h.pmm, h.dir, h.owns.congr hframe, ?_, ?_, hlast⟩
  · intro k hk hk8 hnone
    rw [hframe (.table k) hk]
    exact h.absent k hk hk8 (hfirst k ▸ hnone)
  · intro k hk hk8 c' hc'
    rw [hframe (.table k) hk, hcell k hk]
    exact h.first k hk hk8 c' (hfirst k ▸ hc')

lemma install_table {q : Pmm} {addr e : UInt32} (hi : i < 1024) (hnone : firstMap calls i = none)
    (haddr : addr.toNat = n * 4096) (he : target e = some n) (hfresh : n ∉ usedBlocks ebss s.pmm) :
    let s' := Vmm.install { s with pmm := q } addr (fun _ => 0) i e
    frameOf s' (.table i) = some n ∧ (∀ u ∈ tables, u ≠ .table i → frameOf s' u = frameOf s u) ∧
      (∀ k < 1024, s'.cell d k = if k = i then e else s.cell d k) ∧ EntriesOf calls s' := by
  have hnd : n ≠ d := by
    rintro rfl
    exact hfresh (h.owns.taken .directory trivial n (frameOf_directory h.dir))
  have hcell : ∀ b k, k < 1024 → (Vmm.install { s with pmm := q } addr (fun _ => 0) i e).cell b k =
      if b = d ∧ k = i then e else if b = n then 0 else s.cell b k :=
    fun b k hk => cell_install (s := { s with pmm := q }) h.dir haddr _ _ hi hk
  obtain ⟨hself, -, hdirectory, hother, -⟩ := frameOf_writeTable h.dir
    (install_rest { s with pmm := q } addr (fun _ => 0) i e).2.1 hi hnd
    (fun a ha _ => h.owns.ne_of_fresh (u := .table a) ha hfresh) he (fun a ha => h.directory_ne ha) hcell
  refine ⟨hself, fun u hu hne => ?_, fun k hk => ?_, fun k hk hk8 m hm l hl => ?_⟩
  · cases u with
    | directory => exact hdirectory
    | table k => exact hother k hu (fun hk => hne (by rw [hk]))
    | page k l => exact absurd hu id
  · rw [hcell d k hk, if_neg hnd.symm]
    simp
  · rw [hcell m l hl]
    by_cases hki : k = i
    · subst hki
      rw [hself, Option.some.injEq] at hm
      subst hm
      rw [if_neg (fun hc => hnd hc.1), if_pos rfl, lastMap_none hnone]
      rfl
    · rw [hother k hk hki] at hm
      have hmn : m ≠ n := by
        rintro rfl
        exact h.owns.ne_of_fresh (u := .table k) hk hfresh hm
      have hmd : m ≠ d := fun hc => h.directory_ne hk (hc ▸ hm)
      rw [if_neg (fun hc => hmd hc.1), if_neg hmn]
      exact h.last k hk hk8 m hm l hl

lemma map_absent {q : Pmm} {addr : UInt32} (h8 : 8 ≤ pdIndex c.virtualAddr)
    (ht : frameOf s (.table (pdIndex c.virtualAddr)) = none) (haddr : addr.toNat = n * 4096)
    (hfresh : n ∉ usedBlocks ebss s.pmm) (hq : PmmOk ebss q)
    (hused : usedBlocks ebss q = insert n (usedBlocks ebss s.pmm)) :
    Tracks ebss (calls ++ [c]) (Vmm.setEntry (Vmm.install { s with pmm := q } addr (fun _ => 0)
      (pdIndex c.virtualAddr) (addr ||| pagePresent ||| pageRw ||| (c.flags &&& pageUser))) addr
      (ptIndex c.virtualAddr) c.entry) d := by
  have hlt := pdIndex_lt c.virtualAddr
  have htarget := target_table addr c.flags
  have huser := user_table haddr c.flags
  obtain ⟨e, he⟩ : ∃ e, e = addr ||| pagePresent ||| pageRw ||| (c.flags &&& pageUser) := ⟨_, rfl⟩
  rw [← he] at huser ⊢
  rw [← he, haddr, Nat.mul_div_cancel _ (by decide)] at htarget
  have hnone : firstMap calls (pdIndex c.virtualAddr) = none := by
    cases hf : firstMap calls (pdIndex c.virtualAddr) with
    | none => rfl
    | some c₀ =>
      obtain ⟨⟨m, hm⟩, -⟩ := h.first _ hlt h8 c₀ hf
      rw [ht] at hm
      cases hm
  have hnd : n ≠ d := by
    rintro rfl
    exact hfresh (h.owns.taken .directory trivial n (frameOf_directory h.dir))
  obtain ⟨hself, hother, hdirectory, hentries⟩ := h.install_table (q := q) hlt hnone haddr htarget hfresh
  obtain ⟨hpmm, hdir, -⟩ := install_rest { s with pmm := q } addr (fun _ => 0) (pdIndex c.virtualAddr) e
  obtain ⟨s₁, hs₁⟩ : ∃ s₁, s₁ = Vmm.install { s with pmm := q } addr (fun _ => 0) (pdIndex c.virtualAddr) e :=
    ⟨_, rfl⟩
  rw [← hs₁] at hself hother hdirectory hentries hpmm hdir ⊢
  have hdir₁ : s₁.pageDirectory.toNat = d * 4096 := hdir ▸ h.dir
  have htable : ∀ k < 1024, k ≠ pdIndex c.virtualAddr → frameOf s₁ (.table k) = frameOf s (.table k) :=
    fun k hk hne => hother (.table k) hk (fun hc => hne (User.table.inj hc))
  have hfree : ∀ k < 1024, k ≠ pdIndex c.virtualAddr → frameOf s₁ (.table k) ≠ some n := by
    intro k hk hne
    rw [htable k hk hne]
    exact h.owns.ne_of_fresh (u := .table k) hk hfresh
  obtain ⟨hframe, hcell, hlast⟩ := hentries.map hdir₁ hnd hfree hself haddr
  refine ⟨hpmm ▸ hq, hdir₁, ?_, ?_, ?_, hlast⟩
  · rw [setEntry_pmm, hpmm, hused]
    exact (h.owns.take hfresh hself hother).congr hframe
  · intro k hk hk8 hk'
    rw [firstMap_concat] at hk'
    by_cases hki : pdIndex c.virtualAddr = k
    · simp [hki] at hk'
    · rw [if_neg hki, Option.or_none] at hk'
      rw [hframe (.table k) hk, htable k hk (Ne.symm hki)]
      exact h.absent k hk hk8 hk'
  · intro k hk hk8 c' hc'
    rw [firstMap_concat] at hc'
    rw [hframe (.table k) hk, hcell k hk, hdirectory k hk]
    by_cases hki : pdIndex c.virtualAddr = k
    · subst hki
      rw [hnone, if_pos rfl, Option.none_or, Option.some.injEq] at hc'
      subst hc'
      rw [if_pos rfl]
      exact ⟨⟨n, hself⟩, huser⟩
    · rw [if_neg hki, Option.or_none] at hc'
      rw [htable k hk (Ne.symm hki), if_neg (Ne.symm hki)]
      exact h.first k hk hk8 c' hc'

theorem step (hv : 8192 * 4096 ≤ c.virtualAddr.toNat) (halive : (c.perform s).exhausted = false) :
    Tracks ebss (calls ++ [c]) (c.perform s) d := by
  have h8 : 8 ≤ pdIndex c.virtualAddr := by
    rw [pdIndex_eq]
    omega
  rw [MapCall.perform, vmmMapPage] at halive ⊢
  by_cases hpresent : s.entry s.pageDirectory (pdIndex c.virtualAddr) &&& pagePresent ≠ 0
  · have hcall : pageTableFor s (pdIndex c.virtualAddr) c.flags =
        (s.entry s.pageDirectory (pdIndex c.virtualAddr) &&& ~~~0xFFF, s) := by
      rw [pageTableFor, if_pos hpresent]
    have ht : frameOf s (.table (pdIndex c.virtualAddr)) =
        some ((s.entry s.pageDirectory (pdIndex c.virtualAddr)).toNat / 4096) := by
      rw [frameOf, target, if_pos hpresent]
    rw [hcall]
    exact h.map_present h8 ht (base_toNat _)
  · have ht : frameOf s (.table (pdIndex c.virtualAddr)) = none := by rw [frameOf, target, if_neg hpresent]
    rcases allocBlock_cases h.pmm with ⟨hcall, -⟩ | ⟨n, q, hcall, -, haddr, hfresh, hq, -, hused⟩
    · rw [pageTableFor_new c.flags hpresent hcall, setEntry_exhausted, (install_rest _ _ _ _ _).2.2] at halive
      cases halive
    · rw [pageTableFor_new c.flags hpresent hcall]
      exact h.map_absent h8 ht haddr hfresh hq hused

/-- What the processor finds at a page that has been mapped. -/
theorem walk_last {v : UInt32} (h8 : 8 ≤ pdIndex v) (hc : lastMap calls (pageOf v) = some c) :
    walk s v = some (UInt32.ofNat (c.physicalAddr.toNat / 4096 * 4096 + v.toNat % 4096)) ∧
      ∃ c₀, firstMap calls (pdIndex v) = some c₀ ∧
        (userAllowed s v = true ↔ c₀.flags &&& pageUser ≠ 0 ∧ c.flags &&& pageUser ≠ 0) := by
  have hlt := pdIndex_lt v
  cases hf : firstMap calls (pdIndex v) with
  | none =>
    rw [pageOf, lastMap_none hf] at hc
    cases hc
  | some c₀ =>
    obtain ⟨⟨n, hn⟩, huser⟩ := h.first _ hlt h8 c₀ hf
    have hcell := h.last _ hlt h8 n hn _ (ptIndex_lt v)
    rw [pageOf] at hc
    rw [hc, Option.map_some, Option.getD_some] at hcell
    have hpde : s.entry s.pageDirectory (pdIndex v) = s.cell d (pdIndex v) := entry_eq_cell h.dir
    have hpresent : s.entry s.pageDirectory (pdIndex v) &&& pagePresent ≠ 0 := by
      intro hz
      rw [frameOf, target, if_neg (not_not.mpr hz)] at hn
      cases hn
    have hblock : (s.entry s.pageDirectory (pdIndex v)).toNat / 4096 = n := by
      rwa [frameOf, target, if_pos hpresent, Option.some.injEq] at hn
    have hpte : s.entry (s.entry s.pageDirectory (pdIndex v) &&& ~~~0xFFF) (ptIndex v) = c.entry := by
      rw [entry_eq_cell (b := n), hcell]
      rw [base_toNat, hblock]
    have hentry : c.entry &&& pagePresent ≠ 0 := by
      rw [MapCall.entry, present_or]
      exact Or.inr (by decide)
    refine ⟨?_, c₀, rfl, ?_⟩
    · have hpage : frameOf s (pageOf v) = some (c.physicalAddr.toNat / 4096) := by
        rw [pageOf, frameOf_page_of hn, hcell]
        exact target_page _ _
      rw [walk_page rfl, hpage, Option.map_some]
    · simp only [userAllowed, hpte, Bool.and_eq_true, decide_eq_true_eq]
      rw [user_entry, hpde, huser, ← hpde]
      tauto

end Tracks

lemma exhausted_mapAll (h : s.exhausted = true) (calls : List MapCall) : (mapAll s calls).exhausted = true := by
  induction calls generalizing s with
  | nil => exact h
  | cons c cs ih => exact ih (exhausted_mapPage h _ _ _)

lemma Tracks.run {calls cs : List MapCall} (h : Tracks ebss calls s d)
    (hout : ∀ c ∈ cs, 8192 * 4096 ≤ c.virtualAddr.toNat) (halive : (mapAll s cs).exhausted = false) :
    Tracks ebss (calls ++ cs) (mapAll s cs) d := by
  induction cs generalizing calls s with
  | nil => simpa [mapAll] using h
  | cons c cs ih =>
    have halive' : (c.perform s).exhausted = false := by
      by_contra hex
      have hrun := exhausted_mapAll (by simpa using hex) cs
      rw [mapAll, List.foldl_cons, ← mapAll, hrun] at halive
      cases halive
    have hstep := h.step (hout c (by simp)) halive'
    have hrest := ih hstep (fun c' hc' => hout c' (by simp [hc'])) halive
    rw [List.append_assoc, List.singleton_append] at hrest
    exact hrest

lemma lastMap_mem {calls : List MapCall} {u : User} {c : MapCall} (h : lastMap calls u = some c) :
    c ∈ calls ∧ pageOf c.virtualAddr = u := by
  have hmem := List.mem_of_getLast? h
  rw [List.mem_filter] at hmem
  exact ⟨hmem.1, of_decide_eq_true hmem.2⟩

/-- From `vmm_init` on, as long as memory has not run out: a mapped page is found at the frame of
its most recent call. User mode may use every page just as that call says, if and only if each
page that is to be open to user mode lies in a region whose first call had `PAGE_USER`. -/
theorem effective_permissions (hend : ebss.toNat + 1024 ≤ 2 ^ 25) (s₀ : Vmm) (calls : List MapCall)
    (hout : ∀ c ∈ calls, (bootPaging ebss s₀).pmm.totalBlocks.toNat * 4096 ≤ c.virtualAddr.toNat)
    (halive : (mapAll (bootPaging ebss s₀) calls).exhausted = false) :
    (∀ v c, lastMap calls (pageOf v) = some c → walk (mapAll (bootPaging ebss s₀) calls) v =
      some (UInt32.ofNat (c.physicalAddr.toNat / 4096 * 4096 + v.toNat % 4096))) ∧
    ((∀ v c, lastMap calls (pageOf v) = some c →
        (userAllowed (mapAll (bootPaging ebss s₀) calls) v = true ↔ c.flags &&& pageUser ≠ 0)) ↔
      ∀ v c, lastMap calls (pageOf v) = some c → c.flags &&& pageUser ≠ 0 →
        ∀ c₀, firstMap calls (pdIndex v) = some c₀ → c₀.flags &&& pageUser ≠ 0) := by
  rcases bootPaging_ok hend s₀ with ⟨hex, -⟩ | ⟨d, hok⟩
  · rw [exhausted_mapAll hex] at halive
    cases halive
  rw [hok.pagesOk.total] at hout
  have htracks := hok.tracks.run hout halive
  rw [List.nil_append] at htracks
  have hwalk : ∀ v c, lastMap calls (pageOf v) = some c →
      walk (mapAll (bootPaging ebss s₀) calls) v =
        some (UInt32.ofNat (c.physicalAddr.toNat / 4096 * 4096 + v.toNat % 4096)) ∧
      ∃ c₀, firstMap calls (pdIndex v) = some c₀ ∧
        (userAllowed (mapAll (bootPaging ebss s₀) calls) v = true ↔
          c₀.flags &&& pageUser ≠ 0 ∧ c.flags &&& pageUser ≠ 0) := by
    intro v c hc
    obtain ⟨hmem, hpage⟩ := lastMap_mem hc
    have hv := hout c hmem
    have hpd : pdIndex c.virtualAddr = pdIndex v := (User.page.inj hpage).1
    have h8 : 8 ≤ pdIndex v := by
      rw [← hpd, pdIndex_eq]
      omega
    exact htracks.walk_last h8 hc
  refine ⟨fun v c hc => (hwalk v c hc).1, ?_, ?_⟩
  · intro hall v c hc huser c₀ hc₀
    obtain ⟨-, c₁, hc₁, hiff⟩ := hwalk v c hc
    rw [hc₀, Option.some.injEq] at hc₁
    subst hc₁
    exact (hiff.mp ((hall v c hc).mpr huser)).1
  · intro hall v c hc
    obtain ⟨-, c₀, hc₀, hiff⟩ := hwalk v c hc
    rw [hiff]
    exact ⟨fun hu => hu.2, fun hu => ⟨hall v c hc hu c₀ hc₀, hu⟩⟩

lemma MapCall.perform_alive (hp : PmmOk ebss s.pmm) (halive : s.exhausted = false)
    (hroom : s.pmm.usedBlocks.toNat + 1 ≤ 8192) (c : MapCall) : (c.perform s).exhausted = false := by
  rw [MapCall.perform, vmmMapPage, setEntry_exhausted]
  exact pageTableFor_alive hp halive hroom c.flags

/-- A call for a region that has been mapped before allocates nothing. -/
lemma Tracks.perform_alive {calls : List MapCall} {c c₀ : MapCall} (h : Tracks ebss calls s d)
    (h8 : 8 ≤ pdIndex c.virtualAddr) (hc₀ : firstMap calls (pdIndex c.virtualAddr) = some c₀)
    (halive : s.exhausted = false) : (c.perform s).exhausted = false := by
  obtain ⟨⟨n, hn⟩, -⟩ := h.first _ (pdIndex_lt _) h8 c₀ hc₀
  have hpresent : s.entry s.pageDirectory (pdIndex c.virtualAddr) &&& pagePresent ≠ 0 := by
    intro hz
    rw [frameOf, target, if_neg (not_not.mpr hz)] at hn
    cases hn
  rw [MapCall.perform, vmmMapPage, setEntry_exhausted, pageTableFor, if_pos hpresent]
  exact halive

/-- The processor denies user mode a page with `PAGE_USER` after a page without it in its region. -/
lemma bootPaging_denied (hend : ebss.toNat + 1024 ≤ 8182 * 4096) (s₀ : Vmm) {c c' : MapCall}
    (hc : 8192 * 4096 ≤ c.virtualAddr.toNat) (hc' : 8192 * 4096 ≤ c'.virtualAddr.toNat)
    (hregion : pdIndex c.virtualAddr = pdIndex c'.virtualAddr) (huser : c.flags &&& pageUser = 0)
    (huser' : c'.flags &&& pageUser ≠ 0) : ¬∀ calls : List MapCall,
    (∀ c ∈ calls, (bootPaging ebss s₀).pmm.totalBlocks.toNat * 4096 ≤ c.virtualAddr.toNat) →
    (mapAll (bootPaging ebss s₀) calls).exhausted = false →
    ∀ v c, lastMap calls (pageOf v) = some c →
      walk (mapAll (bootPaging ebss s₀) calls) v =
        some (UInt32.ofNat (c.physicalAddr.toNat / 4096 * 4096 + v.toNat % 4096)) ∧
      (userAllowed (mapAll (bootPaging ebss s₀) calls) v = true ↔ c.flags &&& pageUser ≠ 0) := by
  intro hall
  obtain ⟨d, hok, hroom⟩ := bootPaging_room (k := 1) (by decide) hend s₀
  have halive := MapCall.perform_alive hok.pmm hok.alive hroom c
  have hone := hok.tracks.step hc halive
  have hfirst : firstMap ([] ++ [c]) (pdIndex c'.virtualAddr) = some c := by
    rw [firstMap_concat, if_pos hregion]
    rfl
  have h8 : 8 ≤ pdIndex c'.virtualAddr := by
    rw [pdIndex_eq]
    omega
  have halive' := hone.perform_alive h8 hfirst halive
  have htwo := hone.step hc' halive'
  have hlast : lastMap ([] ++ [c] ++ [c']) (pageOf c'.virtualAddr) = some c' := by
    rw [lastMap_concat, if_pos rfl]
  have hfirst' : firstMap ([] ++ [c] ++ [c']) (pdIndex c'.virtualAddr) = some c := by
    rw [firstMap_concat, hfirst]
    rfl
  have hout : ∀ b ∈ [c, c'], (bootPaging ebss s₀).pmm.totalBlocks.toNat * 4096 ≤ b.virtualAddr.toNat := by
    rw [hok.pagesOk.total]
    simpa using ⟨hc, hc'⟩
  obtain ⟨-, c₀, hc₀, hiff⟩ := htwo.walk_last h8 hlast
  rw [hfirst', Option.some.injEq] at hc₀
  subst hc₀
  have hclaim := (hall [c, c'] hout halive' c'.virtualAddr c' hlast).2.mpr huser'
  exact (hiff.mp hclaim).1 huser

/-- The page at 0x40000000 is for the kernel, the next one for user mode too. -/
theorem effective_permissions_denied : ¬∀ calls : List MapCall,
    (∀ c ∈ calls, (bootPaging 0x20000 blankMemory).pmm.totalBlocks.toNat * 4096 ≤ c.virtualAddr.toNat) →
    (mapAll (bootPaging 0x20000 blankMemory) calls).exhausted = false →
    ∀ v c, lastMap calls (pageOf v) = some c →
      walk (mapAll (bootPaging 0x20000 blankMemory) calls) v =
        some (UInt32.ofNat (c.physicalAddr.toNat / 4096 * 4096 + v.toNat % 4096)) ∧
      (userAllowed (mapAll (bootPaging 0x20000 blankMemory) calls) v = true ↔ c.flags &&& pageUser ≠ 0) :=
  have hc : 8192 * 4096 ≤ (0x40000000 : UInt32).toNat := by decide +kernel
  have hc' : 8192 * 4096 ≤ (0x40001000 : UInt32).toNat := by decide +kernel
  @bootPaging_denied 0x20000 (by decide) blankMemory ⟨0x40000000, 0x100000, pageRw⟩
    ⟨0x40001000, 0x101000, pageRw ||| pageUser⟩ hc hc' (by decide) (by decide) (by decide)

lemma blank_mapped (c : MapCall) : (mapAll (bootPaging 0x20000 blankMemory) [c]).exhausted = false := by
  obtain ⟨d, hok, hroom⟩ := @bootPaging_room 0x20000 1 (by decide) (by decide) blankMemory
  exact MapCall.perform_alive hok.pmm hok.alive hroom c

theorem effective_permissions_user :
    userAllowed (mapAll (bootPaging 0x20000 blankMemory)
      [⟨0x40000000, 0x100000, pageRw ||| pageUser⟩]) 0x40000123 = true := by
  obtain ⟨d, hok, -⟩ := @bootPaging_room 0x20000 0 (by decide) (by decide) blankMemory
  refine ((effective_permissions (by decide) blankMemory [⟨0x40000000, 0x100000, pageRw ||| pageUser⟩] ?_
    (blank_mapped _)).2.mpr ?_ 0x40000123 ⟨0x40000000, 0x100000, pageRw ||| pageUser⟩ (by decide)).mpr
    (by decide)
  · rw [hok.pagesOk.total]
    decide +kernel
  · intro v c _ _ c₀ hc₀
    have hmem := List.mem_singleton.mp (List.mem_of_find?_eq_some hc₀)
    rw [hmem]
    decide

end Runs

end SBoy28.Paging
