import SBoy28.Fat32.Isolation

/-!
# The FAT over sequences of calls

The copies of the FAT and its chains stay well formed over every sequence of calls. As long as
no entry has two writers, and no handle that is open for writing is given to `fs_open` again,
every cluster in use stays on a chain.
-/

namespace SBoy28.Fat32
open Lib

variable {g : FSMount} {fuel : ℕ} {v v' : Volume} {fam fam' fam₀ : Family} {h : ℕ} {r : Request}
  {out : Outcome FSErr Reply} {disk : Memory} {files : ℕ → FSFile} {file : FSFile}
  {P : Volume → ℕ → Request → Prop}

/-- No two handles are open for writing on the same entry. -/
def OneWriter (v : Volume) : Prop :=
  ∀ h h', Writing v h → Writing v h' → (v.files h).slot = (v.files h').slot → h = h'

/-- The call gives `fs_open` a handle that is open for writing. -/
def Discards (v : Volume) (h : ℕ) (r : Request) : Prop :=
  Writing v h ∧ ∃ path mode, r = .openFile path mode

section Tracking

/-- Every chain can be found: from an entry, or from the handle that writes its file. The first
cluster of a file that was empty is known to its writer only. -/
structure Tracked (g : FSMount) (v : Volume) (fam : Family) : Prop where
  writer : ∀ h, Writing v h → fam (entryAt g v.disk (v.files h).slot).firstCluster ≠ [] →
    (v.files h).firstCluster = (entryAt g v.disk (v.files h).slot).firstCluster
  reader : ∀ h, (v.files h).valid = true → (v.files h).canWrite = false →
    fam (v.files h).firstCluster ≠ [] →
      (entryAt g v.disk (v.files h).slot).firstCluster = (v.files h).firstCluster
  reached : ∀ c, fam c ≠ [] → (∃ o, Alive g v.disk fam o ∧ firstOf g v.disk o = c) ∨
    ∃ h, Writing v h ∧ (v.files h).firstCluster = c
  used : ∀ c, InRange g c → fatValue g v.disk c ≠ 0 → ∃ b, c ∈ fam b

/-- No change loses the chain of a cluster in use. -/
lemma Change.used (hg : Geometry g) (hc : Consistent g v fam) (hch : Change g fam v h r out v' fam')
    (hu : ∀ c, InRange g c → fatValue g v.disk c ≠ 0 → ∃ b, c ∈ fam b) :
    ∀ c, InRange g c → fatValue g v'.disk c ≠ 0 → ∃ b, c ∈ fam' b := by
  intro c hr hne
  by_contra hn
  simp only [not_exists] at hn
  have htable := hch.table hg hc hn
  rw [ne_eq, fatValue_eq_zero_iff hr, htable, ← fatValue_eq_zero_iff hr] at hne
  obtain ⟨b, hb⟩ := hu c hr hne
  exact hn b ((hch.grows hc b).1.subset hb)

namespace Tracked

variable (ht : Tracked g v fam)

include ht

lemma setFile (hnot : Writing v h → file.valid = true ∧ file.canWrite = true ∧
      file.firstCluster = (v.files h).firstCluster)
    (hwriter : file.valid = true → file.canWrite = true →
      fam (entryAt g v.disk file.slot).firstCluster ≠ [] →
        file.firstCluster = (entryAt g v.disk file.slot).firstCluster)
    (hreader : file.valid = true → file.canWrite = false → fam file.firstCluster ≠ [] →
      (entryAt g v.disk file.slot).firstCluster = file.firstCluster) :
    Tracked g (v.setFile h file) fam where
  writer h' hw hne := by
    by_cases hh : h' = h
    · subst hh
      simp only [Writing, Volume.setFile, Function.update_self] at hw hne ⊢
      exact hwriter hw.1 hw.2 hne
    · simp only [Writing, Volume.setFile, Function.update_of_ne hh] at hw hne ⊢
      exact ht.writer h' hw hne
  reader h' hv hw hne := by
    by_cases hh : h' = h
    · subst hh
      simp only [Volume.setFile, Function.update_self] at hv hw hne ⊢
      exact hreader hv hw hne
    · simp only [Volume.setFile, Function.update_of_ne hh] at hv hw hne ⊢
      exact ht.reader h' hv hw hne
  reached c hne := by
    rcases ht.reached c hne with ho | ⟨h', hw, hf⟩
    · exact Or.inl ho
    · refine Or.inr ⟨h', ?_⟩
      by_cases hh : h' = h
      · subst hh
        obtain ⟨hvalid, hcan, hfirst⟩ := hnot hw
        simp only [Writing, Volume.setFile, Function.update_self]
        exact ⟨⟨hvalid, hcan⟩, hfirst.trans hf⟩
      · simp only [Writing, Volume.setFile, Function.update_of_ne hh]
        exact ⟨hw, hf⟩
  used := ht.used

lemma setPosition (hv : (v.files h).valid = true) (position : UInt32) :
    Tracked g (v.setFile h { v.files h with position := position }) fam := by
  apply ht.setFile
  · exact fun hw => ⟨hw.1, hw.2, rfl⟩
  · exact fun _ hw hne => ht.writer h ⟨hv, hw⟩ hne
  · exact fun _ hw hne => ht.reader h hv hw hne

/-- Writing through the only writer of an entry. -/
theorem write {s' : State} {l' : List UInt32} {data : Memory} {k : ℕ} (hg : Geometry g)
    (hc : Consistent g v fam) (hone : OneWriter v) (hw : Writing v h)
    (hwrote : Wrote g fam (v.files h).firstCluster ⟨v.disk, v.files h⟩ s' l' data k)
    (hused : ∀ c, InRange g c → fatValue g s'.disk c ≠ 0 →
      ∃ b, c ∈ Function.update fam s'.file.firstCluster l' b) :
    Tracked g ⟨s'.disk, Function.update v.files h s'.file⟩
      (Function.update fam s'.file.firstCluster l') := by
  have hv := hw.1
  have hr := hc.rewritten hv hwrote
  have hsame := hc.sameTree_write hv hg hwrote
  have hfile : s'.file.slot = (v.files h).slot ∧ s'.file.valid = true ∧ s'.file.canWrite = true := by
    rw [hwrote.file]
    exact ⟨rfl, hv, hw.2⟩
  have hentry : ∀ h', (v.files h').valid = true →
      entryAt g s'.disk (v.files h').slot = entryAt g v.disk (v.files h').slot :=
    fun h' hv' => hc.liveEntry_write hv hg hwrote (hc.handle h' hv').live
  have hother : ∀ {h'}, h' ≠ h → Writing ⟨s'.disk, Function.update v.files h s'.file⟩ h' →
      Writing v h' := by
    intro h' hh hw'
    simpa only [Writing, Function.update_of_ne hh] using hw'
  refine ⟨?_, ?_, ?_, hused⟩
  · intro h' hw' hne
    by_cases hh : h' = h
    · subst hh
      simp only [Function.update_self, hfile.1, hentry h' hv] at hne ⊢
      by_cases he : (entryAt g v.disk (v.files h').slot).firstCluster = s'.file.firstCluster
      · exact he.symm
      · rw [Function.update_of_ne he] at hne
        have hold := ht.writer h' hw hne
        rw [hr.keeps (by rwa [hold]), hold]
    · have hw'' := hother hh hw'
      have hok := hc.handle h' hw''.1
      simp only [Function.update_of_ne hh, hentry h' hw''.1] at hne ⊢
      apply ht.writer h' hw''
      rwa [hr.off] at hne
      intro hl he
      have hslot := hc.owner_unique hv hr hok.live he hl
      exact hh (hone h' h hw'' hw (Option.some.inj hslot))
  · intro h' hv' hcan hne
    have hh : h' ≠ h := by
      rintro rfl
      simp [hfile.2.2] at hcan
    simp only [Function.update_of_ne hh] at hv' hcan hne ⊢
    rw [hentry h' hv']
    apply ht.reader h' hv' hcan
    by_cases he : (v.files h').firstCluster = s'.file.firstCluster
    · rw [he, Function.update_self] at hne
      exact (hr.old (hc.handle h' hv').first he hne).1
    · rwa [Function.update_of_ne he] at hne
  · intro c hne
    by_cases hcc : c = s'.file.firstCluster
    · refine Or.inr ⟨h, ?_⟩
      simp only [Writing, Function.update_self]
      exact ⟨hfile.2, hcc.symm⟩
    · rw [Function.update_of_ne hcc] at hne
      rcases ht.reached c hne with ⟨o, ho, hf⟩ | ⟨h', hw', hf⟩
      · refine Or.inl ⟨o, (hsame.live o).mpr ho, ?_⟩
        rw [hc.firstOf_write hv hg hwrote ho]
        exact hf
      · have hh : h' ≠ h := by
          rintro rfl
          exact hcc (by rw [hr.keeps (by rwa [hf]), hf])
        refine Or.inr ⟨h', ?_⟩
        simp only [Writing, Function.update_of_ne hh]
        exact ⟨hw', hf⟩

/-- Closing the only writer of an entry. -/
theorem close (hg : Geometry g) (hc : Consistent g v fam) (hone : OneWriter v) (hw : Writing v h)
    (hused : ∀ c, InRange g c → fatValue g (putEntry g v.disk (v.files h)) c ≠ 0 → ∃ b, c ∈ fam b) :
    Tracked g ⟨putEntry g v.disk (v.files h),
      Function.update v.files h { v.files h with valid := false }⟩ fam := by
  have hok := hc.handle h hw.1
  have hsame := hc.sameTree_close hok hg
  have hvalid : ∀ h', (Function.update v.files h { v.files h with valid := false } h').valid = true →
      h' ≠ h := by
    rintro h' hv' rfl
    simp at hv'
  have hentry : ∀ h', (v.files h').valid = true → (v.files h').slot ≠ (v.files h).slot →
      entryAt g (putEntry g v.disk (v.files h)) (v.files h').slot = entryAt g v.disk (v.files h').slot :=
    fun h' hv' hne => hc.liveEntry_close hok hg (hc.handle h' hv').live hne
  refine ⟨?_, ?_, ?_, hused⟩
  · intro h' hw' hne
    have hh := hvalid h' hw'.1
    simp only [Writing, Function.update_of_ne hh] at hw' hne ⊢
    have hslot : (v.files h').slot ≠ (v.files h).slot := fun e => hh (hone h' h hw' hw e)
    rw [hentry h' hw'.1 hslot] at hne ⊢
    exact ht.writer h' hw' hne
  · intro h' hv' hcan hne
    have hh := hvalid h' hv'
    simp only [Function.update_of_ne hh] at hv' hcan hne ⊢
    have hold := ht.reader h' hv' hcan hne
    by_cases hslot : (v.files h').slot = (v.files h).slot
    · rw [hslot, firstCluster_putEntry, ← hold, hslot]
      apply ht.writer h hw
      rwa [← hslot, hold]
    · rw [hentry h' hv' hslot]
      exact hold
  · intro c hne
    have hfirst : ∀ o, Alive g v.disk fam o → firstOf g v.disk o = c →
        firstOf g (putEntry g v.disk (v.files h)) o = c := by
      intro o ho hf
      rw [hc.firstOf_close hok hg ho]
      by_cases hos : o = some (v.files h).slot
      · subst hos
        rw [if_pos rfl, ← hf]
        exact ht.writer h hw (by rw [firstOf] at hf; rwa [hf])
      · rwa [if_neg hos]
    rcases ht.reached c hne with ⟨o, ho, hf⟩ | ⟨h', hw', hf⟩
    · exact Or.inl ⟨o, (hsame.live o).mpr ho, hfirst o ho hf⟩
    · by_cases hh : h' = h
      · -- the chain was known to this handle only
        subst hh
        refine Or.inl ⟨some (v.files h').slot, (hsame.live _).mpr hok.live, ?_⟩
        rw [hc.firstOf_close hok hg hok.live, if_pos rfl]
        exact hf
      · refine Or.inr ⟨h', ?_⟩
        simp only [Writing, Function.update_of_ne hh]
        exact ⟨hw', hf⟩

end Tracked

/-- Every call keeps track of all chains, unless it discards a handle that is open for writing. -/
theorem Change.tracked (hg : Geometry g) (hc : Consistent g v fam) (hone : OneWriter v)
    (hd : ¬Discards v h r) (hch : Change g fam v h r out v' fam') (ht : Tracked g v fam) :
    Tracked g v' fam' := by
  have hused := hch.used hg hc ht.used
  cases hch with
  | failed => exact ht
  | listed => exact ht
  | opened hlive _ _ _ =>
    apply ht.setFile
    · exact fun hw => absurd ⟨hw, _, _, rfl⟩ hd
    · exact fun _ _ _ => rfl
    · exact fun _ _ _ => rfl
  | moved hv => exact ht.setPosition hv _
  | read hv _ _ => exact ht.setPosition hv _
  | wrote hv hw hwrote _ => exact ht.write hg hc hone ⟨hv, hw⟩ hwrote hused
  | closed hv hw => exact ht.close hg hc hone ⟨hv, hw⟩ hused
  | released hv hw =>
    apply ht.setFile
    · exact fun hwr => absurd hwr.2 (by simp [hw])
    · exact fun hv' => absurd hv' (by simp)
    · exact fun hv' => absurd hv' (by simp)

end Tracking

section Chains

/-- The clusters that the FAT links from a first cluster on, to a value that ends a chain. -/
structure ChainAt (g : FSMount) (disk : Memory) (first : UInt32) (l : List UInt32) : Prop where
  head : headOf first = l.head?
  range : ∀ c ∈ l, InRange g c
  nodup : l.Nodup
  next : ∀ i (hi : i + 1 < l.length), fatValue g disk l[i] = l[i + 1]
  last : ∀ c ∈ l.getLast?, fatValue g disk c ≥ 0x0FFFFFF8

lemma FatOk.chainAt {ι : Type} {chains : ι → List UInt32} (hf : FatOk g disk chains) (o : ι)
    {first : UInt32} (hh : headOf first = (chains o).head?) : ChainAt g disk first (chains o) where
  head := hh
  range := hf.range o
  nodup := (hf.family.chain o).nodup
  next i hi := fatValue_of_next (hf.range o _ (List.getElem_mem _)) ((hf.family.chain o).next_of_lt hi)
  last c hc := by
    have hne : chains o ≠ [] := by
      intro hnil
      simp [hnil] at hc
    have hlen : 0 < (chains o).length := List.length_pos_iff.mpr hne
    rw [Option.mem_def, List.getLast?_eq_getElem?, List.getElem?_eq_getElem (by omega),
      Option.some.injEq] at hc
    subst hc
    exact fatValue_of_last (hf.range o _ (List.getElem_mem _))
      (((hf.family.chain o).last_iff (by omega)).mpr (by omega))

lemma ChainAt.eq_nil {first : UInt32} {l : List UInt32} (h : ChainAt g disk first l)
    (hlt : first < 2) : l = [] := by
  have hhead := h.head
  rw [headOf, if_pos hlt] at hhead
  exact List.head?_eq_none_iff.mp hhead.symm

lemma ChainAt.eq_single {first : UInt32} {l : List UInt32} (h : ChainAt g disk first l)
    (hg : Geometry g) (hge : ¬first < 2) (hend : fatValue g disk first ≥ 0x0FFFFFF8) : l = [first] := by
  have hhead := h.head
  rw [headOf, if_neg hge] at hhead
  cases l with
  | nil => simp at hhead
  | cons c t =>
    obtain rfl : first = c := by simpa using hhead
    cases t with
    | nil => rfl
    | cons b t =>
      have hnext := h.next 0 (by simp)
      simp only [List.getElem_cons_zero, List.getElem_cons_succ] at hnext
      rw [hnext] at hend
      exact absurd hend ((h.range b (by simp)).not_end hg)

/-- `c` is the first cluster of the root, of a live entry or of an open handle: whose chain it is. -/
inductive Heads (g : FSMount) (v : Volume) (fam : Family) : UInt32 → Owner → Prop where
  | owner {o : Owner} (ho : Alive g v.disk fam o) : Heads g v fam (firstOf g v.disk o) o
  | handle {h : ℕ} (hv : (v.files h).valid = true) :
      Heads g v fam (v.files h).firstCluster (some (v.files h).slot)

/-- The FAT of a volume with open handles. -/
structure FatWellFormed (g : FSMount) (v : Volume) (fam : Family) : Prop where
  copies : CopiesEqual g v.disk
  chain : ∀ c o, Heads g v fam c o → ChainAt g v.disk c (fam c)
  apart : ∀ c c' o o' b, Heads g v fam c o → Heads g v fam c' o' → b ∈ fam c → b ∈ fam c' →
    c = c' ∧ o = o'
  entrySize : ∀ d, Alive g v.disk fam (some d) → (entryAt g v.disk d).fileSize.toNat ≤
    (fam (entryAt g v.disk d).firstCluster).length * clusterBytes g
  handleSize : ∀ h, (v.files h).valid = true → (v.files h).size.toNat ≤
    (fam (v.files h).firstCluster).length * clusterBytes g

/-- Every cluster with a non-zero entry of the FAT is on exactly one of the chains. -/
def AllOnChains (g : FSMount) (v : Volume) (fam : Family) : Prop :=
  ∀ b, InRange g b → fatValue g v.disk b ≠ 0 → ∃! c, (∃ o, Heads g v fam c o) ∧ b ∈ fam c

lemma Consistent.apart (hc : Consistent g v fam) {c : UInt32} {o o' : Owner} (ho : Heads g v fam c o)
    (ho' : Heads g v fam c o') (hne : fam c ≠ []) : o = o' := by
  generalize he : c = c' at ho'
  cases ho with
  | owner ho =>
    cases ho' with
    | owner ho' => exact hc.entriesApart _ _ ho ho' he hne
    | handle hv' => exact (hc.handle _ hv').own _ ho he (he ▸ hne)
  | handle hv =>
    cases ho' with
    | owner ho' => exact ((hc.handle _ hv).own _ ho' he.symm hne).symm
    | handle hv' => exact congrArg some (hc.handlesApart _ _ hv hv' he hne)

theorem Consistent.fatWellFormed (hc : Consistent g v fam) : FatWellFormed g v fam where
  copies := hc.fat.copies
  chain c o ho := by
    apply hc.fat.chainAt
    cases ho with
    | owner ho => exact hc.first_head ho
    | handle hv => exact (hc.handle _ hv).first
  apart c c' o o' b ho ho' hb hb' := by
    obtain rfl := hc.fat.family.apart c c' b hb hb'
    exact ⟨rfl, hc.apart ho ho' (List.ne_nil_of_mem hb)⟩
  entrySize d hd := (hc.entry d hd).size
  handleSize h hv := (hc.handle h hv).size

lemma Tracked.allOnChains (ht : Tracked g v fam) (hc : Consistent g v fam) : AllOnChains g v fam := by
  intro b hr hne
  obtain ⟨c, hb⟩ := ht.used b hr hne
  refine ⟨c, ⟨?_, hb⟩, ?_⟩
  · rcases ht.reached c (List.ne_nil_of_mem hb) with ⟨o, ho, rfl⟩ | ⟨h, hw, rfl⟩
    · exact ⟨o, Heads.owner ho⟩
    · exact ⟨_, Heads.handle hw.1⟩
  · rintro c' ⟨-, hb'⟩
    exact hc.fat.family.apart c' c b hb' hb

end Chains

section Runs

lemma WellFormed.tracked (hw : WellFormed g disk fam)
    (hused : ∀ c, InRange g c → fatValue g disk c ≠ 0 → ∃ b, c ∈ fam b)
    (hclosed : ∀ h, (files h).valid = false) : Tracked g ⟨disk, files⟩ fam where
  writer h hwr := absurd hwr.1 (by simp [hclosed h])
  reader h hv := absurd hv (by simp [hclosed h])
  reached c hne := Or.inl (hw.reached c hne)
  used := hused

/-- Over every sequence of calls on a well-formed volume, whatever the handles and the outcomes,
the FAT is well formed after every call, and chains only grow by clusters that were on no chain.
If moreover no entry has two writers, and no handle that is open for writing is given to `fs_open`,
then every cluster in use is on exactly one chain. -/
theorem fat_wellFormed (hw : WellFormed g disk fam₀)
    (hused : ∀ c, InRange g c → fatValue g disk c ≠ 0 → ∃ b, c ∈ fam₀ b)
    (hclosed : ∀ h, (files h).valid = false) (hfuel : g.clusterCount.toNat < fuel)
    (hrun : Calls g fuel P ⟨disk, files⟩ v) :
    ∃ fam, FatWellFormed g v fam ∧
      ((∀ v h r, P v h r → OneWriter (callOn g fuel v h r).2 ∧ ¬Discards v h r) →
        AllOnChains g v fam) ∧
      ∀ h r, ∃ fam', FatWellFormed g (callOn g fuel v h r).2 fam' ∧
        ∀ c, fam c <+: fam' c ∧ ∀ b ∈ fam' c, b ∉ fam c →
          fatValue g v.disk b = 0 ∧ ∀ c', b ∉ fam c' := by
  have hg := hw.geometry
  obtain ⟨fam, hc, ht⟩ := hrun.invariant hg hw.mounted hfuel
    (I := fun v fam => (∀ v h r, P v h r → OneWriter (callOn g fuel v h r).2 ∧ ¬Discards v h r) →
      OneWriter v ∧ Tracked g v fam)
    (fun hc hp hch hi hcareful => ⟨(hcareful _ _ _ hp).1,
      hch.tracked hg hc (hi hcareful).1 (hcareful _ _ _ hp).2 (hi hcareful).2⟩)
    (hw.consistent hclosed)
    (fun _ => ⟨fun h _ hwr => absurd hwr.1 (by simp [hclosed h]), hw.tracked hused hclosed⟩)
  refine ⟨fam, hc.fatWellFormed, fun hcareful => (ht hcareful).2.allOnChains hc, ?_⟩
  intro h r
  obtain ⟨fam', hch⟩ := hc.does hg hw.mounted hfuel h r
  have hc' := hch.consistent hg hc
  refine ⟨fam', hc'.fatWellFormed, ?_⟩
  intro c
  obtain ⟨hpre, hfresh⟩ := hch.grows hc c
  refine ⟨hpre, ?_⟩
  intro b hb hn
  have hfree := hfresh b hb hn
  refine ⟨(fatValue_eq_zero_iff (hc'.fat.range c b hb)).mpr hfree, ?_⟩
  intro c' hb'
  exact (hc.fat.family.chain c').2 b hb' hfree

/-- Only handle 0 is open. -/
def OneHandle (v : Volume) : Prop := ∀ h, h ≠ 0 → (v.files h).valid = false

lemma OneHandle.oneWriter (ho : OneHandle v) : OneWriter v := by
  have hzero : ∀ h, Writing v h → h = 0 := by
    intro h hw
    by_contra hn
    exact absurd hw.1 (by simp [ho h hn])
  intro h h' hw hw' _
  rw [hzero h hw, hzero h' hw']

variable (g fuel) in
lemma OneHandle.call (ho : OneHandle v) (r : Request) : OneHandle (callOn g fuel v 0 r).2 := by
  intro h hh
  rw [callOn_other hh]
  exact ho h hh

lemma formatted_oneHandle : OneHandle formattedVolume := fun _ _ => rfl

/-- Opening `/A` for writing on the formatted volume and writing a byte. -/
theorem fat_wellFormed_formatted : ∃ fam,
    FatWellFormed formattedMount (formattedAfter
      [(0, .openFile pathA fsOpenWrite), (0, .write (fun _ => 7) 1)]) fam ∧
    AllOnChains formattedMount (formattedAfter
      [(0, .openFile pathA fsOpenWrite), (0, .write (fun _ => 7) 1)]) fam := by
  have hone := formatted_oneHandle.call formattedMount 65526 (.openFile pathA fsOpenWrite)
  have hrun : Calls formattedMount 65526
      (fun v h r => OneWriter (callOn formattedMount 65526 v h r).2 ∧ ¬Discards v h r)
      formattedVolume (formattedAfter
        [(0, .openFile pathA fsOpenWrite), (0, .write (fun _ => 7) 1)]) := by
    apply Calls.call (Calls.call Calls.none _)
    · exact ⟨(hone.call _ _ _).oneWriter, fun hd => by simp [Discards] at hd⟩
    · exact ⟨hone.oneWriter, fun hd => absurd hd.1.1 (by simp [formatted_closed])⟩
  obtain ⟨fam, hwf, hall, -⟩ := fat_wellFormed formatted_wellFormed formatted_used formatted_closed
    formatted_fuel hrun
  exact ⟨fam, hwf, hall fun _ _ _ hp => hp⟩

/-- The first cluster of the file is only in the handle when the handle is given to `fs_open`
again: the cluster stays in use, but is on no chain. -/
theorem fat_cluster_lost : ¬∀ (P : Volume → ℕ → Request → Prop) (v : Volume),
    (∀ v h r, P v h r → OneWriter (callOn formattedMount 65526 v h r).2) →
    Calls formattedMount 65526 P formattedVolume v →
      ∃ fam, FatWellFormed formattedMount v fam ∧ AllOnChains formattedMount v fam := by
  intro hclaim
  obtain ⟨v, hv⟩ : ∃ v, v = formattedAfter [(0, .openFile pathA fsOpenWrite),
    (0, .write (fun _ => 7) 1), (0, .openFile pathA fsOpenRead)] := ⟨_, rfl⟩
  have hrun : Calls formattedMount 65526
      (fun v h r => OneWriter (callOn formattedMount 65526 v h r).2) formattedVolume v := by
    have hone := formatted_oneHandle
    rw [hv]
    apply Calls.call (Calls.call (Calls.call Calls.none _) _)
    · exact (((hone.call _ _ _).call _ _ _).call _ _ _).oneWriter
    · exact (hone.call _ _ _).oneWriter
    · exact ((hone.call _ _ _).call _ _ _).oneWriter
  obtain ⟨fam, hwf, hall⟩ := hclaim _ v (fun _ _ _ hp => hp) hrun
  have hhandle : (v.files 0).firstCluster = 0 := by
    rw [hv]
    decide +kernel
  have hother : ∀ h, h ≠ 0 → (v.files h).valid = false := by
    rw [hv]
    exact ((formatted_oneHandle.call _ _ _).call _ _ _).call _ _ _
  have hlost : fatValue formattedMount v.disk 3 = 0x0FFFFFFF := by
    rw [hv]
    decide +kernel
  have hroot : fatValue formattedMount v.disk 2 = 0x0FFFFFFF := by
    rw [hv]
    decide +kernel
  have hslots : liveSlots formattedMount v.disk [2] = [formattedSlot] := by
    rw [hv]
    decide +kernel
  have hentry : entryAt formattedMount v.disk formattedSlot =
      ⟨0x41 :: List.replicate 10 0x20, 0x20, 0, 0, 0⟩ := by
    rw [hv]
    decide +kernel
  have hnone : firstOf formattedMount v.disk none = 2 := by
    rw [firstOf, formatted_numbers.1]
  have htwo : fam 2 = [2] := by
    have hchain := hwf.chain 2 none (hnone ▸ Heads.owner Live.root)
    apply hchain.eq_single formatted_geometry (by decide)
    rw [hroot]
    decide
  have hzero : ∀ o, Heads formattedMount v fam 0 o → fam 0 = [] :=
    fun o ho => (hwf.chain 0 o ho).eq_nil (by decide)
  obtain ⟨c, ⟨⟨o, ho⟩, hc⟩, -⟩ := hall 3 (formatted_inRange.mpr (by decide)) (by rw [hlost]; decide)
  have hcases : c = 2 ∨ c = 0 := by
    cases ho with
    | @owner o ho =>
      rw [formatted_alive_of htwo hslots (by rw [hentry]; decide)] at ho
      rcases ho with rfl | rfl
      · exact Or.inl hnone
      · right
        rw [firstOf, hentry]
        rfl
    | @handle h hvalid =>
      have hh : h = 0 := by
        by_contra hn
        rw [hother h hn] at hvalid
        exact absurd hvalid (by simp)
      rw [hh]
      exact Or.inr hhandle
  rcases hcases with rfl | rfl
  · rw [htwo] at hc
    simp at hc
  · rw [hzero o ho] at hc
    simp at hc

end Runs

end SBoy28.Fat32
