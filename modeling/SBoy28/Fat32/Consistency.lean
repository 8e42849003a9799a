import SBoy28.Fat32.Tree
import SBoy28.Fat32.Files

/-!
# Consistent volumes

What holds of a volume and its open handles between any two calls. Handles may share a file, and
several may be open for writing on it; but the chain of a handle is never that of another file.
-/

namespace SBoy28.Fat32
open Lib

/-- The chains of a volume, each under its first cluster. -/
abbrev Family := UInt32 → List UInt32

variable {g : FSMount} {v : Volume} {fam : Family} {h : ℕ} {disk disk' : Memory} {file : FSFile}

/-- The first cluster of the root directory or of an entry. -/
def firstOf (g : FSMount) (disk : Memory) : Owner → UInt32
  | none => g.bpb.rootCluster
  | some d => (entryAt g disk d).firstCluster

def chainOf (g : FSMount) (disk : Memory) (fam : Family) (o : Owner) : List UInt32 :=
  fam (firstOf g disk o)

/-- The directory, or the file or directory of the entry, can be reached from the root. -/
abbrev Alive (g : FSMount) (disk : Memory) (fam : Family) (o : Owner) : Prop :=
  Live g disk (chainOf g disk fam) o

/-- A directory entry: a first cluster below 2 stands for the empty chain, which no directory has. -/
structure EntryOk (fam : Family) (bytes : ℕ) (e : FATDirEntry) : Prop where
  first : headOf e.firstCluster = (fam e.firstCluster).head?
  size : e.fileSize.toNat ≤ (fam e.firstCluster).length * bytes
  dir : e.isDirectory = true → fam e.firstCluster ≠ []

/-- An open handle. The chain it is on is that of no entry but its own. -/
structure HandleOk (g : FSMount) (disk : Memory) (fam : Family) (file : FSFile) : Prop where
  live : Alive g disk fam (some file.slot)
  isFile : (entryAt g disk file.slot).isDirectory = false
  first : headOf file.firstCluster = (fam file.firstCluster).head?
  size : file.size.toNat ≤ (fam file.firstCluster).length * clusterBytes g
  own : ∀ o, Alive g disk fam o → firstOf g disk o = file.firstCluster →
    fam file.firstCluster ≠ [] → o = some file.slot
  writable : file.canWrite = true → (entryAt g disk file.slot).attr &&& fsAttrReadOnly = 0

structure Consistent (g : FSMount) (v : Volume) (fam : Family) : Prop where
  fat : FatOk g v.disk fam
  head : ∀ c, fam c ≠ [] → (fam c).head? = some c
  root : fam g.bpb.rootCluster ≠ []
  entry : ∀ d, Alive g v.disk fam (some d) → EntryOk fam (clusterBytes g) (entryAt g v.disk d)
  entriesApart : ∀ o o', Alive g v.disk fam o → Alive g v.disk fam o' →
    firstOf g v.disk o = firstOf g v.disk o' → fam (firstOf g v.disk o) ≠ [] → o = o'
  handle : ∀ h, (v.files h).valid = true → HandleOk g v.disk fam (v.files h)
  handlesApart : ∀ h h', (v.files h).valid = true → (v.files h').valid = true →
    (v.files h).firstCluster = (v.files h').firstCluster → fam (v.files h).firstCluster ≠ [] →
      (v.files h).slot = (v.files h').slot

/-- The two handles are not on one chain, or they have the same entry. -/
def Apart (fam : Family) (file file' : FSFile) : Prop :=
  file.valid = true → file'.valid = true → file.firstCluster = file'.firstCluster →
    fam file.firstCluster ≠ [] → file.slot = file'.slot

lemma Apart.symm {file' : FSFile} (h : Apart fam file file') : Apart fam file' file :=
  fun hv hv' he hne => (h hv' hv he.symm (he ▸ hne)).symm

lemma apart_update {files : ℕ → FSFile} (hold : ∀ i j, i ≠ h → j ≠ h → Apart fam (files i) (files j))
    (hnew : ∀ j, j ≠ h → Apart fam file (files j)) (i j : ℕ) :
    Apart fam (Function.update files h file i) (Function.update files h file j) := by
  by_cases hi : i = h
  · by_cases hj : j = h
    · rw [hi, hj]
      exact fun _ _ _ _ => rfl
    · rw [hi, Function.update_self, Function.update_of_ne hj]
      exact hnew j hj
  · by_cases hj : j = h
    · rw [hj, Function.update_self, Function.update_of_ne hi]
      exact (hnew i hi).symm
    · rw [Function.update_of_ne hi, Function.update_of_ne hj]
      exact hold i j hi hj

namespace Consistent

variable (hc : Consistent g v fam)

include hc

lemma mem_head {c : UInt32} (hne : fam c ≠ []) : c ∈ fam c := List.mem_of_mem_head? (hc.head c hne)

lemma dir_ne_nil {o : Owner} (ho : Alive g v.disk fam o) (hdir : isDir g v.disk o = true) :
    fam (firstOf g v.disk o) ≠ [] := by
  cases o with
  | none => exact hc.root
  | some d => exact (hc.entry d ho).dir hdir

lemma first_head {o : Owner} (ho : Alive g v.disk fam o) :
    headOf (firstOf g v.disk o) = (fam (firstOf g v.disk o)).head? := by
  cases o with
  | none =>
    have hmem := hc.mem_head hc.root
    rw [firstOf, hc.head _ hc.root, headOf_inRange (hc.fat.range _ _ hmem)]
  | some d => exact (hc.entry d ho).first

lemma nil_of_lt {c : UInt32} (hlt : c < 2) : fam c = [] := by
  by_contra hne
  exact (InRange.ge c).mp (hc.fat.range c c (hc.mem_head hne)).1 hlt

theorem tree : TreeOk g v.disk (chainOf g v.disk fam) where
  chain _ _ _ := hc.fat.family.chain _
  range _ _ _ := hc.fat.range _
  root := hc.head _ hc.root
  dir _ hd hdir := hc.head _ (hc.dir_ne_nil hd hdir)

/-- A call that changes nothing but the handle itself. -/
theorem setFile (h : ℕ) (hfile : file.valid = true → HandleOk g v.disk fam file)
    (hapart : file.valid = true → ∀ h', h' ≠ h → (v.files h').valid = true →
      (v.files h').firstCluster = file.firstCluster → fam file.firstCluster ≠ [] →
        (v.files h').slot = file.slot) :
    Consistent g ⟨v.disk, Function.update v.files h file⟩ fam where
  fat := hc.fat
  head := hc.head
  root := hc.root
  entry := hc.entry
  entriesApart := hc.entriesApart
  handle h' hv := by
    by_cases hh : h' = h
    · subst hh
      simp only [Function.update_self] at hv ⊢
      exact hfile hv
    · simp only [Function.update_of_ne hh] at hv ⊢
      exact hc.handle h' hv
  handlesApart := apart_update (fun i j _ _ => hc.handlesApart i j)
    (fun j hj hv hv' he hne => (hapart hv j hj hv' he.symm hne).symm)

end Consistent

section Write

variable {s s' : State} {l' : List UInt32} {data : Memory} {k : ℕ} {d : Slot}

lemma Wrote.outside {ι : Type} [DecidableEq ι] {chains : ι → List UInt32} {i o : ι} (hg : Geometry g)
    (hfat : FatOk g s.disk chains) (hw : Wrote g chains i s s' l' data k) (ho : o ≠ i) {c : UInt32}
    (hc : c ∈ chains o) {a : ℕ} (ha : InFat g c a ∨ InData g c a) : s'.disk a = s.disk a := by
  have hr := hfat.range o c hc
  have hne : c ∉ l' := by
    intro hcl
    apply ho
    apply hw.ok.family.apart o i c
    · rwa [Function.update_of_ne ho]
    · rwa [Function.update_self]
  apply hw.frame
  intro c' hc'
  have hr' := hw.range c' hc'
  rcases ha with ha | ha
  · refine ⟨fun hin => ?_, fun hin => not_inFat_of_inData hg hr hin ha⟩
    exact hne (InFat.unique hg hr' hr hin ha ▸ hc')
  · refine ⟨not_inFat_of_inData hg hr' ha, fun hin => ?_⟩
    exact hne (InData.unique hr' hr hin ha ▸ hc')

lemma Wrote.slot {ι : Type} [DecidableEq ι] {chains : ι → List UInt32} {i o : ι} (hg : Geometry g)
    (hfat : FatOk g s.disk chains) (hw : Wrote g chains i s s' l' data k) (ho : o ≠ i)
    (hd : d ∈ slots g (chains o)) : ∀ j < 32, s'.disk (slotAddr g d + j) = s.disk (slotAddr g d + j) := by
  obtain ⟨-, -, -, c, hc, hin⟩ := mem_slots hg (hfat.range o) hd
  intro j hj
  exact hw.outside hg hfat ho hc (Or.inr (hin j hj))

/-- The chain of a file after a write, with the handle that wrote it. -/
structure Rewritten (g : FSMount) (fam : Family) (file file' : FSFile) (disk disk' : Memory)
    (l' : List UInt32) : Prop where
  fat : FatOk g disk' (Function.update fam file'.firstCluster l')
  head : headOf file'.firstCluster = l'.head?
  pre : fam file'.firstCluster <+: l'
  keeps : fam file.firstCluster ≠ [] → file'.firstCluster = file.firstCluster
  new : fam file'.firstCluster ≠ [] → file'.firstCluster = file.firstCluster
  fresh : ∀ c ∈ l', c ∉ fam file'.firstCluster → table g disk c = .free

lemma Consistent.rewritten (hc : Consistent g v fam) (hv : (v.files h).valid = true)
    (hw : Wrote g fam (v.files h).firstCluster ⟨v.disk, v.files h⟩ s' l' data k) :
    Rewritten g fam (v.files h) s'.file v.disk s'.disk l' := by
  have hok := hc.handle h hv
  have hhead := hw.head
  by_cases hne : fam (v.files h).firstCluster = []
  · have hpre := hw.pre
    cases hl : l' with
    | nil =>
      -- nothing was allocated
      subst hl
      have hnil := hc.nil_of_lt (headOf_eq_none hhead)
      have hold := hw.ok
      rw [← hne, Function.update_eq_self] at hold
      refine ⟨?_, hhead, by rw [hnil], fun hn => absurd hne hn, fun hn => absurd hnil hn, by simp⟩
      rw [← hnil, Function.update_eq_self]
      exact hold
    | cons c t =>
      -- the file has got its first cluster
      subst hl
      obtain ⟨-, hfirst⟩ := headOf_eq_some hhead
      have hfree := hw.fresh c (by simp) (by simp [hne])
      have hnil : fam s'.file.firstCluster = [] := by
        rw [hfirst]
        by_contra hn
        exact (hc.fat.family.chain c).2 c (hc.mem_head hn) hfree
      refine ⟨hw.ok.rename hne hnil, hhead, by simp [hnil], fun hn => absurd hne hn,
        fun hn => absurd hnil hn, ?_⟩
      intro c' hc' _
      exact hw.fresh c' hc' (by simp [hne])
  · have hfirst : s'.file.firstCluster = (v.files h).firstCluster := by
      obtain ⟨t, ht⟩ := hw.pre
      rw [← ht, List.head?_append_of_ne_nil _ hne, hc.head _ hne] at hhead
      exact (headOf_eq_some hhead).2
    have hfat := hw.ok
    have hpre := hw.pre
    have hfresh := hw.fresh
    rw [← hfirst] at hfat hpre hfresh
    exact ⟨hfat, hw.head, hpre, fun _ => hfirst, fun _ => hfirst, hfresh⟩

namespace Rewritten

variable {file' : FSFile} {l' : List UInt32} (hr : Rewritten g fam file file' disk disk' l')

include hr

lemma mono (c : UInt32) : fam c <+: Function.update fam file'.firstCluster l' c := by
  by_cases hcc : c = file'.firstCluster
  · subst hcc
    rw [Function.update_self]
    exact hr.pre
  · rw [Function.update_of_ne hcc]

/-- A name that is not new for a chain, or the name of an empty chain, keeps its chain. -/
lemma off {c : UInt32} (hcc : l' ≠ [] → c ≠ file'.firstCluster) :
    Function.update fam file'.firstCluster l' c = fam c := by
  by_cases hl : l' = []
  · have hnil : fam file'.firstCluster = [] := by
      have hpre := hr.pre
      rwa [hl, List.prefix_nil] at hpre
    rw [hl, ← hnil, Function.update_eq_self]
  · rw [Function.update_of_ne (hcc hl)]

lemma first {c : UInt32} (hcc : headOf c = (fam c).head?) :
    headOf c = (Function.update fam file'.firstCluster l' c).head? := by
  by_cases he : c = file'.firstCluster
  · subst he
    rw [Function.update_self]
    exact hr.head
  · rw [Function.update_of_ne he]
    exact hcc

/-- A name that had a chain before names the file only if it did before. -/
lemma old {c : UInt32} (hcc : headOf c = (fam c).head?) (he : c = file'.firstCluster)
    (hl : l' ≠ []) : fam c ≠ [] ∧ c = file.firstCluster := by
  subst he
  have hne : fam file'.firstCluster ≠ [] := by
    intro hnil
    rw [hr.head, hnil] at hcc
    cases l' with
    | nil => exact hl rfl
    | cons c t => simp at hcc
  exact ⟨hne, hr.new hne⟩

lemma length_le (c : UInt32) (b : ℕ) :
    (fam c).length * b ≤ (Function.update fam file'.firstCluster l' c).length * b :=
  Nat.mul_le_mul_right b (hr.mono c).length_le

lemma nonempty {c : UInt32} (hne : fam c ≠ []) :
    Function.update fam file'.firstCluster l' c ≠ [] := by
  intro hnil
  have hpre := hr.mono c
  rw [hnil, List.prefix_nil] at hpre
  exact hne hpre

end Rewritten

namespace Consistent

variable (hc : Consistent g v fam) (hv : (v.files h).valid = true)

include hc hv

/-- Only the entry of its own file names the chain of a handle that has written. -/
lemma owner_unique (hr : Rewritten g fam (v.files h) s'.file v.disk s'.disk l') {o : Owner}
    (ho : Alive g v.disk fam o) (he : firstOf g v.disk o = s'.file.firstCluster) (hl : l' ≠ []) :
    o = some (v.files h).slot := by
  obtain ⟨hne, hf⟩ := hr.old (hc.first_head ho) he hl
  exact (hc.handle h hv).own o ho hf (hf ▸ hne)

lemma handle_unique (hr : Rewritten g fam (v.files h) s'.file v.disk s'.disk l') {h' : ℕ}
    (hv' : (v.files h').valid = true) (he : (v.files h').firstCluster = s'.file.firstCluster)
    (hl : l' ≠ []) : (v.files h').slot = (v.files h).slot := by
  obtain ⟨hne, hf⟩ := hr.old (hc.handle h' hv').first he hl
  exact hc.handlesApart h' h hv' hv hf hne

lemma slot_write (hg : Geometry g)
    (hw : Wrote g fam (v.files h).firstCluster ⟨v.disk, v.files h⟩ s' l' data k)
    {o : Owner} (ho : Alive g v.disk fam o) (hdir : isDir g v.disk o = true)
    (hd : d ∈ slots g (chainOf g v.disk fam o)) :
    ∀ j < 32, s'.disk (slotAddr g d + j) = v.disk (slotAddr g d + j) := by
  apply hw.slot hg hc.fat _ hd
  intro he
  have hok := hc.handle h hv
  have hown := hok.own o ho he (he ▸ hc.dir_ne_nil ho hdir)
  rw [hown, isDir, hok.isFile] at hdir
  exact absurd hdir (by simp)

lemma entryAt_write (hg : Geometry g)
    (hw : Wrote g fam (v.files h).firstCluster ⟨v.disk, v.files h⟩ s' l' data k)
    {o : Owner} (ho : Alive g v.disk fam o) (hdir : isDir g v.disk o = true)
    (hd : d ∈ slots g (chainOf g v.disk fam o)) : entryAt g s'.disk d = entryAt g v.disk d :=
  entryAt_congr (hc.slot_write hv hg hw ho hdir hd)

lemma firstOf_write (hg : Geometry g)
    (hw : Wrote g fam (v.files h).firstCluster ⟨v.disk, v.files h⟩ s' l' data k)
    {o : Owner} (ho : Alive g v.disk fam o) : firstOf g s'.disk o = firstOf g v.disk o := by
  cases o with
  | none => rfl
  | some d =>
    obtain ⟨o', ho', hdir, hd⟩ := ho.slot
    rw [firstOf, firstOf, hc.entryAt_write hv hg hw ho' hdir hd]

/-- Writing to a file leaves the directory tree alone. -/
theorem sameTree_write (hg : Geometry g)
    (hw : Wrote g fam (v.files h).firstCluster ⟨v.disk, v.files h⟩ s' l' data k) :
    SameTree g v.disk s'.disk (chainOf g v.disk fam)
      (chainOf g s'.disk (Function.update fam s'.file.firstCluster l')) := by
  have hr := hc.rewritten hv hw
  refine ⟨?_, ?_⟩
  · intro o ho hdir
    rw [chainOf, hc.firstOf_write hv hg hw ho, hr.off]
    · rfl
    · intro hl he
      have hown := hc.owner_unique hv hr ho he hl
      rw [hown, isDir, (hc.handle h hv).isFile] at hdir
      exact absurd hdir (by simp)
  · intro o ho hdir d hd
    rw [hc.entryAt_write hv hg hw ho hdir hd]
    exact ⟨rfl, rfl⟩

lemma liveEntry_write (hg : Geometry g)
    (hw : Wrote g fam (v.files h).firstCluster ⟨v.disk, v.files h⟩ s' l' data k)
    (hd : Alive g v.disk fam (some d)) : entryAt g s'.disk d = entryAt g v.disk d := by
  obtain ⟨o, ho, hdir, hslot⟩ := hd.slot
  exact hc.entryAt_write hv hg hw ho hdir hslot

lemma handleOk_write (hg : Geometry g)
    (hw : Wrote g fam (v.files h).firstCluster ⟨v.disk, v.files h⟩ s' l' data k) :
    HandleOk g s'.disk (Function.update fam s'.file.firstCluster l') s'.file := by
  have hok := hc.handle h hv
  have hr := hc.rewritten hv hw
  have hsame := hc.sameTree_write hv hg hw
  have hentry := hc.liveEntry_write hv hg hw hok.live
  have hslot : s'.file.slot = (v.files h).slot := by
    rw [hw.file]
    rfl
  have hmode : s'.file.canWrite = (v.files h).canWrite := by
    rw [hw.file]
    rfl
  refine ⟨?_, ?_, ?_, ?_, ?_, ?_⟩
  · rw [hslot]
    exact (hsame.live _).mpr hok.live
  · rw [hslot, hentry]
    exact hok.isFile
  · rw [Function.update_self]
    exact hr.head
  · have hold := hok.size
    have hnew := hw.size
    have hroom := hw.room
    have hlen := Nat.mul_le_mul_right (clusterBytes g) hw.pre.length_le
    simp only at hnew hroom
    rw [Function.update_self]
    split at hnew <;> omega
  · intro o ho he hne
    rw [Function.update_self] at hne
    have ho' := (hsame.live _).mp ho
    rw [hc.firstOf_write hv hg hw ho'] at he
    rw [hslot]
    exact hc.owner_unique hv hr ho' he hne
  · rw [hslot, hentry, hmode]
    exact hok.writable

lemma handleOk_write_other (hg : Geometry g)
    (hw : Wrote g fam (v.files h).firstCluster ⟨v.disk, v.files h⟩ s' l' data k) {h' : ℕ}
    (hv' : (v.files h').valid = true) :
    HandleOk g s'.disk (Function.update fam s'.file.firstCluster l') (v.files h') := by
  have hok := hc.handle h' hv'
  have hr := hc.rewritten hv hw
  have hsame := hc.sameTree_write hv hg hw
  have hentry := hc.liveEntry_write hv hg hw hok.live
  refine ⟨(hsame.live _).mpr hok.live, ?_, hr.first hok.first,
    Nat.le_trans hok.size (hr.length_le _ _), ?_, ?_⟩
  · rw [hentry]
    exact hok.isFile
  · intro o ho he hne
    have ho' := (hsame.live _).mp ho
    rw [hc.firstOf_write hv hg hw ho'] at he
    by_cases hf : (v.files h').firstCluster = s'.file.firstCluster
    · rw [hf, Function.update_self] at hne
      rw [hc.owner_unique hv hr ho' (he.trans hf) hne, hc.handle_unique hv hr hv' hf hne]
    · rw [Function.update_of_ne hf] at hne
      exact hok.own o ho' he hne
  · rw [hentry]
    exact hok.writable

/-- A write keeps a consistent volume consistent. -/
theorem write (hg : Geometry g)
    (hw : Wrote g fam (v.files h).firstCluster ⟨v.disk, v.files h⟩ s' l' data k) :
    Consistent g ⟨s'.disk, Function.update v.files h s'.file⟩
      (Function.update fam s'.file.firstCluster l') := by
  have hr := hc.rewritten hv hw
  have hsame := hc.sameTree_write hv hg hw
  have hfirst : ∀ o, Alive g v.disk fam o → firstOf g s'.disk o = firstOf g v.disk o :=
    fun o ho => hc.firstOf_write hv hg hw ho
  have hslot : s'.file.slot = (v.files h).slot := by
    rw [hw.file]
    rfl
  refine ⟨hr.fat, ?_, hr.nonempty hc.root, ?_, ?_, ?_, ?_⟩
  · intro c hne
    by_cases hcc : c = s'.file.firstCluster
    · subst hcc
      rw [Function.update_self] at hne ⊢
      obtain ⟨b, t, hl⟩ := List.exists_cons_of_ne_nil hne
      have hhead := hr.head
      rw [hl] at hhead ⊢
      rw [(headOf_eq_some hhead).2]
      rfl
    · rw [Function.update_of_ne hcc] at hne ⊢
      exact hc.head c hne
  · intro d hd
    have hlive := (hsame.live _).mp hd
    have he := hc.entry d hlive
    rw [hc.liveEntry_write hv hg hw hlive]
    exact ⟨hr.first he.first, Nat.le_trans he.size (hr.length_le _ _),
      fun hdir => hr.nonempty (he.dir hdir)⟩
  · intro o o' ho ho' he hne
    have hlive := (hsame.live _).mp ho
    have hlive' := (hsame.live _).mp ho'
    simp only [hfirst o hlive, hfirst o' hlive'] at he hne
    by_cases hf : firstOf g v.disk o = s'.file.firstCluster
    · rw [hf, Function.update_self] at hne
      rw [hc.owner_unique hv hr hlive hf hne, hc.owner_unique hv hr hlive' (he ▸ hf) hne]
    · rw [Function.update_of_ne hf] at hne
      exact hc.entriesApart o o' hlive hlive' he hne
  · intro h' hv'
    by_cases hh : h' = h
    · subst hh
      simp only [Function.update_self]
      exact hc.handleOk_write hv hg hw
    · simp only [Function.update_of_ne hh] at hv' ⊢
      exact hc.handleOk_write_other hv hg hw hv'
  · have hunique : ∀ i, (v.files i).valid = true → (v.files i).firstCluster = s'.file.firstCluster →
        l' ≠ [] → (v.files i).slot = s'.file.slot := by
      intro i hi he hl
      rw [hslot]
      exact hc.handle_unique hv hr hi he hl
    apply apart_update
    · intro i j _ _ hi hj he hne
      by_cases hf : (v.files i).firstCluster = s'.file.firstCluster
      · rw [hf, Function.update_self] at hne
        rw [hunique i hi hf hne, hunique j hj (he ▸ hf) hne]
      · rw [Function.update_of_ne hf] at hne
        exact hc.handlesApart i j hi hj he hne
    · intro j _ _ hj he hne
      rw [Function.update_self] at hne
      exact (hunique j hj he.symm hne).symm

end Consistent

end Write

section Close

lemma slot_putEntry_ne (hg : Geometry g) {l l' : List UInt32} (hr : ∀ c ∈ l, InRange g c)
    (hr' : ∀ c ∈ l', InRange g c) (hf : file.slot ∈ slots g l) {d : Slot} (hd : d ∈ slots g l')
    (hne : d ≠ file.slot) :
    ∀ i < 32, putEntry g disk file (slotAddr g d + i) = disk (slotAddr g d + i) := by
  obtain ⟨hdvd, hle, -, -⟩ := mem_slots hg hr hf
  obtain ⟨hdvd', hle', -, -⟩ := mem_slots hg hr' hd
  have hapart := slotAddr_apart hdvd' hle' hdvd hle hne
  intro i hi
  apply putEntry_off
  intro j hj he
  simp only [EntryField] at hj
  omega

lemma putEntry_low (hg : Geometry g) {l : List UInt32} (hr : ∀ c ∈ l, InRange g c)
    (hf : file.slot ∈ slots g l) {a : ℕ} (ha : a < dataBase g) : putEntry g disk file a = disk a := by
  obtain ⟨-, -, -, c, -, hin⟩ := mem_slots hg hr hf
  apply putEntry_off
  intro j hj he
  have hge := (hin 0 (by omega)).ge
  omega

namespace Consistent

variable (hc : Consistent g v fam) (hok : HandleOk g v.disk fam file)

include hc hok

lemma slot_close (hg : Geometry g) {o : Owner} {d : Slot} (hd : d ∈ slots g (chainOf g v.disk fam o))
    (hne : d ≠ file.slot) :
    ∀ i < 32, putEntry g v.disk file (slotAddr g d + i) = v.disk (slotAddr g d + i) := by
  obtain ⟨o', -, -, hf⟩ := hok.live.slot
  exact slot_putEntry_ne hg (hc.fat.range _) (hc.fat.range _) hf hd hne

lemma entryAt_close (hg : Geometry g) {o : Owner} {d : Slot} (hd : d ∈ slots g (chainOf g v.disk fam o))
    (hne : d ≠ file.slot) : entryAt g (putEntry g v.disk file) d = entryAt g v.disk d :=
  entryAt_congr (hc.slot_close hok hg hd hne)

lemma liveEntry_close (hg : Geometry g) {d : Slot} (hd : Alive g v.disk fam (some d))
    (hne : d ≠ file.slot) : entryAt g (putEntry g v.disk file) d = entryAt g v.disk d := by
  obtain ⟨o, -, -, hslot⟩ := hd.slot
  exact hc.entryAt_close hok hg hslot hne

lemma firstOf_close (hg : Geometry g) {o : Owner} (ho : Alive g v.disk fam o) :
    firstOf g (putEntry g v.disk file) o =
      if o = some file.slot then file.firstCluster else firstOf g v.disk o := by
  by_cases hos : o = some file.slot
  · subst hos
    rw [if_pos rfl]
    exact firstCluster_putEntry file
  · rw [if_neg hos]
    cases o with
    | none => rfl
    | some d =>
      rw [firstOf, firstOf, hc.liveEntry_close hok hg ho (fun e => hos (congrArg some e))]

/-- Closing a file leaves the directory tree alone. -/
theorem sameTree_close (hg : Geometry g) :
    SameTree g v.disk (putEntry g v.disk file) (chainOf g v.disk fam)
      (chainOf g (putEntry g v.disk file) fam) := by
  refine ⟨?_, ?_⟩
  · intro o ho hdir
    rw [chainOf, hc.firstOf_close hok hg ho, if_neg]
    · rfl
    · rintro rfl
      rw [isDir, hok.isFile] at hdir
      exact absurd hdir (by simp)
  · intro o _ _ d hd
    by_cases hds : d = file.slot
    · subst hds
      rw [entryAt_putEntry]
      exact ⟨rfl, rfl⟩
    · rw [hc.entryAt_close hok hg hd hds]
      exact ⟨rfl, rfl⟩

/-- No two entries share a chain once the entry of the file is stored. -/
lemma entriesApart_close (hg : Geometry g) {o o' : Owner} (ho : Alive g v.disk fam o) (ho' : Alive g v.disk fam o')
    (he : firstOf g (putEntry g v.disk file) o = firstOf g (putEntry g v.disk file) o')
    (hne : fam (firstOf g (putEntry g v.disk file) o) ≠ []) : o = o' := by
  rw [hc.firstOf_close hok hg ho] at he hne
  rw [hc.firstOf_close hok hg ho'] at he
  by_cases hs : o = some file.slot
  · by_cases hs' : o' = some file.slot
    · rw [hs, hs']
    · rw [if_pos hs, if_neg hs'] at he
      rw [if_pos hs] at hne
      rw [hs, hok.own o' ho' he.symm hne]
  · rw [if_neg hs] at he hne
    by_cases hs' : o' = some file.slot
    · rw [if_pos hs'] at he
      rw [hs', hok.own o ho he (he ▸ hne)]
    · rw [if_neg hs'] at he
      exact hc.entriesApart o o' ho ho' he hne

/-- A handle on another chain, or of the same entry, stays a good one. -/
lemma handleOk_close (hg : Geometry g) {file' : FSFile} (hok' : HandleOk g v.disk fam file')
    (hapart : file.firstCluster = file'.firstCluster → fam file.firstCluster ≠ [] → file.slot = file'.slot) :
    HandleOk g (putEntry g v.disk file) fam file' := by
  have hsame := hc.sameTree_close hok hg
  have hfile := hsame.isDir hok'.live
  refine ⟨(hsame.live _).mpr hok'.live, ?_, hok'.first, hok'.size, ?_, ?_⟩
  · rw [isDir, isDir] at hfile
    rw [hfile]
    exact hok'.isFile
  · intro o ho he hne
    have hlive := (hsame.live _).mp ho
    rw [hc.firstOf_close hok hg hlive] at he
    by_cases hs : o = some file.slot
    · rw [if_pos hs] at he
      rw [hs, hapart he (he ▸ hne)]
    · rw [if_neg hs] at he
      exact hok'.own o hlive he hne
  · rw [(hsame.slot hok'.live).2]
    exact hok'.writable

end Consistent

/-- Closing a handle that is open for writing keeps a consistent volume consistent. -/
theorem Consistent.close (hc : Consistent g v fam) (hg : Geometry g) (hv : (v.files h).valid = true) :
    Consistent g ⟨putEntry g v.disk (v.files h),
      Function.update v.files h { v.files h with valid := false }⟩ fam := by
  have hok := hc.handle h hv
  have hsame := hc.sameTree_close hok hg
  obtain ⟨o, -, -, hf⟩ := hok.live.slot
  have hvalid : ∀ h', (Function.update v.files h { v.files h with valid := false } h').valid = true →
      h' ≠ h ∧ (v.files h').valid = true := by
    intro h' hv'
    by_cases hh : h' = h
    · subst hh
      simp at hv'
    · rw [Function.update_of_ne hh] at hv'
      exact ⟨hh, hv'⟩
  refine ⟨?_, hc.head, hc.root, ?_, ?_, ?_, ?_⟩
  · exact hc.fat.congr hg (fun a ha => putEntry_low hg (hc.fat.range _) hf ha)
  · intro d hd
    have hlive := (hsame.live _).mp hd
    by_cases hds : d = (v.files h).slot
    · subst hds
      refine ⟨?_, ?_, ?_⟩
      · rw [firstCluster_putEntry]
        exact hok.first
      · rw [firstCluster_putEntry, entryAt_putEntry]
        exact hok.size
      · intro hdir
        have hfile := hsame.isDir hlive
        rw [isDir, isDir, hdir, hok.isFile] at hfile
        exact absurd hfile (by simp)
    · rw [hc.liveEntry_close hok hg hlive hds]
      exact hc.entry d hlive
  · intro o' o'' ho' ho'' he hne
    exact hc.entriesApart_close hok hg ((hsame.live _).mp ho') ((hsame.live _).mp ho'') he hne
  · intro h' hv'
    obtain ⟨hh, hv'⟩ := hvalid h' hv'
    simp only [Function.update_of_ne hh]
    exact hc.handleOk_close hok hg (hc.handle h' hv') (hc.handlesApart h h' hv hv')
  · exact apart_update (fun i j _ _ => hc.handlesApart i j) (fun j _ hv' => absurd hv' (by simp))

end Close

end SBoy28.Fat32
