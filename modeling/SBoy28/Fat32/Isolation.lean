import SBoy28.Fat32.Mount

/-!
# Isolation of files

Over every sequence of calls, a file only changes through handles that are open for writing on
its own entry.
-/

namespace SBoy28.Fat32
open Lib

variable {g : FSMount} {fuel : ℕ} {v v' v₀ : Volume} {fam fam' fam₀ : Family} {h : ℕ} {r : Request}
  {out : Outcome FSErr Reply} {disk : Memory} {files : ℕ → FSFile} {o : Owner}
  {P : Volume → ℕ → Request → Prop}

/-- Sequences of calls, successful or failing, each on some handle and with the property `P`. -/
inductive Calls (g : FSMount) (fuel : ℕ) (P : Volume → ℕ → Request → Prop) : Volume → Volume → Prop where
  | none {v : Volume} : Calls g fuel P v v
  | call {v₀ v : Volume} {h : ℕ} {r : Request} (hrun : Calls g fuel P v₀ v) (hp : P v h r) :
      Calls g fuel P v₀ (callOn g fuel v h r).2

/-- What every change keeps holds after every sequence of calls. -/
theorem Calls.invariant (hg : Geometry g) (hm : g.mounted = true) (hfuel : g.clusterCount.toNat < fuel)
    {I : Volume → Family → Prop} (hstep : ∀ {v fam fam' h r}, Consistent g v fam → P v h r →
      Change g fam v h r (callOn g fuel v h r).1 (callOn g fuel v h r).2 fam' → I v fam →
        I (callOn g fuel v h r).2 fam')
    (hrun : Calls g fuel P v₀ v) (hc : Consistent g v₀ fam₀) (hi : I v₀ fam₀) :
    ∃ fam, Consistent g v fam ∧ I v fam := by
  induction hrun with
  | none => exact ⟨fam₀, hc, hi⟩
  | @call w h r _ hp ih =>
    obtain ⟨fam, hcw, hiw⟩ := ih
    obtain ⟨fam', hch⟩ := hcw.does hg hm hfuel h r
    exact ⟨fam', hch.consistent hg hcw, hstep hcw hp hch hiw⟩

section Untouched

/-- Byte `a` belongs to the size or first cluster in the directory entry of a file. -/
def FileField (g : FSMount) (disk : Memory) (fam : Family) (a : ℕ) : Prop :=
  ∃ d i, Alive g disk fam (some d) ∧ (entryAt g disk d).isDirectory = false ∧ EntryField i ∧
    a = slotAddr g d + i

/-- The chain, the contents and the directory entry of a file or directory are as before; in a
directory the sizes and first clusters of files may have changed. -/
structure Untouched (g : FSMount) (v v' : Volume) (fam fam' : Family) (o : Owner) : Prop where
  first : firstOf g v'.disk o = firstOf g v.disk o
  chain : fam' (firstOf g v.disk o) = fam (firstOf g v.disk o)
  fat : ∀ c ∈ fam (firstOf g v.disk o), ∀ a, InFat g c a → v'.disk a = v.disk a
  data : ∀ c ∈ fam (firstOf g v.disk o), ∀ a, InData g c a →
    v'.disk a = v.disk a ∨ isDir g v.disk o = true ∧ FileField g v.disk fam a
  entry : ∀ d, o = some d → ∀ i < 32, v'.disk (slotAddr g d + i) = v.disk (slotAddr g d + i)

lemma Untouched.refl (hd : v'.disk = v.disk) (hf : fam' = fam) : Untouched g v v' fam fam' o where
  first := by rw [hd]
  chain := by rw [hf]
  fat _ _ _ _ := by rw [hd]
  data _ _ _ _ := by
    left
    rw [hd]
  entry _ _ _ _ := by rw [hd]

lemma FileField.congr {disk' : Memory}
    (hs : SameTree g disk disk' (chainOf g disk fam) (chainOf g disk' fam')) {a : ℕ}
    (ha : FileField g disk' fam' a) : FileField g disk fam a := by
  obtain ⟨d, i, hd, hdir, hi, he⟩ := ha
  have hlive := (hs.live _).mp hd
  refine ⟨d, i, hlive, ?_, hi, he⟩
  have hsame := hs.isDir hlive
  rw [isDir, isDir, hdir] at hsame
  exact hsame.symm

lemma Untouched.trans {w : Volume} {famw : Family} (hu : Untouched g v v' fam fam' o)
    (hs : SameTree g v.disk v'.disk (chainOf g v.disk fam) (chainOf g v'.disk fam'))
    (ho : Alive g v.disk fam o) (hu' : Untouched g v' w fam' famw o) : Untouched g v w fam famw o where
  first := hu'.first.trans hu.first
  chain := by
    have hchain := hu'.chain
    rw [hu.first, hu.chain] at hchain
    exact hchain
  fat c hc a ha := by
    have hfat := hu'.fat c (by rwa [hu.first, hu.chain]) a ha
    exact hfat.trans (hu.fat c hc a ha)
  data c hc a ha := by
    have hdata := hu.data c hc a ha
    have hdata' := hu'.data c (by rwa [hu.first, hu.chain]) a ha
    rw [hs.isDir ho] at hdata'
    rcases hdata' with he' | ⟨hdir, hf⟩
    · rcases hdata with he | hf
      · exact Or.inl (he'.trans he)
      · exact Or.inr hf
    · exact Or.inr ⟨hdir, hf.congr hs⟩
  entry d hd i hi := (hu'.entry d hd i hi).trans (hu.entry d hd i hi)

lemma Consistent.untouched_write {s' : State} {l' : List UInt32} {data : Memory} {k : ℕ}
    (hg : Geometry g) (hc : Consistent g v fam) (hv : (v.files h).valid = true)
    (hw : Wrote g fam (v.files h).firstCluster ⟨v.disk, v.files h⟩ s' l' data k)
    (ho : Alive g v.disk fam o) (hne : o ≠ some (v.files h).slot) (files : ℕ → FSFile) :
    Untouched g v ⟨s'.disk, files⟩ fam (Function.update fam s'.file.firstCluster l') o := by
  have hr := hc.rewritten hv hw
  have hbytes : ∀ c ∈ fam (firstOf g v.disk o), ∀ a, InFat g c a ∨ InData g c a → s'.disk a = v.disk a := by
    intro c hcc a ha
    apply hw.outside hg hc.fat _ hcc ha
    intro he
    exact hne ((hc.handle h hv).own o ho he (he ▸ List.ne_nil_of_mem hcc))
  refine ⟨hc.firstOf_write hv hg hw ho, ?_, fun c hcc a ha => hbytes c hcc a (Or.inl ha),
    fun c hcc a ha => Or.inl (hbytes c hcc a (Or.inr ha)), ?_⟩
  · apply hr.off
    intro hl he
    exact hne (hc.owner_unique hv hr ho he hl)
  · rintro d rfl i hi
    obtain ⟨o', ho', hdir, hslot⟩ := ho.slot
    exact hc.slot_write hv hg hw ho' hdir hslot i hi

lemma Consistent.untouched_close (hg : Geometry g) (hc : Consistent g v fam)
    (hv : (v.files h).valid = true) (ho : Alive g v.disk fam o) (hne : o ≠ some (v.files h).slot)
    (files : ℕ → FSFile) : Untouched g v ⟨putEntry g v.disk (v.files h), files⟩ fam fam o := by
  have hok := hc.handle h hv
  obtain ⟨o', ho', hdir', hf⟩ := hok.live.slot
  obtain ⟨-, -, -, b, hb, hin⟩ := mem_slots hg (hc.fat.range _) hf
  have hfield : ∀ i, EntryField i → i < 32 := by
    intro i hi
    simp only [EntryField] at hi
    omega
  refine ⟨?_, rfl, ?_, ?_, ?_⟩
  · rw [hc.firstOf_close hok hg ho, if_neg hne]
  · intro c hcc a ha
    have hlt := ha.lt hg (hc.fat.range _ c hcc)
    exact putEntry_low hg (hc.fat.range _) hf hlt
  · intro c hcc a ha
    by_cases hx : ∃ i, EntryField i ∧ a = slotAddr g (v.files h).slot + i
    · -- the byte lies in the directory that holds the entry
      obtain ⟨i, hi, rfl⟩ := hx
      have hbc := InData.unique (hc.fat.range _ c hcc) (hc.fat.range _ b hb) ha (hin i (hfield i hi))
      have hfirst := hc.fat.family.apart _ _ c hcc (hbc ▸ hb)
      have howner := hc.entriesApart o o' ho ho' hfirst (List.ne_nil_of_mem hcc)
      exact Or.inr ⟨howner ▸ hdir', (v.files h).slot, i, hok.live, hok.isFile, hi, rfl⟩
    · simp only [not_exists, not_and] at hx
      exact Or.inl (putEntry_off hx)
  · rintro d rfl i hi
    obtain ⟨o'', -, -, hslot⟩ := ho.slot
    exact hc.slot_close hok hg hslot (fun e => hne (congrArg some e)) i hi

/-- A call only touches the file of a handle that is open for writing. -/
theorem Change.untouched (hg : Geometry g) (hc : Consistent g v fam) (hch : Change g fam v h r out v' fam')
    (ho : Alive g v.disk fam o) (hne : Writing v h → o ≠ some (v.files h).slot) :
    Untouched g v v' fam fam' o := by
  cases hch with
  | wrote hv hw hwrote _ => exact hc.untouched_write hg hv hwrote ho (hne ⟨hv, hw⟩) _
  | closed hv hw => exact hc.untouched_close hg hv ho (hne ⟨hv, hw⟩) _
  | _ => exact Untouched.refl rfl rfl

end Untouched

section Runs

/-- The bytes of live entries that no call changes: all but the sizes and first clusters of
files. -/
def EntriesKept (g : FSMount) (disk disk' : Memory) (fam : Family) : Prop :=
  ∀ d, Alive g disk fam (some d) → ∀ i < 32, ¬EntryField i →
    disk' (slotAddr g d + i) = disk (slotAddr g d + i)

/-- What no call with the property `P` can touch: directories, read-only files, and files that
none of these calls reaches through a handle open for writing. -/
def Spared (g : FSMount) (disk : Memory) (P : Volume → ℕ → Request → Prop) (o : Owner) : Prop :=
  isDir g disk o = true ∨ (∃ d, o = some d ∧ (entryAt g disk d).attr &&& fsAttrReadOnly ≠ 0) ∨
    ∀ v h r, P v h r → Writing v h → o ≠ some (v.files h).slot

lemma Change.entriesKept (hg : Geometry g) (hc : Consistent g v fam)
    (hch : Change g fam v h r out v' fam') : EntriesKept g v.disk v'.disk fam := by
  intro d hd i hi hfield
  obtain ⟨o, ho, hdir, hslot⟩ := hd.slot
  cases hch with
  | wrote hv hw hwrote _ => exact hc.slot_write hv hg hwrote ho hdir hslot i hi
  | closed hv hw =>
    by_cases hds : d = (v.files h).slot
    · subst hds
      apply putEntry_off
      intro j hj he
      exact hfield (by rwa [Nat.add_left_cancel he])
    · exact hc.slot_close (hc.handle h hv) hg hslot hds i hi
  | _ => rfl

/-- No handle that is open for writing is on a directory or on a read-only file. -/
lemma Spared.apart (hs : SameTree g disk v.disk (chainOf g disk fam₀) (chainOf g v.disk fam))
    (hc : Consistent g v fam) (ho : Alive g disk fam₀ o) (hspared : Spared g disk P o)
    (hp : P v h r) (hw : Writing v h) : o ≠ some (v.files h).slot := by
  rintro rfl
  have hok := hc.handle h hw.1
  rcases hspared with hdir | ⟨d, hd, hro⟩ | hfree
  · rw [← hs.isDir ho, isDir, hok.isFile] at hdir
    exact absurd hdir (by simp)
  · obtain rfl := Option.some.inj hd
    rw [← (hs.slot ho).2] at hro
    exact hro (hok.writable hw.2)
  · exact hfree v h r hp hw rfl

/-- What a sequence of calls leaves as it was: the reserved sectors, the directory tree with its
names and attributes, and all files and directories that are spared. -/
structure Isolated (g : FSMount) (P : Volume → ℕ → Request → Prop) (v₀ : Volume) (fam₀ : Family)
    (v : Volume) (fam : Family) : Prop where
  reserved : ∀ a < g.bpb.reservedSectorCount.toNat * g.bpb.bytesPerSector.toNat, v.disk a = v₀.disk a
  tree : SameTree g v₀.disk v.disk (chainOf g v₀.disk fam₀) (chainOf g v.disk fam)
  entries : EntriesKept g v₀.disk v.disk fam₀
  spared : ∀ o, Alive g v₀.disk fam₀ o → Spared g v₀.disk P o → Untouched g v₀ v fam₀ fam o

lemma Isolated.refl (g : FSMount) (P : Volume → ℕ → Request → Prop) (v : Volume) (fam : Family) :
    Isolated g P v fam v fam :=
  ⟨fun _ _ => rfl, SameTree.refl _ _ _, fun _ _ _ _ _ => rfl, fun _ _ _ => Untouched.refl rfl rfl⟩

lemma Isolated.step (hg : Geometry g) (hstart : g.fatStartSector.toNat * g.bps.toNat =
      g.bpb.reservedSectorCount.toNat * g.bpb.bytesPerSector.toNat)
    (hi : Isolated g P v₀ fam₀ v fam) (hc : Consistent g v fam) (hp : P v h r)
    (hch : Change g fam v h r out v' fam') : Isolated g P v₀ fam₀ v' fam' where
  reserved a ha := (hch.reserved hg hc (hstart ▸ ha)).trans (hi.reserved a ha)
  tree := hi.tree.trans (hch.sameTree hg hc)
  entries d hd i hlt hfield := by
    have hstep := hch.entriesKept hg hc d ((hi.tree.live _).mpr hd) i hlt hfield
    exact hstep.trans (hi.entries d hd i hlt hfield)
  spared o ho hspared := by
    have hstep := hch.untouched hg hc ((hi.tree.live _).mpr ho)
      (fun hw => hspared.apart hi.tree hc ho hp hw)
    exact (hi.spared o ho hspared).trans hi.tree ho hstep

/-- Over every sequence of calls on a well-formed volume, whatever the handles and the outcomes:
the reserved sectors, the directory tree with its names and attributes, the directories, the
read-only files, and the files that no handle is writing to stay as they are. Each single call
changes no more than the clusters of its own handle and free ones, the FAT entries of these, and
two fields of its own directory entry. -/
theorem files_isolated (hw : WellFormed g disk fam₀) (hclosed : ∀ h, (files h).valid = false)
    (hfuel : g.clusterCount.toNat < fuel) (hrun : Calls g fuel P ⟨disk, files⟩ v) :
    ∃ fam, Consistent g v fam ∧ Isolated g P ⟨disk, files⟩ fam₀ v fam ∧
      ∀ h r, ∃ fam', Consistent g (callOn g fuel v h r).2 fam' ∧
        (∀ a, ¬Allowed g fam v h r a → (callOn g fuel v h r).2.disk a = v.disk a) ∧
        ∀ o, Alive g v.disk fam o → (Writing v h → o ≠ some (v.files h).slot) →
          Untouched g v (callOn g fuel v h r).2 fam fam' o := by
  have hg := hw.geometry
  obtain ⟨fam, hc, hi⟩ := hrun.invariant hg hw.mounted hfuel
    (fun hc hp hch hi => hi.step hg hw.fatStart hc hp hch) (hw.consistent hclosed)
    (Isolated.refl g P ⟨disk, files⟩ fam₀)
  refine ⟨fam, hc, hi, ?_⟩
  intro h r
  obtain ⟨fam', hch⟩ := hc.does hg hw.mounted hfuel h r
  exact ⟨fam', hch.consistent hg hc, fun a ha => hch.frame ha,
    fun o ho hne => hch.untouched hg hc ho hne⟩

/-- Opening `/A` for writing on the formatted volume, writing a byte, and closing it. -/
theorem files_isolated_formatted : ∃ v fam,
    v = formattedAfter [(0, .openFile pathA fsOpenWrite), (0, .write (fun _ => 7) 1), (0, .close)] ∧
    Consistent formattedMount v fam ∧
    Isolated formattedMount (fun _ h _ => h = 0) formattedVolume formattedChains v fam ∧
    (entryAt formattedMount v.disk formattedSlot).fileSize = 1 := by
  have hrun : Calls formattedMount 65526 (fun _ h _ => h = 0) formattedVolume
      (formattedAfter [(0, .openFile pathA fsOpenWrite), (0, .write (fun _ => 7) 1), (0, .close)]) :=
    .call (.call (.call .none rfl) rfl) rfl
  obtain ⟨fam, hc, hi, -⟩ := files_isolated formatted_wellFormed formatted_closed formatted_fuel hrun
  exact ⟨_, fam, rfl, hc, hi, by decide +kernel⟩

end Runs

end SBoy28.Fat32
