import SBoy28.Fat32.Steps

/-!
# Well-formed volumes

The volumes that the properties of files are about: mounted ones whose FATs and clusters lie
inside the device and whose chains fit to the entries of the directory tree.
-/

namespace SBoy28.Fat32
open Lib

variable {g g₀ : FSMount} {device : FSBlockDevice} {contents disk : Memory}
  {fam : Family}

/-- The numbers of a volume: the FATs have room for every cluster, and they and the clusters lie
inside the device, computed over the integers. -/
structure Layout (g : FSMount) : Prop where
  dvd : 32 ∣ g.bpb.bytesPerSector.toNat
  bytesPerSector : g.bpb.bytesPerSector.toNat ≤ 512
  sectorsPerCluster : 1 ≤ g.bpb.sectorsPerCluster.toNat
  numFats : 1 ≤ g.bpb.numFats.toNat
  room : (g.clusterCount.toNat + 2) * 4 ≤ g.sectorsPerFat.toNat * g.bpb.bytesPerSector.toNat
  fats : (g.bpb.reservedSectorCount.toNat + g.bpb.numFats.toNat * g.sectorsPerFat.toNat) *
    g.bpb.bytesPerSector.toNat ≤ g.dev.size.toNat
  clusters : (g.dataStartSector.toNat + g.clusterCount.toNat * g.bpb.sectorsPerCluster.toNat) *
    g.bpb.bytesPerSector.toNat ≤ g.dev.size.toNat

/-- A mounted volume with the chains of its directory tree: those of the root and of every live
entry, disjoint and long enough. A file of size 0 may have no cluster. -/
structure WellFormed (g : FSMount) (disk : Memory) (fam : Family) : Prop where
  mount : ∃ g₀ device contents, fsMountFat32 g₀ device contents = (.ok (), g)
  layout : Layout g
  fat : FatOk g disk fam
  head : ∀ c, fam c ≠ [] → (fam c).head? = some c
  root : fam g.bpb.rootCluster ≠ []
  entry : ∀ d, Alive g disk fam (some d) → EntryOk fam (clusterBytes g) (entryAt g disk d)
  apart : ∀ o o', Alive g disk fam o → Alive g disk fam o' →
    firstOf g disk o = firstOf g disk o' → fam (firstOf g disk o) ≠ [] → o = o'
  reached : ∀ c, fam c ≠ [] → ∃ o, Alive g disk fam o ∧ firstOf g disk o = c

section Mount

lemma fsMountFat32_ok (h : fsMountFat32 g₀ device contents = (.ok (), g)) :
    g = { FSMount.computed device (FAT32BPB.load contents) g₀.stack with mounted := true } ∧
      g.bpb.bytesPerSector ≠ 0 := by
  simp only [fsMountFat32] at h
  split at h
  · simp at h
  · split at h
    · simp at h
    · rename_i hzero
      split at h
      · simp at h
      · simp only [Prod.mk.injEq, true_and] at h
        subst h
        exact ⟨rfl, fun he => hzero (Or.inl he)⟩

lemma bps_toNat (g : FSMount) : g.bps.toNat = g.bpb.bytesPerSector.toNat := by
  rw [FSMount.bps, UInt16.toNat_toUInt32]

namespace Layout

variable (hl : Layout g)

include hl

lemma fats_lt (hpos : 0 < g.bpb.bytesPerSector.toNat) :
    g.bpb.reservedSectorCount.toNat + g.bpb.numFats.toNat * g.sectorsPerFat.toNat < 2 ^ 27 := by
  have hsize := g.dev.size.toNat_lt
  have hle := Nat.mul_le_mul_left (g.bpb.reservedSectorCount.toNat +
    g.bpb.numFats.toNat * g.sectorsPerFat.toNat) (Nat.le_of_dvd hpos hl.dvd)
  have hin := hl.fats
  omega

lemma rootSectors_lt (hpos : 0 < g.bpb.bytesPerSector.toNat) :
    ((g.bpb.rootEntryCount.toUInt32 * 32 + (g.bps - 1)) / g.bps).toNat < 2 ^ 22 := by
  have hbps := bps_toNat g
  have hcount := g.bpb.rootEntryCount.toNat_lt
  have hle := hl.bytesPerSector
  have hcount' : (g.bpb.rootEntryCount.toUInt32 * 32).toNat = g.bpb.rootEntryCount.toNat * 32 := by
    rw [toNat_mul_of_lt, UInt16.toNat_toUInt32] <;> simp only [UInt16.toNat_toUInt32, UInt32.reduceToNat]
    omega
  have hlast : (g.bps - 1).toNat = g.bps.toNat - 1 := by
    rw [toNat_sub_of_le] <;> simp only [UInt32.reduceToNat]
    omega
  rw [UInt32.toNat_div]
  apply Nat.lt_of_le_of_lt (Nat.div_le_self _ _)
  rw [toNat_add_of_lt, hcount', hlast] <;> omega

lemma fatEnd (hpos : 0 < g.bpb.bytesPerSector.toNat)
    (hdata : g.dataStartSector = g.bpb.reservedSectorCount.toUInt32 + g.bpb.numFats.toUInt32 * g.sectorsPerFat +
      (g.bpb.rootEntryCount.toUInt32 * 32 + (g.bps - 1)) / g.bps) :
    g.bpb.reservedSectorCount.toNat + g.bpb.numFats.toNat * g.sectorsPerFat.toNat ≤
      g.dataStartSector.toNat := by
  have hfats := hl.fats_lt hpos
  have hroot := hl.rootSectors_lt hpos
  have hnum : (g.bpb.numFats.toUInt32).toNat = g.bpb.numFats.toNat := UInt8.toNat_toUInt32 _
  have hres : (g.bpb.reservedSectorCount.toUInt32).toNat = g.bpb.reservedSectorCount.toNat :=
    UInt16.toNat_toUInt32 _
  have hprod : (g.bpb.numFats.toUInt32 * g.sectorsPerFat).toNat =
      g.bpb.numFats.toNat * g.sectorsPerFat.toNat := by
    rw [toNat_mul_of_lt, hnum]
    rw [hnum]
    omega
  have hsum : (g.bpb.reservedSectorCount.toUInt32 + g.bpb.numFats.toUInt32 * g.sectorsPerFat).toNat =
      g.bpb.reservedSectorCount.toNat + g.bpb.numFats.toNat * g.sectorsPerFat.toNat := by
    rw [toNat_add_of_lt, hprod, hres]
    rw [hprod, hres]
    omega
  rw [hdata, toNat_add_of_lt, hsum]
  · omega
  · rw [hsum]
    omega

/-- The numbers that `fs_mount_fat32` computes are those of a volume with this layout. -/
theorem geometry (hm : ∃ g₀ device contents, fsMountFat32 g₀ device contents = (.ok (), g)) :
    Geometry g ∧ g.mounted = true := by
  obtain ⟨g₀, device, contents, hmount⟩ := hm
  obtain ⟨heq, hpos⟩ := fsMountFat32_ok hmount
  have hbps := bps_toNat g
  have hspc : g.spc.toNat = g.bpb.sectorsPerCluster.toNat := by
    rw [FSMount.spc, UInt8.toNat_toUInt32]
  have hbpos : 0 < g.bpb.bytesPerSector.toNat := by
    rw [Nat.pos_iff_ne_zero]
    exact fun he => hpos (UInt16.toNat_inj.mp he)
  have hstart : g.fatStartSector.toNat = g.bpb.reservedSectorCount.toNat := by
    rw [heq]
    exact UInt16.toNat_toUInt32 _
  have hdata : g.dataStartSector = g.bpb.reservedSectorCount.toUInt32 +
      g.bpb.numFats.toUInt32 * g.sectorsPerFat +
        (g.bpb.rootEntryCount.toUInt32 * 32 + (g.bps - 1)) / g.bps := by
    rw [heq]
    rfl
  have hcluster : g.bytesPerCluster.toNat = g.bps.toNat * g.spc.toNat := by
    have hspc_lt := g.bpb.sectorsPerCluster.toNat_lt
    have hle := hl.bytesPerSector
    have hmul : g.bps.toNat * g.spc.toNat ≤ 512 * 255 := Nat.mul_le_mul (by omega) (by omega)
    have hproduct : g.bytesPerCluster = g.bps * g.spc := by
      rw [heq]
      rfl
    rw [hproduct, toNat_mul_of_lt]
    omega
  have hmounted : g.mounted = true := by rw [heq]
  have hend := hl.fatEnd hbpos hdata
  refine ⟨⟨?_, ?_, ?_, ?_, hcluster, hl.numFats, ?_, ?_, ?_⟩, hmounted⟩
  · rw [hbps]
    exact hl.dvd
  · rw [hbps]
    exact hl.bytesPerSector
  · rw [hbps]
    exact hbpos
  · rw [hspc]
    exact hl.sectorsPerCluster
  · rw [hbps]
    exact hl.room
  · rw [hstart]
    exact hend
  · rw [hbps, hspc]
    exact hl.clusters

end Layout

end Mount

namespace WellFormed

variable (hw : WellFormed g disk fam)

include hw

lemma geometry : Geometry g := (hw.layout.geometry hw.mount).1

lemma mounted : g.mounted = true := (hw.layout.geometry hw.mount).2

lemma fatStart : g.fatStartSector.toNat * g.bps.toNat =
    g.bpb.reservedSectorCount.toNat * g.bpb.bytesPerSector.toNat := by
  obtain ⟨g₀, device, contents, hmount⟩ := hw.mount
  have hstart : g.fatStartSector = g.bpb.reservedSectorCount.toUInt32 := by
    rw [(fsMountFat32_ok hmount).1]
    rfl
  rw [hstart, FSMount.bps, UInt16.toNat_toUInt32, UInt16.toNat_toUInt32]

/-- A well-formed volume without open handles is consistent. -/
theorem consistent {files : ℕ → FSFile} (hclosed : ∀ h, (files h).valid = false) :
    Consistent g ⟨disk, files⟩ fam where
  fat := hw.fat
  head := hw.head
  root := hw.root
  entry := hw.entry
  entriesApart := hw.apart
  handle h hv := absurd hv (by simp [hclosed h])
  handlesApart h _ hv := absurd hv (by simp [hclosed h])

end WellFormed

section Formatted

/-- A freshly formatted volume of 65525 clusters, with two FATs and an empty file `A` in the root
directory. -/
def formattedDisk : Memory := fun a =>
  if a < 512 then
    if a = 12 then 2 else if a = 13 then 1 else if a = 14 then 1 else if a = 16 then 2
    else if 32 ≤ a ∧ a < 36 then byteOf 66550 (a - 32)
    else if 36 ≤ a ∧ a < 40 then byteOf 512 (a - 36)
    else if a = 44 then 2 else 0
  else if a < 524800 then
    if 8 ≤ (a - 512) % 262144 ∧ (a - 512) % 262144 < 12 then byteOf 0x0FFFFFFF ((a - 512) % 262144 - 8)
    else 0
  else if a = 524800 then 0x41 else if a < 524811 then 0x20 else if a = 524811 then 0x20 else 0

def formattedMount : FSMount :=
  (fsMountFat32 (FSMount.zero (fun _ => 0)) ⟨1, 34073600⟩ formattedDisk).2

/-- The formatted volume before any file is opened. -/
def formattedVolume : Volume := ⟨formattedDisk, fun _ => ⟨0, 0, 0, 0, 0, 0, false⟩⟩

/-- The formatted volume after a sequence of calls. -/
def formattedAfter (calls : List (ℕ × Request)) : Volume :=
  calls.foldl (fun v c => (callOn formattedMount 65526 v c.1 c.2).2) formattedVolume

/-- The path `/A`. -/
def pathA : List UInt8 := [slash, 0x41]

/-- The root directory has the only cluster in use. -/
def formattedChains : Family := fun c => if c = 2 then [2] else []

/-- The entry of the file `A`. -/
def formattedSlot : Slot := ⟨1025, 0⟩

lemma formatted_mounted :
    fsMountFat32 (FSMount.zero (fun _ => 0)) ⟨1, 34073600⟩ formattedDisk = (.ok (), formattedMount) := by
  have hok : (fsMountFat32 (FSMount.zero (fun _ => 0)) ⟨1, 34073600⟩ formattedDisk).1 = .ok () := rfl
  rw [formattedMount, ← hok]

lemma formatted_numbers :
    formattedMount.bpb = ⟨512, 1, 1, 2, 0, 0, 0, 66550, 512, 2⟩ ∧
      formattedMount.fatStartSector = 1 ∧ formattedMount.dataStartSector = 1025 ∧
      formattedMount.sectorsPerFat = 512 ∧ formattedMount.clusterCount = 65525 ∧
      formattedMount.dev = ⟨1, 34073600⟩ := by
  decide +kernel

lemma formatted_liveSlots : liveSlots formattedMount formattedDisk [2] = [formattedSlot] := by
  decide +kernel

lemma formatted_entry : entryAt formattedMount formattedDisk formattedSlot =
    ⟨0x41 :: List.replicate 10 0x20, 0x20, 0, 0, 0⟩ := by
  decide +kernel

lemma formatted_fuel : formattedMount.clusterCount.toNat < 65526 := by
  rw [formatted_numbers.2.2.2.2.1]
  decide

lemma formatted_closed (h : ℕ) : (formattedVolume.files h).valid = false := rfl

lemma formatted_layout : Layout formattedMount := by
  obtain ⟨hb, -, hdata, hspf, hcount, hdev⟩ := formatted_numbers
  refine ⟨?_, ?_, ?_, ?_, ?_, ?_, ?_⟩ <;> simp only [hb, hdata, hspf, hcount, hdev] <;> decide

lemma formatted_geometry : Geometry formattedMount :=
  (formatted_layout.geometry ⟨_, _, _, formatted_mounted⟩).1

lemma formatted_fatBase (k : ℕ) : fatBase formattedMount k = (1 + k * 512) * 512 := by
  obtain ⟨hb, hstart, -, hspf, -, -⟩ := formatted_numbers
  simp only [fatBase, FSMount.bps, hb, hstart, hspf]
  rfl

lemma formatted_inRange {c : UInt32} : InRange formattedMount c ↔ 2 ≤ c.toNat ∧ c.toNat < 65527 := by
  obtain ⟨-, -, -, -, hcount, -⟩ := formatted_numbers
  rw [InRange, hcount]
  rfl

lemma formatted_fatValue {c : UInt32} (hc : InRange formattedMount c) :
    fatValue formattedMount formattedDisk c = if c = 2 then 0x0FFFFFFF else 0 := by
  by_cases h2 : c = 2
  · subst h2
    decide +kernel
  · have hne : c.toNat ≠ 2 := fun he => h2 (UInt32.toNat_inj.mp he)
    rw [formatted_inRange] at hc
    have hzero : load32 formattedDisk (fatAddr formattedMount 0 c) = load32 (fun _ => 0) 0 := by
      apply load32_congr
      intro i hi
      rw [fatAddr, formatted_fatBase, formattedDisk, if_neg (by omega), if_pos (by omega), if_neg (by omega)]
    rw [if_neg h2, fatValue, hzero]
    rfl

lemma formatted_fatByte {k i : ℕ} (hk : k < 2) (hi : i < 262144) :
    formattedDisk ((1 + k * 512) * 512 + i) =
      if 8 ≤ i ∧ i < 12 then byteOf 0x0FFFFFFF (i - 8) else 0 := by
  have hmod : ((1 + k * 512) * 512 + i - 512) % 262144 = i := by omega
  rw [formattedDisk, if_neg (by omega), if_pos (by omega), hmod]

lemma formatted_fatOk : FatOk formattedMount formattedDisk formattedChains where
  copies := by
    intro k hk i hi
    obtain ⟨hb, -, -, hspf, -, -⟩ := formatted_numbers
    simp only [FSMount.bps, hb, hspf] at hk hi
    have hk' : k < 2 := hk
    have hi' : i < 262144 := hi
    rw [formatted_fatBase, formatted_fatBase, formatted_fatByte hk' hi', formatted_fatByte (by omega) hi']
  family := by
    have hlast : table formattedMount formattedDisk 2 = .last := by
      have hr : InRange formattedMount 2 := formatted_inRange.mpr (by decide)
      rw [table_inRange hr, formatted_fatValue hr]
      rfl
    constructor
    · intro c
      by_cases hc : c = 2
      · simp [formattedChains, hc, Lib.IsChain, hlast, Link.succ]
      · rw [formattedChains, if_neg hc]
        exact isChain_nil
    · intro o o' c ho ho'
      have hroot : ∀ b, c ∈ formattedChains b → b = 2 := by
        intro b hb
        by_contra hn
        simp [formattedChains, hn] at hb
      rw [hroot o ho, hroot o' ho']
  range o c hc := by
    by_cases ho : o = 2
    · simp only [formattedChains, ho, if_true, List.mem_singleton] at hc
      rw [hc, formatted_inRange]
      decide
    · simp [formattedChains, ho] at hc

lemma formatted_firstOf_none : firstOf formattedMount formattedDisk none = 2 := by
  rw [firstOf, formatted_numbers.1]

/-- The tree of the formatted volume, also after calls that leave the root directory alone. -/
lemma formatted_alive_of {disk : Memory} {fam : Family} (hchain : fam 2 = [2])
    (hslots : liveSlots formattedMount disk [2] = [formattedSlot])
    (hentry : (entryAt formattedMount disk formattedSlot).isDirectory = false ∧
      (entryAt formattedMount disk formattedSlot).isDot = false) (o : Owner) :
    Alive formattedMount disk fam o ↔ o = none ∨ o = some formattedSlot := by
  have hroot : chainOf formattedMount disk fam none = [2] := by
    rw [chainOf, firstOf, formatted_numbers.1, hchain]
  constructor
  · intro ho
    induction ho with
    | root => exact Or.inl rfl
    | @entry o d _ hdir hd _ ih =>
      rcases ih with rfl | rfl
      · rw [hroot, hslots, List.mem_singleton] at hd
        exact Or.inr (by rw [hd])
      · rw [isDir, hentry.1] at hdir
        exact absurd hdir (by decide)
  · rintro (rfl | rfl)
    · exact Live.root
    · apply Live.entry Live.root rfl _ hentry.2
      rw [hroot, hslots]
      simp

lemma formatted_alive (o : Owner) : Alive formattedMount formattedDisk formattedChains o ↔
    o = none ∨ o = some formattedSlot := by
  apply formatted_alive_of rfl formatted_liveSlots
  rw [formatted_entry]
  decide

lemma formatted_path : walkPath formattedMount formattedDisk
    (chainOf formattedMount formattedDisk formattedChains) (pathA.length + 1) pathA none =
      some (some formattedSlot) := by
  decide +kernel

lemma formatted_used (c : UInt32) (hc : InRange formattedMount c)
    (hne : fatValue formattedMount formattedDisk c ≠ 0) : ∃ b, c ∈ formattedChains b := by
  rw [formatted_fatValue hc] at hne
  have h2 : c = 2 := by
    by_contra hn
    simp [hn] at hne
  exact ⟨2, by simp [formattedChains, h2]⟩

/-- The formatted volume is well formed. -/
theorem formatted_wellFormed : WellFormed formattedMount formattedDisk formattedChains where
  mount := ⟨_, _, _, formatted_mounted⟩
  layout := formatted_layout
  fat := formatted_fatOk
  head c hc := by
    by_cases h2 : c = 2
    · simp [formattedChains, h2]
    · simp [formattedChains, h2] at hc
  root := by
    rw [formatted_numbers.1]
    simp [formattedChains]
  entry d hd := by
    rw [formatted_alive] at hd
    obtain rfl : d = formattedSlot := by simpa using hd
    rw [formatted_entry]
    refine ⟨rfl, by simp, ?_⟩
    intro hdir
    exact absurd hdir (by decide)
  apart o o' ho ho' he hne := by
    have hempty : formattedChains (firstOf formattedMount formattedDisk (some formattedSlot)) = [] := by
      rw [firstOf, formatted_entry]
      rfl
    rw [formatted_alive] at ho ho'
    rcases ho with rfl | rfl
    · rcases ho' with rfl | rfl
      · rfl
      · rw [he, hempty] at hne
        exact absurd rfl hne
    · rw [hempty] at hne
      exact absurd rfl hne
  reached c hc := by
    refine ⟨none, Live.root, ?_⟩
    rw [formatted_firstOf_none]
    by_contra hn
    simp [formattedChains, Ne.symm hn] at hc

end Formatted

end SBoy28.Fat32
