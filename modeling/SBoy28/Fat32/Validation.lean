import SBoy28.Fat32.Mount

/-!
# What a successful mount says about the volume

`fs_mount_fat32` checks the sector and cluster sizes, the number of clusters and the lower bound of
the root cluster. The number of clusters comes from a subtraction, so it is that of the volume only
if the FATs lie inside the volume.
-/

namespace SBoy28.Fat32
open Lib

variable {g g₀ : FSMount} {device : FSBlockDevice} {contents : Memory}

section Specification

namespace FAT32BPB

variable (bpb : FAT32BPB)

def totalSectors : ℕ := if bpb.totalSectors16 ≠ 0 then bpb.totalSectors16.toNat else bpb.totalSectors32.toNat

def sectorsPerFat : ℕ := if bpb.fatSize16 ≠ 0 then bpb.fatSize16.toNat else bpb.fatSize32.toNat

def rootDirSectors : ℕ :=
  (bpb.rootEntryCount.toNat * 32 + (bpb.bytesPerSector.toNat - 1)) / bpb.bytesPerSector.toNat

/-- The first sector of the data region, over the integers. -/
def dataStart : ℕ := bpb.reservedSectorCount.toNat + bpb.numFats.toNat * bpb.sectorsPerFat + bpb.rootDirSectors

end FAT32BPB

/-- What is known of a mounted volume. -/
structure Validated (g : FSMount) : Prop where
  size : 512 ≤ g.dev.size.toNat
  bytesPerSector : 1 ≤ g.bpb.bytesPerSector.toNat
  sectorsPerCluster : 1 ≤ g.bpb.sectorsPerCluster.toNat
  rootCluster : 2 ≤ g.bpb.rootCluster.toNat
  clusterCount : 65525 ≤ g.clusterCount.toNat
  start : g.bpb.dataStart ≤ g.bpb.totalSectors → g.dataStartSector.toNat = g.bpb.dataStart
  clusters : g.bpb.dataStart ≤ g.bpb.totalSectors →
    g.clusterCount.toNat = (g.bpb.totalSectors - g.bpb.dataStart) / g.bpb.sectorsPerCluster.toNat
  inside : g.bpb.dataStart ≤ g.bpb.totalSectors →
    g.dataStartSector.toNat + g.clusterCount.toNat * g.bpb.sectorsPerCluster.toNat ≤ g.bpb.totalSectors
  aligned : 4 ∣ g.bpb.bytesPerSector.toNat → ∀ cluster : UInt32,
    (cluster * 4 % g.bps).toNat + 4 ≤ g.bpb.bytesPerSector.toNat
  refused : 512 < g.bpb.bytesPerSector.toNat → ∀ cluster value s,
    (getFatEntry g cluster).run (handler g) s = (.error .io, s) ∧
      (setFatEntry g cluster value).run (handler g) s = (.error .io, s)

end Specification

section Numbers

lemma rootDirSectors_toNat (bpb : FAT32BPB) (hpos : 0 < bpb.bytesPerSector.toNat) :
    ((bpb.rootEntryCount.toUInt32 * 32 + (bpb.bytesPerSector.toUInt32 - 1)) / bpb.bytesPerSector.toUInt32).toNat =
      bpb.rootDirSectors := by
  have hcount := bpb.rootEntryCount.toNat_lt
  have hlt := bpb.bytesPerSector.toNat_lt
  have hbps : bpb.bytesPerSector.toUInt32.toNat = bpb.bytesPerSector.toNat := UInt16.toNat_toUInt32 _
  have hroot : bpb.rootEntryCount.toUInt32.toNat = bpb.rootEntryCount.toNat := UInt16.toNat_toUInt32 _
  have h1 : (1 : UInt32).toNat = 1 := rfl
  have h32 : (32 : UInt32).toNat = 32 := rfl
  have hmul : (bpb.rootEntryCount.toUInt32 * 32).toNat = bpb.rootEntryCount.toNat * 32 := by
    rw [toNat_mul_of_lt, hroot, h32]
    rw [hroot, h32]
    omega
  have hlast : (bpb.bytesPerSector.toUInt32 - 1).toNat = bpb.bytesPerSector.toNat - 1 := by
    rw [toNat_sub_of_le, hbps, h1]
    rw [hbps, h1]
    omega
  rw [UInt32.toNat_div, toNat_add_of_lt, hmul, hlast, hbps, FAT32BPB.rootDirSectors]
  rw [hmul, hlast]
  omega

lemma sectorsPerFat_toNat (device : FSBlockDevice) (bpb : FAT32BPB) (stack : Memory) :
    (FSMount.computed device bpb stack).sectorsPerFat.toNat = bpb.sectorsPerFat := by
  simp only [FSMount.computed, FAT32BPB.sectorsPerFat]
  split
  · exact UInt16.toNat_toUInt32 _
  · rfl

/-- Inside the volume, the start of the data region does not wrap around. -/
lemma dataStart_toNat (device : FSBlockDevice) {bpb : FAT32BPB} (stack : Memory)
    (hpos : 0 < bpb.bytesPerSector.toNat) (hin : bpb.dataStart < 2 ^ 32) :
    (FSMount.computed device bpb stack).dataStartSector.toNat = bpb.dataStart := by
  have hspf := sectorsPerFat_toNat device bpb stack
  have hroot := rootDirSectors_toNat bpb hpos
  have hnum : bpb.numFats.toUInt32.toNat = bpb.numFats.toNat := UInt8.toNat_toUInt32 _
  have hres : bpb.reservedSectorCount.toUInt32.toNat = bpb.reservedSectorCount.toNat := UInt16.toNat_toUInt32 _
  simp only [FSMount.computed] at hspf ⊢
  rw [FAT32BPB.dataStart] at hin ⊢
  have hprod := toNat_mul_of_lt (x := bpb.numFats.toUInt32) (y := if bpb.fatSize16 ≠ 0 then
    bpb.fatSize16.toUInt32 else bpb.fatSize32) (by rw [hspf, hnum]; omega)
  rw [hspf, hnum] at hprod
  rw [toNat_add_of_lt, hroot, toNat_add_of_lt, hprod, hres]
  · rw [hprod, hres]
    omega
  · rw [hroot, toNat_add_of_lt, hprod, hres]
    · exact hin
    · rw [hprod, hres]
      omega

lemma totalSectors_toNat (bpb : FAT32BPB) : (if bpb.totalSectors16 ≠ 0 then bpb.totalSectors16.toUInt32 else
    bpb.totalSectors32).toNat = bpb.totalSectors := by
  rw [FAT32BPB.totalSectors]
  split
  · exact UInt16.toNat_toUInt32 _
  · rfl

lemma totalSectors_lt (bpb : FAT32BPB) : bpb.totalSectors < 2 ^ 32 := by
  rw [← totalSectors_toNat]
  exact UInt32.toNat_lt _

/-- Inside the volume, the number of clusters is what fits into the rest. -/
lemma clusterCount_toNat (device : FSBlockDevice) {bpb : FAT32BPB} (stack : Memory)
    (hpos : 0 < bpb.bytesPerSector.toNat) (hin : bpb.dataStart ≤ bpb.totalSectors) :
    (FSMount.computed device bpb stack).clusterCount.toNat =
      (bpb.totalSectors - bpb.dataStart) / bpb.sectorsPerCluster.toNat := by
  have hstart := dataStart_toNat device stack hpos (Nat.lt_of_le_of_lt hin (totalSectors_lt bpb))
  have htotal := totalSectors_toNat bpb
  have hcount : (FSMount.computed device bpb stack).clusterCount =
      ((if bpb.totalSectors16 ≠ 0 then bpb.totalSectors16.toUInt32 else bpb.totalSectors32) -
        (FSMount.computed device bpb stack).dataStartSector) / bpb.sectorsPerCluster.toUInt32 := rfl
  rw [hcount, UInt32.toNat_div, toNat_sub_of_le, htotal, hstart, UInt8.toNat_toUInt32]
  rw [htotal, hstart]
  exact hin

lemma entry_inSector {b : UInt32} (hpos : 0 < b.toNat) (h4 : 4 ∣ b.toNat) (cluster : UInt32) :
    (cluster * 4 % b).toNat + 4 ≤ b.toNat := by
  have hmul : (cluster * 4).toNat = cluster.toNat * 4 % 2 ^ 32 := UInt32.toNat_mul _ _
  have hlt := Nat.mod_lt (cluster * 4).toNat hpos
  have hdvd : 4 ∣ (cluster * 4).toNat % b.toNat := by
    rw [Nat.dvd_mod_iff h4, hmul]
    omega
  rw [UInt32.toNat_mod]
  omega

end Numbers

section Mounting

/-- What `fs_mount_fat32` checks. -/
theorem fsMountFat32_ok_iff (g₀ : FSMount) (device : FSBlockDevice) (contents : Memory) :
    (fsMountFat32 g₀ device contents).1 = .ok () ↔
      device.base ≠ 0 ∧ 512 ≤ device.size ∧ (FAT32BPB.load contents).bytesPerSector ≠ 0 ∧
        (FAT32BPB.load contents).sectorsPerCluster ≠ 0 ∧
        65525 ≤ (FSMount.computed device (FAT32BPB.load contents) g₀.stack).clusterCount ∧
        2 ≤ (FAT32BPB.load contents).rootCluster := by
  have hroot : (FSMount.computed device (FAT32BPB.load contents) g₀.stack).bpb = FAT32BPB.load contents := rfl
  rw [← UInt32.not_lt, ← UInt32.not_lt, ← UInt32.not_lt, fsMountFat32]
  split
  · simp only [reduceCtorEq, false_iff]
    tauto
  · simp only [hroot]
    split
    · simp only [reduceCtorEq, false_iff]
      tauto
    · split
      · simp only [reduceCtorEq, false_iff]
        tauto
      · simp only [true_iff]
        tauto

lemma rootCluster_of_mounted (h : fsMountFat32 g₀ device contents = (.ok (), g)) : 2 ≤ g.bpb.rootCluster := by
  have hok : (fsMountFat32 g₀ device contents).1 = .ok () := by rw [h]
  obtain ⟨-, -, -, -, -, hroot⟩ := (fsMountFat32_ok_iff g₀ device contents).mp hok
  obtain ⟨rfl, -⟩ := fsMountFat32_ok h
  exact hroot

/-- A mounted volume has passed the checks. If the FATs lie inside the volume, its data region
starts behind them and its clusters lie inside the volume as well. -/
theorem mount_validation (h : fsMountFat32 g₀ device contents = (.ok (), g)) : Validated g := by
  have hok : (fsMountFat32 g₀ device contents).1 = .ok () := by rw [h]
  obtain ⟨-, hsize, hbps, hspc, hcount, -⟩ := (fsMountFat32_ok_iff g₀ device contents).mp hok
  have hroot := rootCluster_of_mounted h
  obtain ⟨heq, -⟩ := fsMountFat32_ok h
  have hpos : 0 < (FAT32BPB.load contents).bytesPerSector.toNat := by
    rw [Nat.pos_iff_ne_zero]
    exact fun he => hbps (UInt16.toNat_inj.mp he)
  have hspos : 0 < (FAT32BPB.load contents).sectorsPerCluster.toNat := by
    rw [Nat.pos_iff_ne_zero]
    exact fun he => hspc (UInt8.toNat_inj.mp he)
  have hstart := fun hin => dataStart_toNat device g₀.stack hpos
    (Nat.lt_of_le_of_lt hin (totalSectors_lt (FAT32BPB.load contents)))
  have hclusters := fun hin => @clusterCount_toNat device (FAT32BPB.load contents) g₀.stack hpos hin
  have hb : g.bps.toNat = g.bpb.bytesPerSector.toNat := bps_toNat g
  subst heq
  refine ⟨hsize, hpos, hspos, hroot, hcount, hstart, hclusters, ?_, ?_, ?_⟩
  · intro hin
    have hle := Nat.div_mul_le_self ((FAT32BPB.load contents).totalSectors - (FAT32BPB.load contents).dataStart)
      (FAT32BPB.load contents).sectorsPerCluster.toNat
    change (FSMount.computed device (FAT32BPB.load contents) g₀.stack).dataStartSector.toNat +
      (FSMount.computed device (FAT32BPB.load contents) g₀.stack).clusterCount.toNat *
        (FAT32BPB.load contents).sectorsPerCluster.toNat ≤ (FAT32BPB.load contents).totalSectors
    rw [hstart hin, hclusters hin]
    change (FAT32BPB.load contents).dataStart ≤ (FAT32BPB.load contents).totalSectors at hin
    omega
  · intro h4 cluster
    rw [← hb] at h4 ⊢
    exact entry_inSector (hb ▸ hpos) h4 cluster
  · intro hgt cluster value s
    have hbps : _ > (512 : UInt32) := UInt32.lt_iff_toNat_lt.mpr (hb ▸ hgt)
    exact ⟨by simp [getFatEntry, Program.run_bind, hbps], by simp [setFatEntry, Program.run_bind, hbps]⟩

theorem mount_validation_formatted : Validated formattedMount := mount_validation formatted_mounted

/-- A first sector with these numbers. -/
def bootSector (bytesPerSector : UInt32) (sectorsPerCluster : UInt8) (reservedSectorCount : UInt32) (numFats : UInt8)
    (totalSectors fatSize rootCluster : UInt32) : Memory := fun a =>
  if 11 ≤ a ∧ a < 13 then byteOf bytesPerSector (a - 11) else if a = 13 then sectorsPerCluster
  else if 14 ≤ a ∧ a < 16 then byteOf reservedSectorCount (a - 14) else if a = 16 then numFats
  else if 32 ≤ a ∧ a < 36 then byteOf totalSectors (a - 32)
  else if 36 ≤ a ∧ a < 40 then byteOf fatSize (a - 36)
  else if 44 ≤ a ∧ a < 48 then byteOf rootCluster (a - 44) else 0

/-- The result of mounting a device of one sector. -/
def mountOf (contents : Memory) : Except FSErr Unit × FSMount :=
  fsMountFat32 (FSMount.zero fun _ => 0) ⟨1, 512⟩ contents

/-- Each number of a mounted volume can be off: FATs that reach beyond the volume or wrap around,
FATs without room or without copies, entries across two sectors, a root cluster behind the last. -/
theorem mount_validation_unchecked :
    (∃ g, mountOf (bootSector 512 1 65535 2 1 512 2) = (.ok (), g) ∧ g.bpb.totalSectors < g.bpb.dataStart) ∧
    (∃ g, mountOf (bootSector 512 1 1 2 66550 0x80000000 2) = (.ok (), g) ∧
      g.dataStartSector.toNat ≠ g.bpb.dataStart) ∧
    (∃ g, mountOf (bootSector 512 1 1 2 66550 0 2) = (.ok (), g) ∧
      g.bpb.sectorsPerFat * g.bpb.bytesPerSector.toNat < (g.clusterCount.toNat + 2) * 4) ∧
    (∃ g, mountOf (bootSector 512 1 1 0 66550 512 2) = (.ok (), g) ∧ g.bpb.numFats = 0) ∧
    (∃ g, mountOf (bootSector 510 1 1 2 66600 520 2) = (.ok (), g) ∧
      g.bpb.bytesPerSector.toNat < 127 * 4 % g.bpb.bytesPerSector.toNat + 4) ∧
    (∃ g, mountOf (bootSector 1024 1 1 2 66550 256 2) = (.ok (), g) ∧ 512 < g.bpb.bytesPerSector.toNat) ∧
    (∃ g, mountOf (bootSector 512 1 1 2 66550 512 0xFFFFFFFF) = (.ok (), g) ∧
      g.clusterCount.toNat + 2 ≤ g.bpb.rootCluster.toNat) := by
  refine ⟨⟨_, rfl, ?_⟩, ⟨_, rfl, ?_⟩, ⟨_, rfl, ?_⟩, ⟨_, rfl, ?_⟩, ⟨_, rfl, ?_⟩, ⟨_, rfl, ?_⟩, ⟨_, rfl, ?_⟩⟩ <;>
    decide +kernel

end Mounting

end SBoy28.Fat32
