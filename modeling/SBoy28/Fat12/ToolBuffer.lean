import SBoy28.Fat12.Readers

/-!
# The buffer of the tool

`main` allocates the size of the file and one sector, and `readFile` writes whole clusters.
-/

namespace SBoy28.Fat12
open Lib

section Specification

/-- The `Size` of the entry at `e`. -/
def ToolGlobals.fileSize (g : ToolGlobals) (e : ℕ) : ℕ := (load32 g.rootDirectory (e + 28)).toNat

/-- `malloc(fileEntry->Size + g_BootSector.BytesPerSector)`. -/
def ToolGlobals.bufferSize (g : ToolGlobals) (e : ℕ) : UInt32 := load32 g.rootDirectory (e + 28) + g.bootSector.bps

/-- A file that has as many clusters as its size asks for, all of them inside of the image. -/
structure ToolFile (g : ToolGlobals) (image : DiskImage) (e : ℕ) (chain : List UInt16) : Prop where
  linked : Linked g.link (some (load16 g.rootDirectory (e + 26))) chain
  inside : ∀ c ∈ chain, g.Inside image c
  length : chain.length = (g.fileSize e + g.bootSector.clusterBytes - 1) / g.bootSector.clusterBytes

/-- `readFile` ends, and has written no more bytes than `main` has allocated. -/
def CopyFits (g : ToolGlobals) (image : DiskImage) (e : ℕ) : Prop :=
  ∃ enough, ∀ fuel, enough ≤ fuel →
    ∃ r, readFile g image fuel e = some r ∧ r.2.length ≤ (g.bufferSize e).toNat

/-- The bytes of the last cluster that do not belong to the file. -/
def ToolGlobals.slack (g : ToolGlobals) (e : ℕ) : ℕ :=
  (g.bootSector.clusterBytes - g.fileSize e % g.bootSector.clusterBytes) % g.bootSector.clusterBytes

end Specification

variable {image : DiskImage} {g : ToolGlobals} {e : ℕ} {chain : List UInt16} {restFat restRoot : Memory}

section Buffer

lemma clusters_eq {size k : ℕ} (hk : 1 ≤ k) : (size + k - 1) / k * k = size + (k - size % k) % k := by
  have hdiv := Nat.div_add_mod size k
  have hmod := Nat.mod_lt size hk
  rw [add_pred_div size hk]
  by_cases h0 : 0 < size % k
  · rw [if_pos h0, Nat.mod_eq_of_lt (by omega), Nat.add_one_mul, Nat.mul_comm]
    omega
  · have hzero : size % k = 0 := by omega
    rw [if_neg h0, hzero, Nat.sub_zero, Nat.mod_self, Nat.mul_comm]
    omega

/-- `readRootDirectory` divides by the size of a sector. -/
lemma sectorSize_pos (hm : mountTool image restFat restRoot = some g) : 1 ≤ g.bootSector.sectorSize := by
  unfold mountTool at hm
  split at hm
  · cases hm
  rename_i b _
  split at hm
  · rename_i hroot
    cases hm
    have hbps : b.bps ≠ 0 := by
      intro h0
      rw [readRootDirectory, if_pos h0] at hroot
      cases hroot
    have htoNat := bps_toNat b
    by_contra hzero
    exact hbps (UInt32.toNat_inj.mp (by rw [htoNat]; exact Nat.eq_zero_of_not_pos hzero))
  · cases hm

lemma readFile_length (hb : 1 ≤ g.bootSector.sectorSize) (hspc : 1 ≤ g.bootSector.sectorsPerCluster.toNat)
    (hf : ToolFile g image e chain) {fuel : ℕ} (hfuel : chain.length ≤ fuel) :
    ∃ out, readFile g image fuel e = some (true, out) ∧ out.length = g.fileSize e + g.slack e := by
  refine ⟨_, readFileLoop_chain hb hf.linked hf.inside hfuel [], ?_⟩
  have hlength : ∀ c, (g.clusterData image c).length = g.bootSector.clusterBytes := by simp [ToolGlobals.clusterData]
  have hcb : 1 ≤ g.bootSector.clusterBytes := Nat.mul_pos hspc hb
  simp only [List.nil_append, List.length_flatMap, hlength, List.map_const', List.sum_replicate_nat]
  rw [hf.length, clusters_eq hcb]
  rfl

lemma bufferSize_toNat (g : ToolGlobals) (e : ℕ) :
    (g.bufferSize e).toNat = (g.fileSize e + g.bootSector.sectorSize) % 2 ^ 32 := by
  rw [ToolGlobals.bufferSize, UInt32.toNat_add, bps_toNat]
  rfl

/-- A sum that wraps around is less than a sector. -/
lemma fits_iff {n size slack sector : ℕ} (hn : n = size + slack) (hsize : size < 2 ^ 32) (hsector : sector < 2 ^ 16) :
    n ≤ (size + sector) % 2 ^ 32 ↔ slack ≤ sector ∧ size + sector < 2 ^ 32 := by
  omega

lemma room_of_fits (hm : mountTool image restFat restRoot = some g)
    (hspc : 1 ≤ g.bootSector.sectorsPerCluster.toNat) (hf : ToolFile g image e chain) (h : CopyFits g image e) :
    g.slack e ≤ g.bootSector.sectorSize ∧ g.fileSize e + g.bootSector.sectorSize < 2 ^ 32 := by
  obtain ⟨enough, hrun⟩ := h
  obtain ⟨r, hread, hle⟩ := hrun (max enough chain.length) (Nat.le_max_left _ _)
  obtain ⟨out, hout, hlength⟩ := readFile_length (sectorSize_pos hm) hspc hf (Nat.le_max_right enough _)
  rw [hout, Option.some.injEq] at hread
  subst hread
  rw [bufferSize_toNat] at hle
  exact (fits_iff hlength (UInt32.toNat_lt _) (UInt16.toNat_lt _)).mp hle

/-- What `readFile` writes fits the buffer just if the file fills its last cluster up to a sector, and the sum that
`malloc` is called with does not wrap around. -/
theorem copy_fits_iff (hm : mountTool image restFat restRoot = some g)
    (hspc : 1 ≤ g.bootSector.sectorsPerCluster.toNat) (hf : ToolFile g image e chain) :
    CopyFits g image e ↔
      g.slack e ≤ g.bootSector.sectorSize ∧ g.fileSize e + g.bootSector.sectorSize < 2 ^ 32 := by
  refine ⟨room_of_fits hm hspc hf, fun hfits => ⟨chain.length, fun fuel hfuel => ?_⟩⟩
  obtain ⟨out, hout, hlength⟩ := readFile_length (sectorSize_pos hm) hspc hf hfuel
  refine ⟨_, hout, ?_⟩
  rw [bufferSize_toNat]
  exact (fits_iff hlength (UInt32.toNat_lt _) (UInt16.toNat_lt _)).mpr hfits

end Buffer

section WellFormedImage

variable {disk : RAMDisk} {table : ℕ → Fin 4096} {i : ℕ} {clusters : List ℕ} {restFat restRoot : Memory}

lemma fileSize_image (hwf : WellFormed disk table) (hi : i < disk.boot.dirEntryCount.toNat) :
    (disk.toolGlobals restFat restRoot).fileSize (32 * i) = entrySize disk i := by
  refine congrArg UInt32.toNat (load32_congr fun k hk => ?_)
  rw [Nat.add_assoc, Nat.add_assoc]
  exact toolEntry_byte hwf hi (by omega)

lemma toolFile (hwf : WellFormed disk table) (hf : FileAt disk table i clusters) (hsize : entrySize disk i ≠ 0)
    (restFat restRoot : Memory) :
    ToolFile (disk.toolGlobals restFat restRoot) disk.image (32 * i) (clusters.map UInt16.ofNat) := by
  obtain ⟨hlinked, hin⟩ := toolChain hwf hf hsize restFat restRoot
  refine ⟨hlinked, hin, ?_⟩
  rw [List.length_map, fileSize_image hwf hf.entry]
  exact hf.length

end WellFormedImage

theorem copy_fits_floppy : CopyFits ((floppy floppyTable 2 5).toolGlobals (fun _ => 0) fun _ => 0)
    (floppy floppyTable 2 5).image 0 := by
  have hwf := floppy_wellFormed floppyTable 2 5
  have hsize := (floppy_entry floppyTable 2 5).2
  have hfile := toolFile hwf floppy_file (by rw [hsize]; decide) (fun _ => 0) fun _ => 0
  refine (copy_fits_iff (mountTool_image hwf _ _) hwf.clusterSize hfile).mpr ?_
  rw [ToolGlobals.slack, fileSize_image hwf floppy_file.entry, hsize]
  simp only [RAMDisk.toolGlobals, floppy_boot]
  decide

section WideClusters

/-- The floppy disk with four sectors to a cluster. -/
def wideFloppy : RAMDisk where
  bytes := Function.update (floppy floppyTable 2 5).bytes 13 4
  size := 1474560

lemma wideFloppy_byte {a : ℕ} (ha : a ≠ 13) : wideFloppy.bytes a = (floppy floppyTable 2 5).bytes a :=
  Function.update_of_ne ha _ _

@[simp] lemma wideFloppy_boot : wideFloppy.boot = ⟨512, 4, 1, 2, 224, 9⟩ := by
  simp [RAMDisk.boot, BootSector.load, load16, wideFloppy, floppy]

lemma wideFloppy_wellFormed : WellFormed wideFloppy floppyTable where
  header := by decide
  sectorSize := by
    rw [wideFloppy_boot]
    decide
  clusterSize := by
    rw [wideFloppy_boot]
    decide
  fatInside := by
    rw [wideFloppy_boot]
    decide
  rootInside := by
    rw [wideFloppy_boot]
    decide
  fat := by
    have hfat := (floppy_wellFormed floppyTable 2 5).fat
    rw [floppy_boot] at hfat
    rw [wideFloppy_boot]
    intro i hi
    have hstart : BootSector.fatStart ⟨512, 4, 1, 2, 224, 9⟩ = 512 := rfl
    rw [wideFloppy_byte (by rw [hstart]; omega)]
    exact hfat i hi

lemma wideFloppy_entry : entryCluster wideFloppy 0 = 2 ∧ entrySize wideFloppy 0 = 5 := by
  have hstart : entryStart wideFloppy 0 = entryStart (floppy floppyTable 2 5) 0 := by
    rw [entryStart, entryStart, wideFloppy_boot, floppy_boot]
    rfl
  have hplain := floppy_entry floppyTable 2 5
  have hentry : entryStart (floppy floppyTable 2 5) 0 = 9728 := by
    rw [entryStart, floppy_boot]
    rfl
  constructor
  · refine Eq.trans ?_ hplain.1
    rw [entryCluster, entryCluster, hstart, hentry]
    refine congrArg UInt16.toNat (load16_congr fun k hk => wideFloppy_byte ?_)
    omega
  · refine Eq.trans ?_ hplain.2
    rw [entrySize, entrySize, hstart, hentry]
    refine congrArg UInt32.toNat (load32_congr fun k hk => wideFloppy_byte ?_)
    omega

lemma wideFloppy_file : FileAt wideFloppy floppyTable 0 [2] where
  entry := by
    rw [wideFloppy_boot]
    decide
  empty := by
    rw [wideFloppy_entry.2]
    decide
  linked := by
    rw [wideFloppy_entry.1, wideFloppy_entry.2]
    exact ⟨rfl, rfl⟩
  range := by
    rw [List.forall_mem_singleton]
    refine ⟨by decide, by decide, ?_, ?_⟩ <;> rw [wideFloppy_boot]
    · decide
    · decide
  length := by
    rw [wideFloppy_entry.2, wideFloppy_boot]
    decide

/-- A file of 5 bytes takes four sectors, and the buffer has room for one and 5 bytes. -/
theorem copy_overruns_wideFloppy :
    WellFormed wideFloppy floppyTable ∧ FileAt wideFloppy floppyTable 0 [2] ∧ entrySize wideFloppy 0 = 5 ∧
      ∃ g, mountTool wideFloppy.image (fun _ => 0) (fun _ => 0) = some g ∧ ¬CopyFits g wideFloppy.image 0 := by
  have hsize : entrySize wideFloppy 0 ≠ 0 := by
    rw [wideFloppy_entry.2]
    decide
  have hm := mountTool_image wideFloppy_wellFormed (fun _ => 0) fun _ => 0
  refine ⟨wideFloppy_wellFormed, wideFloppy_file, wideFloppy_entry.2, _, hm, fun h => ?_⟩
  have hspc := wideFloppy_wellFormed.clusterSize
  have hslack := (room_of_fits hm hspc (toolFile wideFloppy_wellFormed wideFloppy_file hsize _ _) h).1
  rw [ToolGlobals.slack, fileSize_image wideFloppy_wellFormed wideFloppy_file.entry, wideFloppy_entry.2] at hslack
  simp only [RAMDisk.toolGlobals, wideFloppy_boot] at hslack
  exact absurd hslack (by decide)

end WideClusters

end SBoy28.Fat12
