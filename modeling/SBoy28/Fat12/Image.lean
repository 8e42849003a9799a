import SBoy28.Fat12.RamDisk
import SBoy28.Lib.TwelveBit
import SBoy28.Lib.Linked

/-!
# Well-formed images

The layout of a FAT12 image over the natural numbers, and the same numbers as the readers compute
them. On a well-formed image nothing wraps around.
-/

namespace SBoy28.Fat12
open Lib Program

section Specification

def BootSector.sectorSize (b : BootSector) : ℕ := b.bytesPerSector.toNat

def BootSector.clusterBytes (b : BootSector) : ℕ := b.sectorsPerCluster.toNat * b.sectorSize

def BootSector.fatStart (b : BootSector) : ℕ := b.reservedSectors.toNat * b.sectorSize

def BootSector.fatBytes (b : BootSector) : ℕ := b.sectorsPerFat.toNat * b.sectorSize

/-- The first sector of the root directory. -/
def BootSector.rootSector (b : BootSector) : ℕ :=
  b.reservedSectors.toNat + b.sectorsPerFat.toNat * b.fatCount.toNat

/-- As many sectors as the directory entries need. -/
def BootSector.rootSectors (b : BootSector) : ℕ :=
  (32 * b.dirEntryCount.toNat + b.sectorSize - 1) / b.sectorSize

def BootSector.rootStart (b : BootSector) : ℕ := b.rootSector * b.sectorSize

def BootSector.dataStart (b : BootSector) : ℕ := (b.rootSector + b.rootSectors) * b.sectorSize

/-- Where the data of cluster `c` begins; the first one has number 2. -/
def BootSector.clusterStart (b : BootSector) (c : ℕ) : ℕ := b.dataStart + (c - 2) * b.clusterBytes

/-- The FAT and the root directory lie in the image, and the FAT holds this table. -/
structure WellFormed (disk : RAMDisk) (table : ℕ → Fin 4096) : Prop where
  header : sizeofBootSector ≤ disk.size
  sectorSize : 1 ≤ disk.boot.sectorSize
  clusterSize : 1 ≤ disk.boot.sectorsPerCluster.toNat
  fatInside : disk.boot.fatStart + disk.boot.fatBytes ≤ disk.size.toNat
  rootInside : disk.boot.dataStart ≤ disk.size.toNat
  fat : ∀ i < disk.boot.fatBytes, disk.bytes (disk.boot.fatStart + i) = packed table i

/-- A data cluster with an entry in the FAT and its sectors in the image. -/
structure InRange (disk : RAMDisk) (c : ℕ) : Prop where
  first : 2 ≤ c
  last : c < 0xFF8
  link : c + c / 2 + 1 < disk.boot.fatBytes
  data : disk.boot.clusterStart c + disk.boot.clusterBytes ≤ disk.size.toNat

def chainNext (table : ℕ → Fin 4096) (c : ℕ) : Option ℕ :=
  if 0xFF8 ≤ (table c).val then none else some (table c).val

def entryStart (disk : RAMDisk) (i : ℕ) : ℕ := disk.boot.rootStart + 32 * i

def entryCluster (disk : RAMDisk) (i : ℕ) : ℕ := (load16 disk.bytes (entryStart disk i + 26)).toNat

def entrySize (disk : RAMDisk) (i : ℕ) : ℕ := (load32 disk.bytes (entryStart disk i + 28)).toNat

/-- Entry `i` of the root directory is a file with this chain of clusters. A chain that ends has no
cycle. -/
structure FileAt (disk : RAMDisk) (table : ℕ → Fin 4096) (i : ℕ) (chain : List ℕ) : Prop where
  entry : i < disk.boot.dirEntryCount.toNat
  empty : entrySize disk i = 0 → entryCluster disk i = 0
  linked : Linked (chainNext table) (if entrySize disk i = 0 then none else some (entryCluster disk i)) chain
  range : ∀ c ∈ chain, InRange disk c
  length : chain.length = (entrySize disk i + disk.boot.clusterBytes - 1) / disk.boot.clusterBytes

def clusterData (disk : RAMDisk) (c : ℕ) : List UInt8 :=
  (List.range disk.boot.clusterBytes).map fun i => disk.bytes (disk.boot.clusterStart c + i)

/-- The clusters of the chain, one after the other, up to the size. -/
def fileData (disk : RAMDisk) (chain : List ℕ) (size : ℕ) : List UInt8 :=
  (chain.flatMap (clusterData disk)).take size

end Specification

section Words

variable (b : BootSector)

lemma bps_toNat : b.bps.toNat = b.sectorSize := UInt16.toNat_toUInt32 _

lemma spc_toNat : b.spc.toNat = b.sectorsPerCluster.toNat := UInt8.toNat_toUInt32 _

lemma rootLba_toNat : b.rootLba.toNat = b.rootSector := by
  have h1 := b.reservedSectors.toNat_lt
  have h2 := b.sectorsPerFat.toNat_lt
  have h3 := b.fatCount.toNat_lt
  have hmul : b.sectorsPerFat.toNat * b.fatCount.toNat ≤ 65535 * 255 :=
    Nat.mul_le_mul (by omega) (by omega)
  have hprod : (b.sectorsPerFat.toUInt32 * b.fatCount.toUInt32).toNat =
      b.sectorsPerFat.toNat * b.fatCount.toNat := by
    rw [toNat_mul_of_lt] <;> simp only [UInt16.toNat_toUInt32, UInt8.toNat_toUInt32]
    omega
  rw [BootSector.rootLba, toNat_add_of_lt] <;> rw [hprod, UInt16.toNat_toUInt32]
  · rfl
  · omega

lemma rootSize_toNat : b.rootSize.toNat = 32 * b.dirEntryCount.toNat := by
  have h := b.dirEntryCount.toNat_lt
  have h32 : sizeofDirectoryEntry.toNat = 32 := rfl
  rw [BootSector.rootSize, toNat_mul_of_lt] <;> rw [h32, UInt16.toNat_toUInt32]
  omega

lemma rootSectors_ram (hb : 1 ≤ b.sectorSize) :
    ((b.rootSize + b.bps - 1) / b.bps).toNat = b.rootSectors := by
  have h := b.dirEntryCount.toNat_lt
  have hs : b.sectorSize < 65536 := b.bytesPerSector.toNat_lt
  have h1 : (1 : UInt32).toNat = 1 := rfl
  have hsum : (b.rootSize + b.bps).toNat = 32 * b.dirEntryCount.toNat + b.sectorSize := by
    rw [toNat_add_of_lt] <;> rw [rootSize_toNat, bps_toNat]
    omega
  rw [UInt32.toNat_div, bps_toNat, toNat_sub_of_le (by omega), hsum, h1]
  rfl

lemma add_pred_div (n : ℕ) {k : ℕ} (hk : 1 ≤ k) : (n + k - 1) / k = if 0 < n % k then n / k + 1 else n / k := by
  have hmod := Nat.mod_lt n hk
  have hsplit : n + k - 1 = k * (n / k) + (n % k + (k - 1)) := by
    have := Nat.div_add_mod n k
    omega
  rw [hsplit, Nat.mul_add_div hk]
  split
  · have hone : (n % k + (k - 1)) / k = 1 := by
      rw [Nat.div_eq_of_lt_le] <;> omega
    rw [hone]
  · have hzero : (n % k + (k - 1)) / k = 0 := Nat.div_eq_of_lt (by omega)
    rw [hzero, Nat.add_zero]

lemma rootSectors_tool (hb : 1 ≤ b.sectorSize) :
    (if b.rootSize % b.bps > 0 then b.rootSize / b.bps + 1 else b.rootSize / b.bps).toNat =
      b.rootSectors := by
  have h := b.dirEntryCount.toNat_lt
  have h1 : (1 : UInt32).toNat = 1 := rfl
  have hdiv : (b.rootSize / b.bps).toNat = 32 * b.dirEntryCount.toNat / b.sectorSize := by
    rw [UInt32.toNat_div, rootSize_toNat, bps_toNat]
  have hle : 32 * b.dirEntryCount.toNat / b.sectorSize ≤ 32 * b.dirEntryCount.toNat := Nat.div_le_self _ _
  have hpos : b.rootSize % b.bps > 0 ↔ 0 < 32 * b.dirEntryCount.toNat % b.sectorSize := by
    rw [gt_iff_lt, UInt32.lt_iff_toNat_lt, UInt32.toNat_mod, rootSize_toNat, bps_toNat]
    rfl
  have hceil := add_pred_div (32 * b.dirEntryCount.toNat) hb
  rw [BootSector.rootSectors, hceil]
  by_cases hrest : b.rootSize % b.bps > 0
  · rw [if_pos hrest, if_pos (hpos.mp hrest), toNat_add_of_lt (by omega), hdiv, h1]
  · rw [if_neg hrest, if_neg (fun h => hrest (hpos.mpr h)), hdiv]

lemma rootEnd_lt : b.rootSector + b.rootSectors < 2 ^ 32 := by
  have h1 := b.reservedSectors.toNat_lt
  have h2 := b.sectorsPerFat.toNat_lt
  have h3 := b.fatCount.toNat_lt
  have h4 := b.dirEntryCount.toNat_lt
  have h5 : b.sectorSize < 65536 := b.bytesPerSector.toNat_lt
  have hmul : b.sectorsPerFat.toNat * b.fatCount.toNat ≤ 65535 * 255 :=
    Nat.mul_le_mul (by omega) (by omega)
  have hle : b.rootSectors ≤ 32 * b.dirEntryCount.toNat + b.sectorSize - 1 := Nat.div_le_self _ _
  rw [BootSector.rootSector]
  omega

end Words

section Layout

variable {disk : RAMDisk} {table : ℕ → Fin 4096}

lemma WellFormed.bps_ne (h : WellFormed disk table) : disk.boot.bps ≠ 0 := by
  intro h0
  have hs := h.sectorSize
  rw [← bps_toNat, h0] at hs
  exact absurd hs (by decide)

lemma WellFormed.fat_toNat (h : WellFormed disk table) :
    (readFatRAM disk.boot).toNat = disk.boot.fatStart := by
  have hin := h.fatInside
  have hsize := disk.size.toNat_lt
  have hprod : disk.boot.reservedSectors.toUInt32.toNat * disk.boot.bps.toNat = disk.boot.fatStart := by
    rw [UInt16.toNat_toUInt32, bps_toNat]
    rfl
  rw [readFatRAM, toNat_mul_of_lt (by omega), hprod]

lemma rootStart_le (b : BootSector) : b.rootStart ≤ b.dataStart :=
  Nat.mul_le_mul_right _ (Nat.le_add_right _ _)

lemma WellFormed.root_toNat (h : WellFormed disk table) :
    disk.globals.rootDirectory.toNat = disk.boot.rootStart := by
  have hin := h.rootInside
  have hle := rootStart_le disk.boot
  have hsize := disk.size.toNat_lt
  have hprod : disk.boot.rootLba.toNat * disk.boot.bps.toNat = disk.boot.rootStart := by
    rw [rootLba_toNat, bps_toNat]
    rfl
  rw [RAMDisk.globals, toNat_mul_of_lt (by omega), hprod]

lemma WellFormed.rootEnd_toNat (h : WellFormed disk table) :
    disk.globals.rootDirectoryEnd.toNat = disk.boot.rootSector + disk.boot.rootSectors := by
  have hlt := rootEnd_lt disk.boot
  rw [RAMDisk.globals, toNat_add_of_lt] <;> rw [rootLba_toNat, rootSectors_ram _ h.sectorSize]
  exact hlt

/-- The offset that the readers compute for a data cluster does not wrap around below 2³². -/
lemma clusterOffset_of_lt {b : BootSector} (hb : 1 ≤ b.sectorSize) {rootEnd : UInt32} {c : UInt16} (hc : 2 ≤ c.toNat)
    (hlt : (rootEnd.toNat + (c.toNat - 2) * b.sectorsPerCluster.toNat) * b.sectorSize < 2 ^ 32) :
    ((rootEnd + (c.toUInt32 - 2) * b.spc) * b.bps).toNat =
      (rootEnd.toNat + (c.toNat - 2) * b.sectorsPerCluster.toNat) * b.sectorSize := by
  have hclt := c.toNat_lt
  have hspc := b.sectorsPerCluster.toNat_lt
  have h2 : (2 : UInt32).toNat = 2 := rfl
  have hsub : (c.toUInt32 - 2).toNat = c.toNat - 2 := by
    rw [toNat_sub_of_le] <;> rw [UInt16.toNat_toUInt32, h2]
    exact hc
  have hle : (c.toNat - 2) * b.sectorsPerCluster.toNat ≤ 65535 * 255 := Nat.mul_le_mul (by omega) (by omega)
  have hmul : ((c.toUInt32 - 2) * b.spc).toNat = (c.toNat - 2) * b.sectorsPerCluster.toNat := by
    rw [toNat_mul_of_lt] <;> rw [hsub, spc_toNat]
    omega
  have hroom := Nat.le_mul_of_pos_right (rootEnd.toNat + (c.toNat - 2) * b.sectorsPerCluster.toNat) hb
  have hsum : (rootEnd + (c.toUInt32 - 2) * b.spc).toNat =
      rootEnd.toNat + (c.toNat - 2) * b.sectorsPerCluster.toNat := by
    rw [toNat_add_of_lt] <;> rw [hmul]
    omega
  rw [toNat_mul_of_lt] <;> rw [hsum, bps_toNat]
  exact hlt

/-- Where the sectors of a cluster are, computed from the end of the root directory. -/
lemma clusterOffset_toNat {rootEnd : UInt32} {c : UInt16} (hwf : WellFormed disk table)
    (hend : rootEnd.toNat = disk.boot.rootSector + disk.boot.rootSectors) (hc : InRange disk c.toNat) :
    ((rootEnd + (c.toUInt32 - 2) * disk.boot.spc) * disk.boot.bps).toNat =
      disk.boot.clusterStart c.toNat := by
  have hdata := hc.data
  have hsize := disk.size.toNat_lt
  have hstart : disk.boot.clusterStart c.toNat = (rootEnd.toNat +
      (c.toNat - 2) * disk.boot.sectorsPerCluster.toNat) * disk.boot.sectorSize := by
    rw [BootSector.clusterStart, BootSector.dataStart, BootSector.clusterBytes, Nat.add_mul _ (_ * _),
      Nat.mul_assoc, hend]
  rw [clusterOffset_of_lt hwf.sectorSize hc.first (by omega), ← hstart]

lemma and_fff_toNat (w : UInt16) : (w &&& 0x0FFF).toNat = w.toNat % 4096 := by
  rw [UInt16.toNat_and]
  exact Nat.and_two_pow_sub_one_eq_mod w.toNat 12

lemma shiftRight_four_toNat (w : UInt16) : (w >>> 4).toNat = w.toNat / 16 := by
  rw [UInt16.toNat_shiftRight]
  exact Nat.shiftRight_eq_div_pow w.toNat 4

lemma and_one_ne_zero_iff (c : UInt16) : c &&& 1 ≠ 0 ↔ c.toNat % 2 = 1 := by
  have hand : (c &&& 1).toNat = c.toNat % 2 := by
    rw [UInt16.toNat_and]
    exact Nat.and_two_pow_sub_one_eq_mod c.toNat 1
  rw [ne_eq, ← UInt16.toNat_inj, hand, UInt16.toNat_zero]
  omega

lemma mod_two_iff (c : UInt16) : c % 2 = 0 ↔ c.toNat % 2 = 0 := by
  rw [← UInt16.toNat_inj, UInt16.toNat_mod]
  rfl

lemma entryOf_packed (table : ℕ → Fin 4096) {c w : UInt16} (hw : w.toNat = packedWord table c.toNat) :
    (entryOf c w).toNat = (table c.toNat).val := by
  unfold entryOf
  by_cases hc : c.toNat % 2 = 1
  · rw [if_pos ((and_one_ne_zero_iff c).mpr hc), shiftRight_four_toNat, hw, packedWord_div table hc]
  · rw [if_neg (fun h => hc ((and_one_ne_zero_iff c).mp h)), and_fff_toNat, hw,
      packedWord_mod table (by omega)]

lemma entryOf_tool (c w : UInt16) :
    (if c % 2 = 0 then w &&& 0x0FFF else w >>> 4) = entryOf c w := by
  unfold entryOf
  by_cases hc : c.toNat % 2 = 0
  · rw [if_pos ((mod_two_iff c).mpr hc), if_neg (fun h => by
      have := (and_one_ne_zero_iff c).mp h
      omega)]
  · rw [if_neg (fun h => hc ((mod_two_iff c).mp h)), if_pos ((and_one_ne_zero_iff c).mpr (by omega))]

lemma packedWord_load {m : Memory} {a : ℕ} (c : ℕ) (hlo : m a = packed table (c + c / 2))
    (hhi : m (a + 1) = packed table (c + c / 2 + 1)) : (load16 m a).toNat = packedWord table c := by
  rw [load16_toNat, hlo, hhi]
  rfl

lemma word_eq_load16 {off : UInt32} (hoff : off.toNat + 1 < 2 ^ 32) :
    disk.word off = load16 disk.bytes off.toNat := by
  have h1 : (1 : UInt32).toNat = 1 := rfl
  rw [RAMDisk.word, RAMDisk.byte, RAMDisk.byte, toNat_add_of_lt (by omega), h1]
  rfl

lemma dword_eq_load32 {off : UInt32} (hoff : off.toNat + 3 < 2 ^ 32) :
    disk.dword off = load32 disk.bytes off.toNat := by
  have h2 : (2 : UInt32).toNat = 2 := rfl
  have hoff2 : (off + 2).toNat = off.toNat + 2 := by rw [toNat_add_of_lt (by omega), h2]
  apply UInt32.toNat_inj.mp
  have hlo := load16_toNat disk.bytes off.toNat
  have hhi : (load16 disk.bytes (off.toNat + 2)).toNat =
      (disk.bytes (off.toNat + 2)).toNat + 256 * (disk.bytes (off.toNat + 3)).toNat :=
    load16_toNat disk.bytes (off.toNat + 2)
  have h0 := (disk.bytes off.toNat).toNat_lt
  have h1 := (disk.bytes (off.toNat + 1)).toNat_lt
  have h2 := (disk.bytes (off.toNat + 2)).toNat_lt
  have h3 := (disk.bytes (off.toNat + 3)).toNat_lt
  rw [RAMDisk.dword, word_eq_load16 (by omega), word_eq_load16 (by omega), hoff2, load32_toNat, hlo, hhi,
    toNat_ofNat_of_lt (by omega)]
  omega

lemma WellFormed.nextCluster (h : WellFormed disk table) {c : UInt16} (hc : InRange disk c.toNat) :
    (disk.nextCluster disk.globals c).toNat = (table c.toNat).val := by
  have hlink := hc.link
  have hin := h.fatInside
  have hsize := disk.size.toNat_lt
  have hclt := c.toNat_lt
  have hindex : (c.toUInt32 + c.toUInt32 / 2).toNat = c.toNat + c.toNat / 2 := by
    have hhalf : (c.toUInt32 / 2).toNat = c.toNat / 2 := by
      rw [UInt32.toNat_div, UInt16.toNat_toUInt32]
      rfl
    rw [toNat_add_of_lt] <;> rw [UInt16.toNat_toUInt32, hhalf]
    omega
  have hoff : (disk.globals.fatOffset c).toNat = disk.boot.fatStart + (c.toNat + c.toNat / 2) := by
    rw [Globals.fatOffset, RAMDisk.globals, toNat_add_of_lt] <;> rw [h.fat_toNat, hindex]
    omega
  rw [RAMDisk.nextCluster]
  apply entryOf_packed
  rw [word_eq_load16 (by omega), hoff]
  exact packedWord_load c.toNat (h.fat _ (by omega)) (h.fat _ (by omega))

end Layout

end SBoy28.Fat12
