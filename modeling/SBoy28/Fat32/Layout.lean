import SBoy28.Fat32.Bounds
import SBoy28.Fat32.Scan
import SBoy28.Lib.Memory

/-!
# The layout of a volume

On a well-formed volume the copies of the FAT and the clusters are byte ranges of the device
that do not overlap, and every sector the driver computes for them is inside the device. The
accesses of the driver are then reads and writes of those ranges.
-/

namespace SBoy28.Fat32
open Lib

/-- The conditions on the numbers of a volume, over the integers. -/
structure Geometry (g : FSMount) : Prop where
  dvd : 32 ∣ g.bps.toNat
  bps_le : g.bps.toNat ≤ 512
  bps_pos : 0 < g.bps.toNat
  spc_pos : 0 < g.spc.toNat
  perCluster : g.bytesPerCluster.toNat = g.bps.toNat * g.spc.toNat
  numFats_pos : 0 < g.bpb.numFats.toNat
  fatRoom : (g.clusterCount.toNat + 2) * 4 ≤ g.sectorsPerFat.toNat * g.bps.toNat
  fatEnd : g.fatStartSector.toNat + g.bpb.numFats.toNat * g.sectorsPerFat.toNat ≤
    g.dataStartSector.toNat
  dataEnd : (g.dataStartSector.toNat + g.clusterCount.toNat * g.spc.toNat) * g.bps.toNat ≤
    g.dev.size.toNat

/-- A data cluster of the volume. -/
def InRange (g : FSMount) (c : UInt32) : Prop := 2 ≤ c.toNat ∧ c.toNat < g.clusterCount.toNat + 2

instance (g : FSMount) (c : UInt32) : Decidable (InRange g c) := inferInstanceAs (Decidable (_ ∧ _))

/-- The first byte of copy `k` of the FAT. -/
def fatBase (g : FSMount) (k : ℕ) : ℕ :=
  (g.fatStartSector.toNat + k * g.sectorsPerFat.toNat) * g.bps.toNat

/-- The first byte of the entry of a cluster in copy `k` of the FAT. -/
def fatAddr (g : FSMount) (k : ℕ) (c : UInt32) : ℕ := fatBase g k + 4 * c.toNat

def clusterSector (g : FSMount) (c : UInt32) : ℕ :=
  g.dataStartSector.toNat + (c.toNat - 2) * g.spc.toNat

/-- Byte `j` of a cluster. -/
def dataAddr (g : FSMount) (c : UInt32) (j : ℕ) : ℕ := clusterSector g c * g.bps.toNat + j

/-- The bytes of a cluster. -/
def clusterBytes (g : FSMount) : ℕ := g.bps.toNat * g.spc.toNat

variable {g : FSMount}

namespace Geometry

lemma dataEnd_lt (hg : Geometry g) :
    (g.dataStartSector.toNat + g.clusterCount.toNat * g.spc.toNat) * g.bps.toNat < 2 ^ 32 :=
  Nat.lt_of_le_of_lt hg.dataEnd g.dev.size.toNat_lt

lemma sectors_lt (hg : Geometry g) :
    g.dataStartSector.toNat + g.clusterCount.toNat * g.spc.toNat < 2 ^ 32 :=
  Nat.lt_of_le_of_lt (Nat.le_mul_of_pos_right _ hg.bps_pos) hg.dataEnd_lt

lemma bps_ge (hg : Geometry g) : 32 ≤ g.bps.toNat := Nat.le_of_dvd hg.bps_pos hg.dvd

/-- Cluster numbers are far below the end-of-chain values. -/
lemma clusterCount_lt (hg : Geometry g) : g.clusterCount.toNat < 2 ^ 27 := by
  have h32 := hg.bps_ge
  have hend := hg.dataEnd_lt
  have hspc := hg.spc_pos
  have hmul : g.clusterCount.toNat * 32 ≤
      (g.dataStartSector.toNat + g.clusterCount.toNat * g.spc.toNat) * g.bps.toNat := by
    apply Nat.mul_le_mul _ h32
    have hle : g.clusterCount.toNat ≤ g.clusterCount.toNat * g.spc.toNat :=
      Nat.le_mul_of_pos_right _ hspc
    omega
  omega

lemma bps_le_512 (hg : Geometry g) : ¬g.bps > 512 := by
  rw [gt_iff_lt, UInt32.lt_iff_toNat_lt, Nat.not_lt]
  exact hg.bps_le

/-- A sector below the end of the data region is inside the device. -/
lemma inBounds (hg : Geometry g) {sector : UInt32}
    (h : sector.toNat < g.dataStartSector.toNat + g.clusterCount.toNat * g.spc.toNat) :
    InBounds g sector := by
  apply Nat.le_trans _ hg.dataEnd
  exact Nat.mul_le_mul_right _ h

lemma clusterBytes_pos (hg : Geometry g) : 0 < clusterBytes g := Nat.mul_pos hg.bps_pos hg.spc_pos

lemma bytesPerCluster_eq (hg : Geometry g) : g.bytesPerCluster.toNat = clusterBytes g :=
  hg.perCluster

end Geometry

section Sectors

/-- The sectors of a cluster are those that the driver computes, without overflow. -/
lemma clusterToSector_toNat (hg : Geometry g) {c : UInt32} (hc : InRange g c) :
    (clusterToSector g c).toNat = clusterSector g c ∧
      clusterSector g c + g.spc.toNat ≤
        g.dataStartSector.toNat + g.clusterCount.toNat * g.spc.toNat := by
  have hend := hg.sectors_lt
  have hlo := hc.1
  have hhi := hc.2
  have hmul : (c.toNat - 2 + 1) * g.spc.toNat ≤ g.clusterCount.toNat * g.spc.toNat :=
    Nat.mul_le_mul_right _ (by omega)
  rw [Nat.add_one_mul] at hmul
  have hsub : (c - 2).toNat = c.toNat - 2 := toNat_sub_of_le (by simpa using hlo)
  have hprod : ((c - 2) * g.spc).toNat = (c.toNat - 2) * g.spc.toNat := by
    rw [toNat_mul_of_lt, hsub]
    rw [hsub]
    omega
  constructor
  · rw [clusterToSector, toNat_add_of_lt, hprod, clusterSector]
    rw [hprod]
    omega
  · rw [clusterSector]
    omega

variable (g) in
lemma readSector_ok {sector : UInt32} (h : InBounds g sector) (disk out : Memory) :
    readSector g disk sector out =
      .ok (copyTo out 0 (shift disk (sector.toNat * g.bps.toNat)) g.bps.toNat) := by
  have he := readSector_exact h.noWrap disk out
  simpa only [Command.Exact, if_pos h] using he

variable (g) in
lemma writeSector_ok {sector : UInt32} (h : InBounds g sector) (disk data : Memory) :
    writeSector g disk sector data =
      .ok (copyTo disk (sector.toNat * g.bps.toNat) data g.bps.toNat) := by
  have he := writeSector_exact h.noWrap disk data
  simpa only [Command.Exact, if_pos h] using he

variable (g) in
lemma run_read_ok {sector : UInt32} (h : InBounds g sector) (out : Memory) (s : State) :
    (read sector out).run (handler g) s =
      (.ok (copyTo out 0 (shift s.disk (sector.toNat * g.bps.toNat)) g.bps.toNat), s) := by
  rw [run_read, readSector_ok g h]
  rfl

variable (g) in
lemma run_write_ok {sector : UInt32} (h : InBounds g sector) (data : Memory) (s : State) :
    (write sector data).run (handler g) s =
      (.ok (), { s with disk := copyTo s.disk (sector.toNat * g.bps.toNat) data g.bps.toNat }) := by
  rw [run_write, writeSector_ok g h]

lemma copyTo_read (out disk : Memory) (a : ℕ) {i b : ℕ} (h : i < b) :
    copyTo out 0 (shift disk a) b i = disk (a + i) := by
  have hi := copyTo_inside out (shift disk a) 0 b i h
  rwa [Nat.zero_add, shift_apply] at hi

end Sectors

end SBoy28.Fat32
