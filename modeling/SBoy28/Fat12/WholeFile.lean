import SBoy28.Fat12.Readers

/-!
# What `readFileRAM` reports

The loop ends when the bytes of the file are copied or when the chain ends, and the result is the same. It
also follows a chain through the numbers 0 and 1, which are no clusters.
-/

namespace SBoy28.Fat12
open Lib Program

section Specification

/-- Where the data of cluster `c` begins, without wrapping around. -/
def Globals.clusterPosition (g : Globals) (c : ℕ) : ℕ :=
  (g.rootDirectoryEnd.toNat + (c - 2) * g.bootSector.sectorsPerCluster.toNat) * g.bootSector.sectorSize

def RAMDisk.dataAt (disk : RAMDisk) (g : Globals) (c : ℕ) : List UInt8 :=
  (List.range g.bootSector.clusterBytes).map fun i => disk.bytes (g.clusterPosition c + i)

/-- The data of the first `n` clusters of a chain. -/
def RAMDisk.chainData (disk : RAMDisk) (g : Globals) (first : UInt16) (n : ℕ) : List UInt8 :=
  (List.range n).flatMap fun j => disk.dataAt g (disk.clusterAt g first j).toNat

def IsData (c : UInt16) : Prop := 2 ≤ c.toNat ∧ c.toNat < 0xFF8

variable (disk : RAMDisk) (g : Globals) (e : UInt32)

/-- `FirstClusterLow` and `Size` of the entry at `e`. -/
def RAMDisk.firstCluster : UInt16 := disk.word (e + 26)

def RAMDisk.fileSize : ℕ := (disk.dword (e + 28)).toNat

/-- The output is the whole file, from data clusters of its chain. -/
structure WholeFile (outputBuffer : UInt32) (out : List UInt8) : Prop where
  buffer : outputBuffer ≠ 0
  length : out.length = disk.fileSize e
  chain : ∃ n, (∀ j < n, IsData (disk.clusterAt g (disk.firstCluster e) j)) ∧
    out = (disk.chainData g (disk.firstCluster e) n).take (disk.fileSize e)

/-- `readFileRAM` ends, and returns `true` just if it has copied the whole file. -/
def ReportsWholeFile (outputBuffer : UInt32) : Prop :=
  ∃ r, (∀ fuel, disk.fileSize e < fuel →
    (readFileRAM g fuel (some e) outputBuffer).outcome disk.byte = .ok r) ∧
      (r.1 = true ↔ WholeFile disk g e outputBuffer r.2)

/-- The data clusters that are read lie on the disk. -/
def DataInside : Prop :=
  ∀ j, j * g.bootSector.clusterBytes < disk.fileSize e →
    (∀ l ≤ j, IsData (disk.clusterAt g (disk.firstCluster e) l)) →
      g.clusterPosition (disk.clusterAt g (disk.firstCluster e) j).toNat +
        min g.bootSector.clusterBytes (disk.fileSize e - j * g.bootSector.clusterBytes) ≤ disk.size.toNat

/-- The chain has a data cluster for each cluster's worth of the file. -/
def ChainCovers : Prop :=
  ∀ j, j * g.bootSector.clusterBytes < disk.fileSize e → IsData (disk.clusterAt g (disk.firstCluster e) j)

end Specification

variable {disk : RAMDisk} {g : Globals} {e : UInt32} {size k n : ℕ}

section Copies

/-- Pieces of one length may be cut to a size one by one. -/
lemma take_flatMap_range {α : Type*} {F : ℕ → List α} (hF : ∀ j, (F j).length = k) (n size : ℕ) :
    ((List.range n).flatMap F).take size = (List.range n).flatMap fun j => (F j).take (size - j * k) := by
  induction n generalizing F size with
  | zero => simp
  | succ n ih =>
    rw [List.range_succ_eq_map, List.flatMap_cons, List.flatMap_cons, List.take_append, hF, List.flatMap_map,
      List.flatMap_map, ih (fun j => hF (j + 1)), Nat.zero_mul, Nat.sub_zero]
    congr 1
    refine List.flatMap_congr fun j _ => ?_
    rw [Nat.sub_sub, Nat.add_comm k, ← Nat.add_one_mul]

lemma length_flatMap_range {α : Type*} {F : ℕ → List α} (hF : ∀ j, (F j).length = k) (n : ℕ) :
    ((List.range n).flatMap F).length = n * k := by
  simp only [List.length_flatMap, hF, List.map_const', List.length_range, List.sum_replicate_nat]

/-- The bytes at the position that the loop computes for a cluster. -/
def RAMDisk.rawCluster (disk : RAMDisk) (g : Globals) (c : UInt16) : List UInt8 :=
  (List.range g.bootSector.clusterBytes).map fun i => disk.byte (g.clusterOffset c + UInt32.ofNat i)

/-- The clusters that the loop takes, before it stops for one reason or the other. -/
structure Turns (disk : RAMDisk) (g : Globals) (first : UInt16) (size n : ℕ) : Prop where
  live : ∀ j < n, disk.clusterAt g first j < endOfChain ∧ j * g.bootSector.clusterBytes < size
  stop : ¬disk.clusterAt g first n < endOfChain ∨ size ≤ n * g.bootSector.clusterBytes

lemma turns_succ {first : UInt16} (hlive : first < endOfChain ∧ 0 < size)
    (h : Turns disk g (disk.nextCluster g first) (size - g.bootSector.clusterBytes) n) :
    Turns disk g first size (n + 1) := by
  constructor
  · intro j hj
    cases j with
    | zero => exact ⟨hlive.1, by omega⟩
    | succ j =>
      obtain ⟨hc, hlt⟩ := h.live j (by omega)
      rw [Nat.add_one_mul]
      exact ⟨hc, by omega⟩
  · rw [clusterAt_succ, Nat.add_one_mul]
    refine h.stop.imp_right fun hle => ?_
    omega

/-- The loop ends, and has copied the clusters of its turns up to the size. -/
theorem readFileRAMLoop_copies (disk : RAMDisk) (g : Globals) (hcb : 1 ≤ g.bootSector.clusterBytes) (size : ℕ)
    {remaining : UInt32} (hsize : remaining.toNat = size) (first : UInt16) :
    ∃ n, Turns disk g first size n ∧ ∀ fuel, size < fuel → ∀ out,
      (readFileRAMLoop g fuel first remaining out).outcome disk.byte =
        .ok (out ++ ((List.range n).flatMap fun j => disk.rawCluster g (disk.clusterAt g first j)).take size) := by
  induction size using Nat.strongRecOn generalizing remaining first with
  | _ size ih =>
    have hpos : 0 < remaining ↔ 0 < size := by
      rw [UInt32.lt_iff_toNat_lt, hsize]
      rfl
    by_cases hlive : first < endOfChain ∧ 0 < remaining
    · obtain ⟨hread, hrest⟩ := bytesToRead_toNat g.bootSector remaining
      rw [clusterSize_toNat, hsize] at hread hrest
      have hsmaller : size - g.bootSector.clusterBytes < size := by
        have := hpos.mp hlive.2
        omega
      obtain ⟨n, hturns, hcopies⟩ := ih _ hsmaller hrest (disk.nextCluster g first)
      refine ⟨n + 1, turns_succ ⟨hlive.1, hpos.mp hlive.2⟩ hturns, fun fuel hfuel out => ?_⟩
      obtain ⟨fuel, rfl⟩ : ∃ m, fuel = m + 1 := ⟨fuel - 1, by omega⟩
      have hdata := (kmemcpy_reads disk (g.clusterOffset first)
        (if g.bootSector.clusterSize > remaining then remaining else g.bootSector.clusterSize).toNat).1
      rw [hread] at hdata
      have hcut : ((List.range (min g.bootSector.clusterBytes size)).map
          fun i => disk.byte (g.clusterOffset first + UInt32.ofNat i)) = (disk.rawCluster g first).take size := by
        rw [RAMDisk.rawCluster, ← List.map_take, List.take_range, Nat.min_comm]
      rw [hcut, ← hread] at hdata
      have hstep : (readFileRAMLoop g (fuel + 1) first remaining out).outcome disk.byte =
          (readFileRAMLoop g fuel (disk.nextCluster g first)
            (remaining - if g.bootSector.clusterSize > remaining then remaining else g.bootSector.clusterSize)
            (out ++ (disk.rawCluster g first).take size)).outcome disk.byte := by
        rw [readFileRAMLoop, if_pos hlive]
        exact (outcome_bind hdata).trans (outcome_bind (outcome_read16 disk (g.fatOffset first)))
      have hlength : (disk.rawCluster g first).length = g.bootSector.clusterBytes := by simp [RAMDisk.rawCluster]
      rw [hstep, hcopies fuel (by omega), List.range_succ_eq_map, List.flatMap_cons, List.take_append,
        clusterAt_zero, hlength, List.flatMap_map, List.append_assoc]
      rfl
    · refine ⟨0, ⟨fun j hj => absurd hj (Nat.not_lt_zero j), ?_⟩, fun fuel hfuel out => ?_⟩
      · rw [hpos, not_and_or] at hlive
        rw [clusterAt_zero, Nat.zero_mul]
        exact hlive.imp_right Nat.le_of_not_lt
      · obtain ⟨fuel, rfl⟩ : ∃ m, fuel = m + 1 := ⟨fuel - 1, by omega⟩
        rw [readFileRAMLoop, if_neg hlive, outcome_pure]
        simp

end Copies

section Reports

variable {outputBuffer : UInt32}

lemma rawCluster_take (hb : 1 ≤ g.bootSector.sectorSize) {c : UInt16} (hc : IsData c) {m : ℕ} (hm : 0 < m)
    (hin : g.clusterPosition c.toNat + min g.bootSector.clusterBytes m ≤ disk.size.toNat)
    (hcb : 1 ≤ g.bootSector.clusterBytes) : (disk.rawCluster g c).take m = (disk.dataAt g c.toNat).take m := by
  have hsize := disk.size.toNat_lt
  have hpos : (g.clusterOffset c).toNat = g.clusterPosition c.toNat :=
    clusterOffset_of_lt hb hc.1 (by rw [← Globals.clusterPosition]; omega)
  rw [RAMDisk.rawCluster, RAMDisk.dataAt, ← List.map_take, ← List.map_take, List.take_range]
  refine List.map_congr_left fun i hi => ?_
  have hi' := List.mem_range.mp hi
  have hi32 : (UInt32.ofNat i).toNat = i := toNat_ofNat_of_lt (by omega)
  rw [RAMDisk.byte, toNat_add_of_lt] <;> rw [hi32, hpos]
  omega

lemma WholeFile.covers {out : List UInt8} (h : WholeFile disk g e outputBuffer out) : ChainCovers disk g e := by
  obtain ⟨n, hdata, rfl⟩ := h.chain
  have hlen : ∀ j, (disk.dataAt g (disk.clusterAt g (disk.firstCluster e) j).toNat).length =
      g.bootSector.clusterBytes := fun j => by simp [RAMDisk.dataAt]
  have hlength := h.length
  rw [List.length_take, RAMDisk.chainData, length_flatMap_range hlen] at hlength
  intro j hj
  refine hdata j ?_
  by_contra hge
  have hle := Nat.mul_le_mul_right g.bootSector.clusterBytes (Nat.le_of_not_lt hge)
  omega

/-- If the chain covers the file, the loop copies all of it. -/
lemma wholeFile_of_covers (hb : 1 ≤ g.bootSector.sectorSize) (hcb : 1 ≤ g.bootSector.clusterBytes)
    (hin : DataInside disk g e) (hcovers : ChainCovers disk g e) (hbuf : outputBuffer ≠ 0)
    (hturns : Turns disk g (disk.firstCluster e) (disk.fileSize e) n) :
    WholeFile disk g e outputBuffer (((List.range n).flatMap fun j =>
      disk.rawCluster g (disk.clusterAt g (disk.firstCluster e) j)).take (disk.fileSize e)) := by
  have hdata : ∀ j < n, IsData (disk.clusterAt g (disk.firstCluster e) j) :=
    fun j hj => hcovers j (hturns.live j hj).2
  have hraw : ∀ j, (disk.rawCluster g (disk.clusterAt g (disk.firstCluster e) j)).length =
      g.bootSector.clusterBytes := fun j => by simp [RAMDisk.rawCluster]
  have hlen : ∀ j, (disk.dataAt g (disk.clusterAt g (disk.firstCluster e) j).toNat).length =
      g.bootSector.clusterBytes := fun j => by simp [RAMDisk.dataAt]
  have hend : disk.fileSize e ≤ n * g.bootSector.clusterBytes := by
    by_contra hshort
    have hlast := hcovers n (Nat.lt_of_not_le hshort)
    rcases hturns.stop with hstop | hle
    · exact hstop (UInt16.lt_iff_toNat_lt.mpr hlast.2)
    · exact hshort hle
  refine ⟨hbuf, ?_, n, hdata, ?_⟩
  · rw [List.length_take, length_flatMap_range hraw]
    omega
  · rw [RAMDisk.chainData, take_flatMap_range hraw, take_flatMap_range hlen]
    refine List.flatMap_congr fun j hj => ?_
    have hj' := hturns.live j (List.mem_range.mp hj)
    refine rawCluster_take hb (hdata j (List.mem_range.mp hj)) (by omega) (hin j hj'.2 fun l hl => ?_) hcb
    exact hdata l (Nat.lt_of_le_of_lt hl (List.mem_range.mp hj))

lemma readFileRAM_copies (disk : RAMDisk) (hcb : 1 ≤ g.bootSector.clusterBytes) (e : UInt32)
    (hbuf : outputBuffer ≠ 0) :
    ∃ n, Turns disk g (disk.firstCluster e) (disk.fileSize e) n ∧ ∀ fuel, disk.fileSize e < fuel →
      (readFileRAM g fuel (some e) outputBuffer).outcome disk.byte = .ok (true, ((List.range n).flatMap fun j =>
        disk.rawCluster g (disk.clusterAt g (disk.firstCluster e) j)).take (disk.fileSize e)) := by
  obtain ⟨n, hturns, hcopies⟩ := readFileRAMLoop_copies disk g hcb (disk.fileSize e) rfl (disk.firstCluster e)
  refine ⟨n, hturns, fun fuel hfuel => ?_⟩
  rw [readFileRAM]
  simp only [if_neg hbuf]
  rw [outcome_bind (outcome_read16 disk _), outcome_bind (outcome_read32 disk _)]
  exact outcome_bind (hcopies fuel hfuel [])

lemma covers_of_reports (hcb : 1 ≤ g.bootSector.clusterBytes) (hbuf : outputBuffer ≠ 0)
    (h : ReportsWholeFile disk g e outputBuffer) : ChainCovers disk g e := by
  obtain ⟨n, -, hrun⟩ := readFileRAM_copies disk hcb e hbuf
  obtain ⟨r, hr, hiff⟩ := h
  have hsame := (hrun _ (Nat.lt_succ_self _)).symm.trans (hr _ (Nat.lt_succ_self _))
  cases hsame
  exact (hiff.mp rfl).covers

/-- `readFileRAM` reports the whole file just if there is no buffer or the chain covers the file. -/
theorem reports_whole_iff (hspc : 1 ≤ g.bootSector.sectorsPerCluster.toNat) (hb : 1 ≤ g.bootSector.sectorSize)
    (hin : DataInside disk g e) (outputBuffer : UInt32) :
    ReportsWholeFile disk g e outputBuffer ↔ outputBuffer = 0 ∨ ChainCovers disk g e := by
  have hcb : 1 ≤ g.bootSector.clusterBytes := Nat.mul_pos hspc hb
  by_cases hbuf : outputBuffer = 0
  · refine iff_of_true ⟨(false, []), fun fuel _ => ?_, ?_⟩ (Or.inl hbuf)
    · rw [readFileRAM]
      simp only [if_pos hbuf, outcome_pure]
    · exact iff_of_false Bool.false_ne_true fun h => h.buffer hbuf
  rw [or_iff_right hbuf]
  refine ⟨covers_of_reports hcb hbuf, fun hcovers => ?_⟩
  obtain ⟨n, hturns, hrun⟩ := readFileRAM_copies disk hcb e hbuf
  exact ⟨_, hrun, iff_of_true rfl (wholeFile_of_covers hb hcb hin hcovers hbuf hturns)⟩

variable (cluster size : UInt8)

lemma floppy_fields :
    ((floppy floppyTable cluster size).firstCluster ((floppy floppyTable cluster size).globals.entry 0)).toNat =
        cluster.toNat ∧
      (floppy floppyTable cluster size).fileSize ((floppy floppyTable cluster size).globals.entry 0) =
        size.toNat := by
  have hfields := entry_fields (floppy_wellFormed floppyTable cluster size) (i := 0) (by
    rw [floppy_boot]
    decide)
  rw [(floppy_entry floppyTable cluster size).1, (floppy_entry floppyTable cluster size).2] at hfields
  exact hfields

lemma floppy_clusterBytes : (floppy floppyTable cluster size).globals.bootSector.clusterBytes = 512 := by
  rw [RAMDisk.globals, floppy_boot]
  rfl

/-- Only the first turn of the loop has bytes to copy. -/
lemma floppy_turn {j : ℕ} (hj : j * (floppy floppyTable cluster size).globals.bootSector.clusterBytes <
    (floppy floppyTable cluster size).fileSize ((floppy floppyTable cluster size).globals.entry 0)) : j = 0 := by
  have hsize := size.toNat_lt
  rw [floppy_clusterBytes, (floppy_fields cluster size).2] at hj
  omega

theorem reports_whole_floppy : ReportsWholeFile (floppy floppyTable 2 5) (floppy floppyTable 2 5).globals
    ((floppy floppyTable 2 5).globals.entry 0) 0x1000 := by
  have hwf := floppy_wellFormed floppyTable 2 5
  have hfirst := (floppy_fields 2 5).1
  refine (reports_whole_iff hwf.clusterSize hwf.sectorSize ?_ _).mpr (Or.inr ?_)
  · intro j hj _
    obtain rfl := floppy_turn 2 5 hj
    rw [clusterAt_zero, hfirst, floppy_clusterBytes, (floppy_fields 2 5).2, Globals.clusterPosition, floppy_rootEnd,
      floppy_size, RAMDisk.globals, floppy_boot]
    decide
  · intro j hj
    obtain rfl := floppy_turn 2 5 hj
    rw [clusterAt_zero, IsData, hfirst]
    decide

/-- A file of 5 bytes without a cluster is read from the sectors before the data, and reported. -/
theorem reports_whole_reserved :
    (floppy floppyTable 0 5).Runs (readFileRAM (floppy floppyTable 0 5).globals 6
      (some ((floppy floppyTable 0 5).globals.entry 0)) 0x1000) ∧
    ¬ReportsWholeFile (floppy floppyTable 0 5) (floppy floppyTable 0 5).globals
      ((floppy floppyTable 0 5).globals.entry 0) 0x1000 := by
  have hfirst := (floppy_fields 0 5).1
  have hsize := (floppy_fields 0 5).2
  have hcb := floppy_clusterBytes 0 5
  constructor
  · have hentry : (floppy floppyTable 0 5).globals.entry 0 = 9728 := by
      rw [Globals.entry, RAMDisk.globals, floppy_boot]
      decide
    have hzero : (floppy floppyTable 0 5).word ((floppy floppyTable 0 5).globals.entry 0 + 26) = 0 :=
      UInt16.toNat_inj.mp hfirst
    have hfive : ((floppy floppyTable 0 5).dword ((floppy floppyTable 0 5).globals.entry 0 + 28)).toNat = 5 := hsize
    rw [readFileRAM_runs _ _ _ _ (by decide), hzero, hfive, hentry]
    refine ⟨?_, 1, by decide, (hasClusters_succ _ _).mpr ⟨by decide, ?_, ?_, (hasClusters_zero _ _).mpr ?_⟩⟩
    · rw [RAMDisk.Has, floppy_size]
      decide
    · rw [RAMDisk.Has, floppy_size, Globals.clusterOffset, floppy_rootEnd, RAMDisk.globals, floppy_boot]
      decide
    · rw [RAMDisk.Has, floppy_size, Globals.fatOffset, RAMDisk.globals, floppy_boot]
      decide
    · rw [RAMDisk.globals, floppy_boot]
      rintro ⟨-, hpos⟩
      exact absurd hpos (by decide)
  · intro hreports
    have hcovers := covers_of_reports (by rw [hcb]; decide) (by decide) hreports 0 (by rw [hsize]; decide)
    rw [clusterAt_zero, IsData, hfirst] at hcovers
    exact absurd hcovers.1 (by decide)

end Reports

end SBoy28.Fat12
