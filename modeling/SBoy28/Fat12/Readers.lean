import SBoy28.Fat12.Image

/-!
# The two readers on a well-formed image

Both readers follow the chain of a file. The one in memory stops when the file has its bytes, the
tool of the host when the chain ends, and it reads a first cluster before it looks whether there is
one.
-/

namespace SBoy28.Fat12
open Lib Program

variable {disk : RAMDisk} {table : ℕ → Fin 4096}

section InMemory

lemma clusterSize_toNat (b : BootSector) : b.clusterSize.toNat = b.clusterBytes := by
  have h1 := b.sectorsPerCluster.toNat_lt
  have h2 := b.bytesPerSector.toNat_lt
  have hle : b.sectorsPerCluster.toNat * b.bytesPerSector.toNat ≤ 255 * 65535 :=
    Nat.mul_le_mul (by omega) (by omega)
  rw [BootSector.clusterSize, toNat_mul_of_lt] <;> rw [spc_toNat, bps_toNat]
  · rfl
  · rw [BootSector.sectorSize]
    omega

lemma ceil_step {n k : ℕ} (hn : 0 < n) (hk : 0 < k) : (n + k - 1) / k = (n - k + k - 1) / k + 1 := by
  have hstep : n + k - 1 = n - 1 + k := by omega
  rw [hstep, Nat.add_div_right _ hk, Nat.add_right_cancel_iff]
  by_cases hle : k ≤ n
  · rw [Nat.sub_add_cancel hle]
  · rw [Nat.div_eq_of_lt (by omega), Nat.div_eq_of_lt (by omega)]

lemma clusterData_length (c : ℕ) : (clusterData disk c).length = disk.boot.clusterBytes := by
  simp [clusterData]

lemma fileData_cons (c : ℕ) (chain : List ℕ) (size : ℕ) :
    fileData disk (c :: chain) size =
      (clusterData disk c).take size ++ fileData disk chain (size - disk.boot.clusterBytes) := by
  rw [fileData, List.flatMap_cons, List.take_append, clusterData_length]
  rfl

lemma kmemcpy_cluster {off : UInt32} {c : ℕ} (hoff : off.toNat = disk.boot.clusterStart c) (hc : InRange disk c)
    (size : ℕ) :
    ((List.range (min disk.boot.clusterBytes size)).map fun i => disk.byte (off + UInt32.ofNat i)) =
      (clusterData disk c).take size := by
  have hdata := hc.data
  have hsize := disk.size.toNat_lt
  rw [clusterData, ← List.map_take, List.take_range, Nat.min_comm]
  apply List.map_congr_left
  intro i hi
  have hi' := List.mem_range.mp hi
  have hlt : i < disk.boot.clusterBytes := by omega
  have hi32 : (UInt32.ofNat i).toNat = i := toNat_ofNat_of_lt (by omega)
  rw [RAMDisk.byte, toNat_add_of_lt] <;> rw [hi32, hoff]
  omega

lemma clusterOffset_ram (hwf : WellFormed disk table) {c : UInt16} (hc : InRange disk c.toNat) :
    (disk.globals.clusterOffset c).toNat = disk.boot.clusterStart c.toNat :=
  clusterOffset_toNat hwf hwf.rootEnd_toNat hc

/-- Behind its first cluster a chain goes on just if there are bytes left. -/
lemma linked_tail {size k c : ℕ} {l : List ℕ} (hk : 0 < k) (hsize : size ≠ 0)
    (hl : Linked (chainNext table) (chainNext table c) l)
    (hlen : (c :: l).length = (size + k - 1) / k) :
    Linked (chainNext table) (if size - k = 0 then none else some (table c).val) l ∧
      l.length = (size - k + k - 1) / k := by
  rw [List.length_cons, ceil_step (Nat.pos_of_ne_zero hsize) hk, Nat.add_right_cancel_iff] at hlen
  refine ⟨?_, hlen⟩
  split
  · rename_i h0
    rw [h0, Nat.zero_add, Nat.div_eq_of_lt (by omega)] at hlen
    rw [List.length_eq_zero_iff.mp hlen, linked_nil]
  · rename_i hne
    have hl0 : l.length ≠ 0 := by
      rw [hlen]
      exact Nat.ne_of_gt (Nat.div_pos (by omega) hk)
    rw [chainNext] at hl
    split at hl
    · exact absurd (List.length_eq_zero_iff.mpr hl.eq_nil) hl0
    · exact hl

lemma readFileRAMLoop_cluster (hwf : WellFormed disk table) {c : UInt16} (hc : InRange disk c.toNat)
    {remaining : UInt32} (hne : remaining.toNat ≠ 0) :
    ∃ remaining' : UInt32, remaining'.toNat = remaining.toNat - disk.boot.clusterBytes ∧
      ∀ fuel out, (readFileRAMLoop disk.globals (fuel + 1) c remaining out).outcome disk.byte =
        (readFileRAMLoop disk.globals fuel (disk.nextCluster disk.globals c) remaining'
          (out ++ (clusterData disk c.toNat).take remaining.toNat)).outcome disk.byte := by
  have hlive : c < endOfChain ∧ 0 < remaining :=
    ⟨UInt16.lt_iff_toNat_lt.mpr hc.last, UInt32.lt_iff_toNat_lt.mpr (Nat.pos_of_ne_zero hne)⟩
  obtain ⟨hread, hrest⟩ := bytesToRead_toNat disk.boot remaining
  rw [clusterSize_toNat] at hread hrest
  refine ⟨_, hrest, fun fuel out => ?_⟩
  have hdata := (kmemcpy_reads disk (disk.globals.clusterOffset c)
    (if disk.boot.clusterSize > remaining then remaining else disk.boot.clusterSize).toNat).1
  rw [hread, kmemcpy_cluster (clusterOffset_ram hwf hc) hc, ← hread] at hdata
  rw [readFileRAMLoop, if_pos hlive]
  exact (outcome_bind hdata).trans (outcome_bind (outcome_read16 disk (disk.globals.fatOffset c)))

/-- The loop of `readFileRAM` copies the file. -/
theorem readFileRAMLoop_chain (hwf : WellFormed disk table) {chain : List ℕ} {c : UInt16}
    {remaining : UInt32}
    (hl : Linked (chainNext table) (if remaining.toNat = 0 then none else some c.toNat) chain)
    (hr : ∀ c ∈ chain, InRange disk c)
    (hlen : chain.length = (remaining.toNat + disk.boot.clusterBytes - 1) / disk.boot.clusterBytes)
    {fuel : ℕ} (hfuel : chain.length < fuel) (out : List UInt8) :
    (readFileRAMLoop disk.globals fuel c remaining out).outcome disk.byte =
      .ok (out ++ fileData disk chain remaining.toNat) := by
  have hcb : 0 < disk.boot.clusterBytes := Nat.mul_pos hwf.clusterSize hwf.sectorSize
  induction chain generalizing c remaining out fuel with
  | nil =>
    obtain ⟨fuel, rfl⟩ : ∃ k, fuel = k + 1 := ⟨fuel - 1, by simp at hfuel; omega⟩
    have h0 : remaining.toNat = 0 := by
      by_contra hne
      rw [if_neg hne] at hl
      cases hl
    have hnot : ¬(c < endOfChain ∧ 0 < remaining) := by
      rw [UInt32.lt_iff_toNat_lt, h0]
      exact fun h => absurd h.2 (Nat.lt_irrefl 0)
    rw [readFileRAMLoop, if_neg hnot, outcome_pure]
    simp [fileData]
  | cons a l ih =>
    obtain ⟨fuel, rfl⟩ : ∃ k, fuel = k + 1 := ⟨fuel - 1, by simp at hfuel; omega⟩
    obtain ⟨hhead, htail⟩ := linked_cons.mp hl
    have hne : remaining.toNat ≠ 0 := by
      intro h0
      rw [if_pos h0] at hhead
      cases hhead
    rw [if_neg hne, Option.some.injEq] at hhead
    subst hhead
    have hc := hr c.toNat List.mem_cons_self
    obtain ⟨remaining', hrest, hturn⟩ := readFileRAMLoop_cluster hwf hc hne
    obtain ⟨htail, hlen⟩ := linked_tail hcb hne htail hlen
    rw [← hrest, ← hwf.nextCluster hc] at htail
    rw [← hrest] at hlen
    rw [hturn, ih htail (fun a ha => hr a (List.mem_cons_of_mem _ ha)) hlen (by simpa using hfuel),
      fileData_cons, List.append_assoc, hrest]

lemma rootEntries_le {b : BootSector} (hb : 1 ≤ b.sectorSize) :
    b.rootStart + 32 * b.dirEntryCount.toNat ≤ b.dataStart := by
  have hdiv := Nat.div_add_mod' (32 * b.dirEntryCount.toNat + b.sectorSize - 1) b.sectorSize
  have hmod := Nat.mod_lt (32 * b.dirEntryCount.toNat + b.sectorSize - 1) hb
  have hceil : b.rootSectors * b.sectorSize = (32 * b.dirEntryCount.toNat + b.sectorSize - 1) /
      b.sectorSize * b.sectorSize := rfl
  rw [BootSector.dataStart, BootSector.rootStart, Nat.add_mul]
  omega

lemma entry_toNat (hwf : WellFormed disk table) {i : ℕ} (hi : i < disk.boot.dirEntryCount.toNat) :
    (disk.globals.entry i).toNat = entryStart disk i ∧ entryStart disk i + 32 ≤ disk.size.toNat := by
  have hroot := rootEntries_le hwf.sectorSize
  have hin := hwf.rootInside
  have hsize := disk.size.toNat_lt
  have hstart : entryStart disk i = disk.boot.rootStart + 32 * i := rfl
  have h32 : sizeofDirectoryEntry.toNat = 32 := rfl
  have hi32 : (UInt32.ofNat i).toNat = i := toNat_ofNat_of_lt (by omega)
  have hmul : (sizeofDirectoryEntry * UInt32.ofNat i).toNat = 32 * i := by
    rw [toNat_mul_of_lt] <;> rw [h32, hi32]
    omega
  refine ⟨?_, by omega⟩
  rw [Globals.entry, toNat_add_of_lt] <;> rw [hwf.root_toNat, hmul]
  · rfl
  · omega

lemma entry_fields (hwf : WellFormed disk table) {i : ℕ} (hi : i < disk.boot.dirEntryCount.toNat) :
    (disk.word (disk.globals.entry i + 26)).toNat = entryCluster disk i ∧
      (disk.dword (disk.globals.entry i + 28)).toNat = entrySize disk i := by
  obtain ⟨hentry, hin⟩ := entry_toNat hwf hi
  have hsize := disk.size.toNat_lt
  have h26 : (disk.globals.entry i + 26).toNat = entryStart disk i + 26 := by
    have h : (26 : UInt32).toNat = 26 := rfl
    rw [toNat_add_of_lt (by omega), hentry, h]
  have h28 : (disk.globals.entry i + 28).toNat = entryStart disk i + 28 := by
    have h : (28 : UInt32).toNat = 28 := rfl
    rw [toNat_add_of_lt (by omega), hentry, h]
  constructor
  · rw [word_eq_load16 (by omega), h26]
    rfl
  · rw [dword_eq_load32 (by omega), h28]
    rfl

theorem readFileRAM_file (hwf : WellFormed disk table) {i : ℕ} {chain : List ℕ}
    (hf : FileAt disk table i chain) {outputBuffer : UInt32} (hbuf : outputBuffer ≠ 0) {fuel : ℕ}
    (hfuel : chain.length < fuel) :
    (readFileRAM disk.globals fuel (some (disk.globals.entry i)) outputBuffer).outcome disk.byte =
      .ok (true, fileData disk chain (entrySize disk i)) := by
  obtain ⟨hcluster, hsize⟩ := entry_fields hwf hf.entry
  have hlinked := hf.linked
  have hlength := hf.length
  rw [← hcluster, ← hsize] at hlinked
  rw [← hsize] at hlength
  have hcopy := readFileRAMLoop_chain hwf hlinked hf.range hlength hfuel []
  rw [readFileRAM]
  simp only [if_neg hbuf]
  rw [outcome_bind (outcome_read16 disk _), outcome_bind (outcome_read32 disk _), outcome_bind hcopy,
    hsize, List.nil_append, outcome_pure]

end InMemory

section HostTool

/-- The disk as an image file. -/
def RAMDisk.image (disk : RAMDisk) : DiskImage := ⟨disk.bytes, disk.size.toNat⟩

/-- `n` bytes of the disk from `a` on. -/
def RAMDisk.bytesAt (disk : RAMDisk) (a n : ℕ) : List UInt8 := (List.range n).map fun i => disk.bytes (a + i)

/-- The sectors of a cluster lie in the image, at the position that `readFile` computes. -/
def ToolGlobals.Inside (g : ToolGlobals) (image : DiskImage) (c : UInt16) : Prop :=
  ((g.rootDirectoryEnd + (c.toUInt32 - 2) * g.bootSector.spc) * g.bootSector.bps).toNat +
    g.bootSector.clusterBytes ≤ image.length

instance (g : ToolGlobals) (image : DiskImage) (c : UInt16) : Decidable (g.Inside image c) :=
  inferInstanceAs (Decidable (_ ≤ _))

/-- The entry of a cluster in the FAT of the tool. -/
def ToolGlobals.entry (g : ToolGlobals) (c : UInt16) : UInt16 :=
  entryOf c (load16 g.fat (c.toNat + c.toNat / 2))

/-- The cluster behind this one, if it is not the last one. -/
def ToolGlobals.link (g : ToolGlobals) (c : UInt16) : Option UInt16 :=
  if g.entry c < endOfChain then some (g.entry c) else none

def ToolGlobals.clusterData (g : ToolGlobals) (image : DiskImage) (c : UInt16) : List UInt8 :=
  (List.range g.bootSector.clusterBytes).map fun i => image.bytes
    (((g.rootDirectoryEnd + (c.toUInt32 - 2) * g.bootSector.spc) * g.bootSector.bps).toNat + i)

variable {image : DiskImage} {b : BootSector} {g : ToolGlobals}

lemma readSectors_inside (hb : 1 ≤ b.sectorSize) (lba count : UInt32)
    (h : (lba * b.bps).toNat + count.toNat * b.sectorSize ≤ image.length) :
    readSectors image b lba count =
      (true, (List.range (count.toNat * b.sectorSize)).map fun i => image.bytes ((lba * b.bps).toNat + i)) := by
  have hne : b.sectorSize ≠ 0 := by omega
  have hitems : count.toNat ≤ (image.length - (lba * b.bps).toNat) / b.sectorSize :=
    (Nat.le_div_iff_mul_le hb).mpr (by omega)
  simp only [readSectors, fread, bps_toNat, if_neg hne, Nat.min_eq_left hitems, decide_true]

lemma readSectors_outside (hb : 1 ≤ b.sectorSize) (lba : UInt32) {count : UInt32} (hcount : 1 ≤ count.toNat)
    (h : ¬(lba * b.bps).toNat + count.toNat * b.sectorSize ≤ image.length) :
    (readSectors image b lba count).1 = false := by
  have hne : b.sectorSize ≠ 0 := by omega
  have hpos : 0 < count.toNat * b.sectorSize := Nat.mul_pos hcount hb
  have hitems : (image.length - (lba * b.bps).toNat) / b.sectorSize < count.toNat :=
    (Nat.div_lt_iff_lt_mul hb).mpr (by omega)
  simp only [readSectors, fread, bps_toNat, if_neg hne, Nat.min_eq_right (Nat.le_of_lt hitems),
    decide_eq_false_iff_not]
  omega

lemma fatIndex_toNat (c : UInt16) : (c.toUInt32 * 3 / 2).toNat = c.toNat + c.toNat / 2 := by
  have hc := c.toNat_lt
  have h2 : (2 : UInt32).toNat = 2 := rfl
  have h3 : (3 : UInt32).toNat = 3 := rfl
  have hmul : (c.toUInt32 * 3).toNat = c.toNat * 3 := by
    rw [toNat_mul_of_lt] <;> rw [UInt16.toNat_toUInt32, h3]
    omega
  rw [UInt32.toNat_div, hmul, h2]
  omega

/-- One turn of the loop of `readFile` that finds its sectors. -/
lemma readFileLoop_inside (hb : 1 ≤ g.bootSector.sectorSize) {c : UInt16} (hc : g.Inside image c)
    (fuel : ℕ) (out : List UInt8) :
    readFileLoop g image (fuel + 1) c true out =
      match g.link c with
      | some next => readFileLoop g image fuel next true (out ++ g.clusterData image c)
      | none => some (true, out ++ g.clusterData image c) := by
  have hread := readSectors_inside hb (g.rootDirectoryEnd + (c.toUInt32 - 2) * g.bootSector.spc)
    g.bootSector.spc (by rw [spc_toNat]; exact hc)
  rw [spc_toNat] at hread
  simp only [readFileLoop, if_true, hread, Bool.true_and, true_and, fatIndex_toNat, entryOf_tool]
  simp only [ToolGlobals.link]
  by_cases hnext : g.entry c < endOfChain
  · rw [if_pos hnext]
    exact if_pos hnext
  · rw [if_neg hnext]
    exact if_neg hnext

/-- A turn that does not is the last one. -/
lemma readFileLoop_outside (hb : 1 ≤ g.bootSector.sectorSize)
    (hspc : 1 ≤ g.bootSector.sectorsPerCluster.toNat) {c : UInt16} (hc : ¬g.Inside image c)
    (fuel : ℕ) (out : List UInt8) :
    ∃ out', readFileLoop g image (fuel + 1) c true out = some (false, out') := by
  have hread := readSectors_outside hb (g.rootDirectoryEnd + (c.toUInt32 - 2) * g.bootSector.spc)
    (by rwa [spc_toNat]) (by rw [spc_toNat]; exact hc)
  simp only [readFileLoop, if_true, hread, Bool.true_and, Bool.false_eq_true, false_and, if_false]
  exact ⟨_, rfl⟩

/-- The loop of `readFile` copies the clusters of a chain in the image. -/
theorem readFileLoop_chain (hb : 1 ≤ g.bootSector.sectorSize) {l : List UInt16} {c : UInt16}
    (hl : Linked g.link (some c) l) (hin : ∀ a ∈ l, g.Inside image a) {fuel : ℕ} (hfuel : l.length ≤ fuel)
    (out : List UInt8) :
    readFileLoop g image fuel c true out = some (true, out ++ l.flatMap (g.clusterData image)) := by
  induction l generalizing c fuel out with
  | nil => cases hl
  | cons a l ih =>
    obtain ⟨fuel, rfl⟩ : ∃ k, fuel = k + 1 := ⟨fuel - 1, by simp at hfuel; omega⟩
    obtain ⟨hhead, htail⟩ := linked_cons.mp hl
    obtain rfl := Option.some.inj hhead
    rw [readFileLoop_inside hb (hin c List.mem_cons_self), List.flatMap_cons, ← List.append_assoc]
    cases hnext : g.link c with
    | none =>
      rw [hnext] at htail
      rw [htail.eq_nil, List.flatMap_nil, List.append_nil]
    | some next =>
      rw [hnext] at htail
      exact ih htail (fun a ha => hin a (List.mem_cons_of_mem _ ha)) (by simpa using hfuel) _

/-- It succeeds in no other case. -/
theorem readFileLoop_success (hb : 1 ≤ g.bootSector.sectorSize)
    (hspc : 1 ≤ g.bootSector.sectorsPerCluster.toNat) {fuel : ℕ} {c : UInt16} {out out' : List UInt8}
    (h : readFileLoop g image fuel c true out = some (true, out')) :
    ∃ l, Linked g.link (some c) l ∧ ∀ a ∈ l, g.Inside image a := by
  induction fuel generalizing c out with
  | zero => cases h
  | succ fuel ih =>
    by_cases hc : g.Inside image c
    · rw [readFileLoop_inside hb hc] at h
      cases hnext : g.link c with
      | none => exact ⟨[c], by simp [hnext], by simpa using hc⟩
      | some next =>
        rw [hnext] at h
        obtain ⟨l, hl, hin⟩ := ih h
        exact ⟨c :: l, ⟨rfl, by rwa [hnext]⟩, List.forall_mem_cons.mpr ⟨hc, hin⟩⟩
    · obtain ⟨out'', hfail⟩ := readFileLoop_outside hb hspc hc fuel out
      rw [hfail] at h
      simp at h

lemma readSectors_bytesAt {lba count : UInt32} {a n : ℕ} (hb : 1 ≤ b.sectorSize)
    (ha : (lba * b.bps).toNat = a) (hn : count.toNat * b.sectorSize = n) (h : a + n ≤ disk.size.toNat) :
    readSectors disk.image b lba count = (true, disk.bytesAt a n) := by
  subst ha hn
  exact readSectors_inside hb lba count h

lemma bytesAt_length (a n : ℕ) : (disk.bytesAt a n).length = n := by
  simp [RAMDisk.bytesAt]

lemma memoryOf_bytesAt {a n i : ℕ} (hi : i < n) : memoryOf (disk.bytesAt a n) i = disk.bytes (a + i) := by
  simp [memoryOf, RAMDisk.bytesAt, hi]

lemma filled_bytesAt {a n i : ℕ} (hi : i < n) (rest : Memory) :
    filled (disk.bytesAt a n) rest i = disk.bytes (a + i) := by
  rw [filled, bytesAt_length, if_pos hi, memoryOf_bytesAt hi]

/-- What the globals of the tool are once the image is ready. -/
def RAMDisk.toolGlobals (disk : RAMDisk) (restFat restRoot : Memory) : ToolGlobals where
  bootSector := disk.boot
  fat := filled (disk.bytesAt disk.boot.fatStart disk.boot.fatBytes) restFat
  rootDirectory := filled
    (disk.bytesAt disk.boot.rootStart (disk.boot.rootSectors * disk.boot.sectorSize)) restRoot
  rootDirectoryEnd := disk.globals.rootDirectoryEnd

lemma readBootSector_image (hsize : sizeofBootSector ≤ disk.size) :
    readBootSector disk.image = some disk.boot := by
  have h62 : sizeofBootSector.toNat = 62 := rfl
  have hle : 62 ≤ disk.size.toNat := UInt32.le_iff_toNat_le.mp hsize
  have hitems : min 1 (disk.size.toNat / 62) = 1 := Nat.min_eq_left (Nat.div_pos hle (by omega))
  have hbytes : (List.range 62).map (fun i => disk.bytes (0 + i)) =
      (List.range sizeofBootSector.toNat).map fun i => disk.byte (0 + UInt32.ofNat i) := by
    rw [h62]
    apply List.map_congr_left
    intro i hi
    have hi' := List.mem_range.mp hi
    have hi32 : (UInt32.ofNat i).toNat = i := toNat_ofNat_of_lt (by omega)
    rw [RAMDisk.byte, UInt32.zero_add, hi32, Nat.zero_add]
  have hread : fread disk.image 0 62 1 = (1, (List.range 62).map fun i => disk.bytes (0 + i)) := by
    simp only [fread, RAMDisk.image, Nat.sub_zero, if_neg (by decide : ¬62 = 0), hitems, Nat.one_mul]
  rw [readBootSector, h62, hread]
  simp only [hbytes, load_boot]
  rfl

/-- The tool makes a well-formed image ready. -/
theorem mountTool_image (hwf : WellFormed disk table) (restFat restRoot : Memory) :
    mountTool disk.image restFat restRoot = some (disk.toolGlobals restFat restRoot) := by
  have hfat : readFat disk.image disk.boot restFat = (true, (disk.toolGlobals restFat restRoot).fat) := by
    have hcount : disk.boot.sectorsPerFat.toUInt32.toNat * disk.boot.sectorSize = disk.boot.fatBytes := by
      rw [UInt16.toNat_toUInt32]
      rfl
    have hread := readSectors_bytesAt hwf.sectorSize hwf.fat_toNat hcount hwf.fatInside
    rw [readFat, hread]
    rfl
  have hsectors := rootSectors_tool disk.boot hwf.sectorSize
  have hend : disk.boot.rootLba + (if disk.boot.rootSize % disk.boot.bps > 0
      then disk.boot.rootSize / disk.boot.bps + 1 else disk.boot.rootSize / disk.boot.bps) =
      disk.globals.rootDirectoryEnd := by
    have hsame := UInt32.toNat_inj.mp (hsectors.trans (rootSectors_ram disk.boot hwf.sectorSize).symm)
    rw [hsame]
    rfl
  have hroot : readRootDirectory disk.image disk.boot restRoot = .ok (true,
      (disk.toolGlobals restFat restRoot).rootDirectory, disk.globals.rootDirectoryEnd) := by
    have hin : disk.boot.rootStart + disk.boot.rootSectors * disk.boot.sectorSize ≤ disk.size.toNat := by
      rw [BootSector.rootStart, ← Nat.add_mul]
      exact hwf.rootInside
    have hread := readSectors_bytesAt hwf.sectorSize hwf.root_toNat (by rw [hsectors]) hin
    rw [readRootDirectory, if_neg hwf.bps_ne]
    simp only [hread, hend]
    rfl
  simp only [mountTool, readBootSector_image hwf.header, hfat, hroot]
  rfl

end HostTool

section Agreement

variable {restFat restRoot : Memory} {i : ℕ} {chain : List ℕ}

lemma toolEntry_table (hwf : WellFormed disk table) {c : UInt16}
    (hlink : c.toNat + c.toNat / 2 + 1 < disk.boot.fatBytes) :
    ((disk.toolGlobals restFat restRoot).entry c).toNat = (table c.toNat).val := by
  have hbyte : ∀ k < disk.boot.fatBytes, (disk.toolGlobals restFat restRoot).fat k = packed table k := by
    intro k hk
    exact (filled_bytesAt hk restFat).trans (hwf.fat k hk)
  apply entryOf_packed
  exact packedWord_load c.toNat (hbyte _ (by omega)) (hbyte _ hlink)

lemma inRange_ofNat {c : ℕ} (hc : InRange disk c) : (UInt16.ofNat c).toNat = c := by
  have hlast := hc.last
  rw [UInt16.toNat_ofNat']
  exact Nat.mod_eq_of_lt (by omega)

lemma toolLink_table (hwf : WellFormed disk table) {c : ℕ} (hc : InRange disk c) :
    (disk.toolGlobals restFat restRoot).link (UInt16.ofNat c) = (chainNext table c).map UInt16.ofNat := by
  have hc16 := inRange_ofNat hc
  have hentry : ((disk.toolGlobals restFat restRoot).entry (UInt16.ofNat c)).toNat = (table c).val := by
    rw [toolEntry_table hwf (by rw [hc16]; exact hc.link), hc16]
  have hend : endOfChain.toNat = 0xFF8 := rfl
  rw [ToolGlobals.link, chainNext]
  by_cases hlast : 0xFF8 ≤ (table c).val
  · rw [if_neg (by rw [UInt16.lt_iff_toNat_lt, hentry]; omega), if_pos hlast]
    rfl
  · rw [if_pos (by rw [UInt16.lt_iff_toNat_lt, hentry]; omega), if_neg hlast, ← hentry, Option.map_some,
      UInt16.ofNat_toNat]

lemma toolCluster (hwf : WellFormed disk table) {c : ℕ} (hc : InRange disk c) :
    (disk.toolGlobals restFat restRoot).Inside disk.image (UInt16.ofNat c) ∧
      (disk.toolGlobals restFat restRoot).clusterData disk.image (UInt16.ofNat c) = clusterData disk c := by
  have hc16 := inRange_ofNat hc
  have hoff := clusterOffset_toNat hwf hwf.rootEnd_toNat (by rwa [hc16] : InRange disk (UInt16.ofNat c).toNat)
  rw [hc16] at hoff
  constructor
  · unfold ToolGlobals.Inside
    rw [RAMDisk.toolGlobals, hoff]
    exact hc.data
  · unfold ToolGlobals.clusterData
    rw [RAMDisk.toolGlobals, hoff]
    rfl

lemma toolEntry_byte (hwf : WellFormed disk table) (hi : i < disk.boot.dirEntryCount.toNat) {k : ℕ} (hk : k < 32) :
    (disk.toolGlobals restFat restRoot).rootDirectory (32 * i + k) = disk.bytes (entryStart disk i + k) := by
  have hroot := rootEntries_le hwf.sectorSize
  rw [BootSector.dataStart, Nat.add_mul] at hroot
  have hend : disk.boot.rootStart = disk.boot.rootSector * disk.boot.sectorSize := rfl
  have hin : 32 * i + k < disk.boot.rootSectors * disk.boot.sectorSize := by omega
  refine (filled_bytesAt hin restRoot).trans (congrArg disk.bytes ?_)
  rw [entryStart]
  omega

lemma toolEntry_cluster (hwf : WellFormed disk table) (hi : i < disk.boot.dirEntryCount.toNat) :
    load16 (disk.toolGlobals restFat restRoot).rootDirectory (32 * i + 26) =
      UInt16.ofNat (entryCluster disk i) := by
  rw [entryCluster, UInt16.ofNat_toNat]
  refine load16_congr fun k hk => ?_
  rw [Nat.add_assoc, Nat.add_assoc]
  exact toolEntry_byte hwf hi (by omega)

/-- `readFile` succeeds just if the clusters from the first one on are a chain in the image. -/
theorem readFile_success_iff (hwf : WellFormed disk table) (hi : i < disk.boot.dirEntryCount.toNat) :
    (∃ fuel out, readFile (disk.toolGlobals restFat restRoot) disk.image fuel (32 * i) = some (true, out)) ↔
      ∃ l, Linked (disk.toolGlobals restFat restRoot).link (some (UInt16.ofNat (entryCluster disk i))) l ∧
        ∀ c ∈ l, (disk.toolGlobals restFat restRoot).Inside disk.image c := by
  simp only [readFile, toolEntry_cluster hwf hi]
  constructor
  · rintro ⟨fuel, out, h⟩
    exact readFileLoop_success hwf.sectorSize hwf.clusterSize h
  · rintro ⟨l, hl, hin⟩
    exact ⟨l.length, _, readFileLoop_chain hwf.sectorSize hl hin (Nat.le_refl _) []⟩

lemma toolChain (hwf : WellFormed disk table) (hf : FileAt disk table i chain) (hsize : entrySize disk i ≠ 0)
    (restFat restRoot : Memory) :
    Linked (disk.toolGlobals restFat restRoot).link
        (some (load16 (disk.toolGlobals restFat restRoot).rootDirectory (32 * i + 26))) (chain.map UInt16.ofNat) ∧
      ∀ a ∈ chain.map UInt16.ofNat, (disk.toolGlobals restFat restRoot).Inside disk.image a := by
  have hlinked := hf.linked
  rw [if_neg hsize] at hlinked
  constructor
  · rw [toolEntry_cluster hwf hf.entry]
    exact hlinked.map UInt16.ofNat (fun c hc => toolLink_table hwf (hf.range c hc))
  · intro a ha
    obtain ⟨c, hc, rfl⟩ := List.mem_map.mp ha
    exact (toolCluster hwf (hf.range c hc)).1

/-- `readFile` on a file of a well-formed image that is not empty. -/
theorem readFile_file (hwf : WellFormed disk table) (hf : FileAt disk table i chain)
    (hsize : entrySize disk i ≠ 0) :
    readFile (disk.toolGlobals restFat restRoot) disk.image chain.length (32 * i) =
      some (true, chain.flatMap (clusterData disk)) := by
  obtain ⟨hlinked, hin⟩ := toolChain hwf hf hsize restFat restRoot
  have hdata : (chain.map UInt16.ofNat).flatMap
      ((disk.toolGlobals restFat restRoot).clusterData disk.image) = chain.flatMap (clusterData disk) := by
    rw [List.flatMap_map]
    exact List.flatMap_congr fun c hc => (toolCluster hwf (hf.range c hc)).2
  rw [readFile, readFileLoop_chain hwf.sectorSize hlinked hin (by simp), hdata, List.nil_append]

/-- Both readers succeed on a file and begin their output with its data. -/
structure Agree (disk : RAMDisk) (restFat restRoot : Memory) (i : ℕ) (chain : List ℕ)
    (outputBuffer : UInt32) : Prop where
  ram : ∃ g fuel out, (mountRAM disk).outcome disk.byte = .ok (some g) ∧
    (readFileRAM g fuel (some (g.entry i)) outputBuffer).outcome disk.byte = .ok (true, out) ∧
      out.take (entrySize disk i) = fileData disk chain (entrySize disk i)
  tool : ∃ g fuel out, mountTool disk.image restFat restRoot = some g ∧
    readFile g disk.image fuel (32 * i) = some (true, out) ∧
      out.take (entrySize disk i) = fileData disk chain (entrySize disk i)

/-- The two readers agree on a file of a well-formed image just if it is not empty, or the FAT is such
that the tool, which takes the cluster number 0 of an empty file for one of a chain, finds a chain in
the image there. -/
theorem readers_agree (hwf : WellFormed disk table) (hf : FileAt disk table i chain)
    {outputBuffer : UInt32} (hbuf : outputBuffer ≠ 0) :
    Agree disk restFat restRoot i chain outputBuffer ↔
      entrySize disk i ≠ 0 ∨ ∃ l, Linked (disk.toolGlobals restFat restRoot).link (some 0) l ∧
        ∀ c ∈ l, (disk.toolGlobals restFat restRoot).Inside disk.image c := by
  have hram := readFileRAM_file hwf hf hbuf (Nat.lt_succ_self chain.length)
  have hmount := (mountRAM_reads disk hwf.header hwf.bps_ne).1
  have htool := mountTool_image hwf restFat restRoot
  have hempty : entrySize disk i = 0 → UInt16.ofNat (entryCluster disk i) = 0 := by
    intro h0
    rw [hf.empty h0]
    rfl
  constructor
  · rintro ⟨-, g, fuel, out, hg, hread, -⟩
    by_cases hsize : entrySize disk i = 0
    · right
      rw [htool, Option.some.injEq] at hg
      subst hg
      rw [← hempty hsize]
      exact (readFile_success_iff hwf hf.entry).mp ⟨fuel, out, hread⟩
    · exact Or.inl hsize
  · intro h
    refine ⟨⟨_, _, _, hmount, hram, by rw [fileData, List.take_take, Nat.min_self]⟩, ?_⟩
    by_cases hsize : entrySize disk i = 0
    · have hchain := h.resolve_left (not_not.mpr hsize)
      rw [← hempty hsize] at hchain
      obtain ⟨fuel, out, hread⟩ := (readFile_success_iff hwf hf.entry).mpr hchain
      exact ⟨_, fuel, out, htool, hread, by rw [hsize, fileData, List.take_zero, List.take_zero]⟩
    · exact ⟨_, _, _, htool, readFile_file hwf hf hsize, rfl⟩

variable (table) (cluster size : UInt8)

lemma floppy_wellFormed : WellFormed (floppy table cluster size) table where
  header := by
    rw [floppy_size]
    decide
  sectorSize := by
    rw [floppy_boot]
    decide
  clusterSize := by
    rw [floppy_boot]
    decide
  fatInside := by
    rw [floppy_boot, floppy_size]
    decide
  rootInside := by
    rw [floppy_boot, floppy_size]
    decide
  fat := by
    rw [floppy_boot]
    intro i hi
    have hstart : BootSector.fatStart ⟨512, 1, 1, 2, 224, 9⟩ = 512 := rfl
    have hbytes : BootSector.fatBytes ⟨512, 1, 1, 2, 224, 9⟩ = 4608 := rfl
    rw [hbytes] at hi
    rw [hstart]
    have hindex : (512 + i - 512) % 4608 = i := by omega
    simp only [floppy]
    rw [if_neg (by omega), if_neg (by omega), if_neg (by omega), if_neg (by omega), if_neg (by omega),
      if_neg (by omega), if_neg (by omega), if_neg (by omega), if_neg (by omega), if_pos (by omega), hindex]

lemma floppy_entry :
    entryCluster (floppy table cluster size) 0 = cluster.toNat ∧
      entrySize (floppy table cluster size) 0 = size.toNat := by
  have hstart : BootSector.rootStart ⟨512, 1, 1, 2, 224, 9⟩ = 9728 := rfl
  constructor
  · rw [entryCluster, entryStart, floppy_boot, hstart, load16_toNat]
    simp [floppy]
  · rw [entrySize, entryStart, floppy_boot, hstart, load32_toNat]
    simp [floppy]

lemma floppy_file : FileAt (floppy floppyTable 2 5) floppyTable 0 [2] where
  entry := by
    rw [floppy_boot]
    decide
  empty := by
    rw [(floppy_entry floppyTable 2 5).2]
    decide
  linked := by
    rw [(floppy_entry floppyTable 2 5).1, (floppy_entry floppyTable 2 5).2]
    exact ⟨rfl, rfl⟩
  range := by
    rw [List.forall_mem_singleton]
    refine ⟨by decide, by decide, ?_, ?_⟩ <;> rw [floppy_boot]
    · decide
    · rw [floppy_size]
      decide
  length := by
    rw [(floppy_entry floppyTable 2 5).2, floppy_boot]
    decide

lemma floppy_empty : FileAt (floppy floppyTable 0 0) floppyTable 0 [] where
  entry := by
    rw [floppy_boot]
    decide
  empty _ := (floppy_entry floppyTable 0 0).1
  linked := by
    rw [(floppy_entry floppyTable 0 0).2]
    rfl
  range := by simp
  length := by
    rw [(floppy_entry floppyTable 0 0).2, floppy_boot]
    decide

theorem readers_agree_floppy :
    Agree (floppy floppyTable 2 5) (fun _ => 0) (fun _ => 0) 0 [2] 0x1000 := by
  refine (readers_agree (floppy_wellFormed floppyTable 2 5) floppy_file (by decide)).mpr (Or.inl ?_)
  rw [(floppy_entry floppyTable 2 5).2]
  decide

/-- On an empty file the tool reads cluster 0 and follows the media descriptor behind the end of the
image. -/
theorem readers_disagree_floppy :
    WellFormed (floppy floppyTable 0 0) floppyTable ∧ FileAt (floppy floppyTable 0 0) floppyTable 0 [] ∧
      ¬Agree (floppy floppyTable 0 0) (fun _ => 0) (fun _ => 0) 0 [] 0x1000 := by
  have hwf := floppy_wellFormed floppyTable 0 0
  refine ⟨hwf, floppy_empty, ?_⟩
  rintro ⟨-, g, fuel, out, hg, hread, -⟩
  rw [mountTool_image hwf, Option.some.injEq] at hg
  subst hg
  obtain ⟨l, hl, hin⟩ := (readFile_success_iff hwf floppy_empty.entry).mp ⟨fuel, out, hread⟩
  have hzero : UInt16.ofNat (0 : UInt8).toNat = 0 := rfl
  rw [(floppy_entry floppyTable 0 0).1, hzero] at hl
  obtain ⟨l, rfl, htail⟩ := hl.exists_cons
  have hentry : ((floppy floppyTable 0 0).toolGlobals (fun _ => 0) (fun _ => 0)).entry 0 = 0xFF0 :=
    UInt16.toNat_inj.mp (toolEntry_table hwf (by rw [floppy_boot]; decide))
  have hlink : ((floppy floppyTable 0 0).toolGlobals (fun _ => 0) (fun _ => 0)).link 0 = some 0xFF0 := by
    rw [ToolGlobals.link, hentry]
    rfl
  rw [hlink] at htail
  obtain ⟨l, rfl, -⟩ := htail.exists_cons
  have hout := hin 0xFF0 (by simp)
  unfold ToolGlobals.Inside at hout
  rw [RAMDisk.toolGlobals, RAMDisk.image, floppy_rootEnd, floppy_boot, floppy_size] at hout
  exact absurd hout (by decide)

end Agreement

end SBoy28.Fat12
