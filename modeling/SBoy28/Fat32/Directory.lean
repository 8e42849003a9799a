import SBoy28.Fat32.Table

/-!
# Directories

A directory is the list of the 32-byte slots of its chain, up to the first entry that marks the
end. A scan of the driver goes through this list.
-/

namespace SBoy28.Fat32
open Lib

variable {g : FSMount} {disk disk' : Memory} {l : List UInt32} {name : List UInt8}

/-- The place of a directory entry. -/
structure Slot where
  sector : UInt32
  offset : UInt32
  deriving DecidableEq

def slotAddr (g : FSMount) (d : Slot) : ℕ := d.sector.toNat * g.bps.toNat + d.offset.toNat

def entryAt (g : FSMount) (disk : Memory) (d : Slot) : FATDirEntry :=
  FATDirEntry.load disk (slotAddr g d)

def foundAt (g : FSMount) (disk : Memory) (d : Slot) : Found := ⟨entryAt g disk d, d.sector, d.offset⟩

def sectorSlots (g : FSMount) (sector : UInt32) : List Slot :=
  (entryOffsets g).map (fun off => ⟨sector, UInt32.ofNat off⟩)

/-- The slots of a chain, in the order in which they are scanned. -/
def slots (g : FSMount) (l : List UInt32) : List Slot :=
  l.flatMap (fun c => (clusterSectors g c).flatMap (sectorSlots g))

/-- The slots in use: those in front of the end mark that are neither deleted nor part of a
long name. -/
def liveSlots (g : FSMount) (disk : Memory) (l : List UInt32) : List Slot :=
  ((slots g l).takeWhile (fun d => (entryAt g disk d).mark ≠ 0)).filter
    (fun d => !(entryAt g disk d).skipped)

/-- The entry of a directory with this name. -/
def lookup (g : FSMount) (disk : Memory) (l : List UInt32) (name : List UInt8) : Option Slot :=
  (liveSlots g disk l).find? (fun d => (entryAt g disk d).name = name)

section Slots

lemma mem_entryOffsets (hg : Geometry g) {off : ℕ} (h : off ∈ entryOffsets g) :
    32 ∣ off ∧ off + 32 ≤ g.bps.toNat := by
  obtain ⟨q, hq⟩ := hg.dvd
  simp only [entryOffsets, List.mem_map, List.mem_range] at h
  obtain ⟨i, hi, rfl⟩ := h
  exact ⟨⟨i, rfl⟩, by omega⟩

lemma mem_clusterSectors (hg : Geometry g) {c sector : UInt32} (hc : InRange g c)
    (h : sector ∈ clusterSectors g c) :
    InBounds g sector ∧ ∃ i < g.spc.toNat, sector.toNat = clusterSector g c + i := by
  obtain ⟨hsector, hle⟩ := clusterToSector_toNat hg hc
  have hend := hg.sectors_lt
  have hspc := g.spc.toNat_lt
  simp only [clusterSectors, List.mem_map, List.mem_range] at h
  obtain ⟨i, hi, rfl⟩ := h
  have hi' : (UInt32.ofNat i).toNat = i := toNat_ofNat_of_lt (by omega)
  have hsum : (clusterToSector g c + UInt32.ofNat i).toNat = clusterSector g c + i := by
    rw [toNat_add_of_lt, hsector, hi']
    rw [hsector, hi']
    omega
  refine ⟨hg.inBounds (by omega), i, hi, hsum⟩

/-- A slot lies on a 32-byte boundary inside a cluster of the directory. -/
lemma mem_slots (hg : Geometry g) (hr : ∀ c ∈ l, InRange g c) {d : Slot} (h : d ∈ slots g l) :
    32 ∣ d.offset.toNat ∧ d.offset.toNat + 32 ≤ g.bps.toNat ∧ InBounds g d.sector ∧
      ∃ c ∈ l, ∀ i < 32, InData g c (slotAddr g d + i) := by
  simp only [slots, List.mem_flatMap, sectorSlots, List.mem_map] at h
  obtain ⟨c, hc, sector, hsector, off, hoff, rfl⟩ := h
  obtain ⟨hdvd, hle⟩ := mem_entryOffsets hg hoff
  have hbps := g.bps.toNat_lt
  obtain ⟨hin, i, hi, hs⟩ := mem_clusterSectors hg (hr c hc) hsector
  have hoff' : (UInt32.ofNat off).toNat = off := toNat_ofNat_of_lt (by omega)
  simp only [slotAddr, hoff']
  refine ⟨hdvd, hle, hin, c, hc, ?_⟩
  intro j hj
  have hmul : (i + 1) * g.bps.toNat ≤ g.spc.toNat * g.bps.toNat := Nat.mul_le_mul_right _ hi
  rw [Nat.add_one_mul, Nat.mul_comm g.spc.toNat] at hmul
  simp only [InData, dataAddr, clusterBytes, hs, Nat.add_mul]
  omega

lemma slotAddr_apart {d d' : Slot} (hd : 32 ∣ d.offset.toNat)
    (hle : d.offset.toNat + 32 ≤ g.bps.toNat) (hd' : 32 ∣ d'.offset.toNat)
    (hle' : d'.offset.toNat + 32 ≤ g.bps.toNat) (hne : d ≠ d') :
    slotAddr g d + 32 ≤ slotAddr g d' ∨ slotAddr g d' + 32 ≤ slotAddr g d := by
  simp only [slotAddr]
  rcases Nat.lt_trichotomy d.sector.toNat d'.sector.toNat with hlt | heq | hlt
  · have hmul : (d.sector.toNat + 1) * g.bps.toNat ≤ d'.sector.toNat * g.bps.toNat :=
      Nat.mul_le_mul_right _ hlt
    rw [Nat.add_one_mul] at hmul
    omega
  · have hoff : d.offset.toNat ≠ d'.offset.toNat := by
      intro he
      apply hne
      cases d
      cases d'
      simp only [Slot.mk.injEq]
      exact ⟨UInt32.toNat_inj.mp heq, UInt32.toNat_inj.mp he⟩
    rw [heq]
    omega
  · have hmul : (d'.sector.toNat + 1) * g.bps.toNat ≤ d.sector.toNat * g.bps.toNat :=
      Nat.mul_le_mul_right _ hlt
    rw [Nat.add_one_mul] at hmul
    omega

lemma load_congr {m m' : Memory} {a a' : ℕ} (h : ∀ i, i < 32 → m (a + i) = m' (a' + i)) :
    FATDirEntry.load m a = FATDirEntry.load m' a' := by
  have hname : (List.range 11).map (fun i => m (a + i)) = (List.range 11).map (fun i => m' (a' + i)) := by
    apply List.map_congr_left
    intro i hi
    rw [List.mem_range] at hi
    exact h i (by omega)
  have hhi : load16 m (a + 20) = load16 m' (a' + 20) :=
    load16_congr (fun i hi => by rw [Nat.add_assoc, Nat.add_assoc, h _ (by omega)])
  have hlo : load16 m (a + 26) = load16 m' (a' + 26) :=
    load16_congr (fun i hi => by rw [Nat.add_assoc, Nat.add_assoc, h _ (by omega)])
  have hsize : load32 m (a + 28) = load32 m' (a' + 28) :=
    load32_congr (fun i hi => by rw [Nat.add_assoc, Nat.add_assoc, h _ (by omega)])
  rw [FATDirEntry.load, FATDirEntry.load, hname, hhi, hlo, hsize, h 11 (by omega)]

lemma entryAt_congr {d : Slot} (h : ∀ i, i < 32 → disk' (slotAddr g d + i) = disk (slotAddr g d + i)) :
    entryAt g disk' d = entryAt g disk d := load_congr h

end Slots

section Search

/-- A scan of some slots: `some none` if it comes to the end mark. -/
def search (g : FSMount) (disk : Memory) (name : List UInt8) : List Slot → Option (Option Slot)
  | [] => none
  | d :: rest =>
    if (entryAt g disk d).mark = 0 then some none
    else if (entryAt g disk d).skipped then search g disk name rest
    else if (entryAt g disk d).name = name then some (some d)
    else search g disk name rest

lemma search_append (ds ds' : List Slot) :
    search g disk name (ds ++ ds') = (search g disk name ds).or (search g disk name ds') := by
  induction ds with
  | nil => rfl
  | cons d ds ih =>
    simp only [List.cons_append, search, ih]
    split_ifs <;> rfl

lemma search_eq (ds : List Slot) :
    (search g disk name ds).join =
      ((ds.takeWhile (fun d => (entryAt g disk d).mark ≠ 0)).filter
        (fun d => !(entryAt g disk d).skipped)).find? (fun d => (entryAt g disk d).name = name) := by
  induction ds with
  | nil => rfl
  | cons d ds ih =>
    by_cases hmark : (entryAt g disk d).mark = 0
    · simp [search, hmark]
    · by_cases hskip : (entryAt g disk d).skipped = true
      · simpa [search, hmark, hskip] using ih
      · by_cases hname : (entryAt g disk d).name = name
        · simp [search, hmark, hskip, hname]
        · simpa [search, hmark, hskip, hname] using ih

lemma load_sector {sec : Memory} {sector : UInt32}
    (hsec : ∀ i, i < g.bps.toNat → sec i = disk (sector.toNat * g.bps.toNat + i)) {off : ℕ}
    (hle : off + 32 ≤ g.bps.toNat) :
    FATDirEntry.load sec off = entryAt g disk ⟨sector, UInt32.ofNat off⟩ := by
  have hbps := g.bps.toNat_lt
  have hoff : (UInt32.ofNat off).toNat = off := toNat_ofNat_of_lt (by omega)
  apply load_congr
  intro i hi
  rw [hsec _ (by omega), slotAddr, hoff, Nat.add_assoc]

/-- The inner loop of `find_entry_in_dir` on the buffer of a sector. -/
lemma findInSector_eq {sec : Memory} {sector : UInt32}
    (hsec : ∀ i, i < g.bps.toNat → sec i = disk (sector.toNat * g.bps.toNat + i)) (offs : List ℕ)
    (hoffs : ∀ off ∈ offs, off + 32 ≤ g.bps.toNat) :
    findInSector name sec offs =
      match search g disk name (offs.map (fun off => ⟨sector, UInt32.ofNat off⟩)) with
      | none => none
      | some none => some (.error .notFound)
      | some (some d) => some (.ok d.offset.toNat) := by
  induction offs with
  | nil => rfl
  | cons off rest ih =>
    have hle := hoffs off (by simp)
    have hbps := g.bps.toNat_lt
    have hoff : (UInt32.ofNat off).toNat = off := toNat_ofNat_of_lt (by omega)
    have hload := load_sector hsec hle
    have hrest := ih (fun o ho => hoffs o (by simp [ho]))
    simp only [findInSector, hload, List.map_cons, search, hrest]
    split_ifs
    · rfl
    · rfl
    · simp only [hoff]
    · rfl

/-- What a scan gives. -/
def scanned (g : FSMount) (disk : Memory) : Option (Option Slot) → Except FSErr (Option Found)
  | none => .ok none
  | some none => .error .notFound
  | some (some d) => .ok (some (foundAt g disk d))

lemma search_mem {ds : List Slot} {d : Slot} (h : search g disk name ds = some (some d)) : d ∈ ds := by
  induction ds with
  | nil => simp [search] at h
  | cons d' ds ih =>
    simp only [search] at h
    split_ifs at h
    · simp at h
    · exact List.mem_cons_of_mem _ (ih h)
    · simp only [Option.some.injEq] at h
      simp [h]
    · exact List.mem_cons_of_mem _ (ih h)

lemma scanSectors_eq (hg : Geometry g) (disk : Memory) (name : List UInt8) (sectors : List UInt32)
    (hin : ∀ sector ∈ sectors, InBounds g sector) :
    scanSectors g disk name sectors =
      scanned g disk (search g disk name (sectors.flatMap (sectorSlots g))) := by
  induction sectors with
  | nil => rfl
  | cons sector rest ih =>
    have hrest := ih (fun s hs => hin s (by simp [hs]))
    have hbuffer : ∀ i, i < g.bps.toNat →
        copyTo g.stack 0 (shift disk (sector.toNat * g.bps.toNat)) g.bps.toNat i =
          disk (sector.toNat * g.bps.toNat + i) := fun i hi => copyTo_read _ _ _ hi
    have hfind : findInSector name
        (copyTo g.stack 0 (shift disk (sector.toNat * g.bps.toNat)) g.bps.toNat) (entryOffsets g) = _ :=
      findInSector_eq hbuffer (entryOffsets g) (fun off hoff => (mem_entryOffsets hg hoff).2)
    rw [← sectorSlots] at hfind
    simp only [scanSectors, readSector_ok g (hin sector (by simp)), hfind, hrest, List.flatMap_cons,
      search_append]
    cases hs : search g disk name (sectorSlots g sector) with
    | none => simp
    | some r =>
      cases r with
      | none => rfl
      | some d =>
        have hmem := search_mem hs
        simp only [sectorSlots, List.mem_map] at hmem
        obtain ⟨off, hoff, rfl⟩ := hmem
        have hle := (mem_entryOffsets hg hoff).2
        have hbps := g.bps.toNat_lt
        have hoff' : (UInt32.ofNat off).toNat = off := toNat_ofNat_of_lt (by omega)
        simp only [hoff', load_sector hbuffer hle, Option.some_or, scanned, foundAt]

/-- What a scan of a whole directory gives. -/
def lookupResult (g : FSMount) (disk : Memory) : Option Slot → Except FSErr Found
  | none => .error .notFound
  | some d => .ok (foundAt g disk d)

/-- The turn of `find_entry_in_dir` at a cluster: on to the next one, or out of the loop. -/
def findTurn (g : FSMount) (disk : Memory) (name : List UInt8) (c : UInt32) (_ : Unit) :
    Unit ⊕ Except FSErr Found :=
  match search g disk name ((clusterSectors g c).flatMap (sectorSlots g)) with
  | none => .inl ()
  | some r => .inr (lookupResult g disk r)

lemma findStep_eq (hg : Geometry g) (name : List UInt8) {c : UInt32} (hc : InRange g c) :
    findStep g disk name c = (findTurn g disk name c ()).map (fun _ => fatValue g disk c) id := by
  have hscan := scanSectors_eq hg disk name (clusterSectors g c)
    (fun sector hs => (mem_clusterSectors hg hc hs).1)
  rw [findStep, if_pos (hc.valid hg), hscan, findTurn]
  cases search g disk name ((clusterSectors g c).flatMap (sectorSlots g)) with
  | none => simp only [scanned, fatEntry_eq hg _ hc, Sum.map_inl]
  | some r => cases r <;> rfl

lemma findStep_end {name : List UInt8} {c : UInt32} (h : 0x0FFFFFF8 ≤ c) :
    findStep g disk name c = .inr (.error .notFound) := by
  rw [findStep, if_neg]
  rintro ⟨-, hlt⟩
  exact absurd hlt (UInt32.not_lt.mpr h)

lemma alongChain_findTurn (name : List UInt8) (l : List UInt32) :
    alongChain (findTurn g disk name) (fun _ => .error .notFound) l () =
      lookupResult g disk (search g disk name (slots g l)).join := by
  induction l with
  | nil => rfl
  | cons c l ih =>
    rw [alongChain, findTurn, slots, List.flatMap_cons, ← slots, search_append]
    cases search g disk name ((clusterSectors g c).flatMap (sectorSlots g)) with
    | none => exact ih
    | some r => rfl

/-- `find_entry_in_dir` on a directory of the volume. -/
theorem findOutcome_eq (hg : Geometry g) (name : List UInt8) (hchain : IsChain (table g disk) l)
    (hr : ∀ c ∈ l, InRange g c) {c : UInt32} (hhead : l.head? = some c) {fuel : ℕ}
    (hfuel : l.length < fuel) :
    findOutcome g disk fuel c name = .ofExcept (lookupResult g disk (lookup g disk l name)) := by
  have hloop : loop (findStep g disk name) fuel c = _ :=
    hchain.loop_eq (fun c _ => c) (fatValue g disk) (findTurn g disk name) (fun _ => .error .notFound)
      (fun c hc _ => findStep_eq hg name (hr c hc)) (fun c hc b hb => fatValue_of_next (hr c hc) hb)
      (fun c hc hend _ => findStep_end (fatValue_of_last (hr c hc) hend)) hfuel hhead ()
  rw [alongChain_findTurn, search_eq] at hloop
  rw [findOutcome, if_neg hg.bps_le_512, hloop]
  rfl

end Search

section Store

/-- The directory entry of a handle. -/
def FSFile.slot (file : FSFile) : Slot := ⟨file.dirEntrySector, file.dirEntryOffset⟩

/-- The size and first cluster of a handle, stored in the entry at an address. -/
def storeAt (m : Memory) (a : ℕ) (file : FSFile) : Memory :=
  store16 (store16 (store32 m (a + 28) file.size) (a + 20) (file.firstCluster >>> 16).toUInt16)
    (a + 26) file.firstCluster.toUInt16

/-- The device after `fs_close` has written the entry of a handle. -/
def putEntry (g : FSMount) (disk : Memory) (file : FSFile) : Memory :=
  storeAt disk (slotAddr g file.slot) file

/-- Byte `i` of an entry belongs to the size or to the first cluster. -/
def EntryField (i : ℕ) : Prop := 20 ≤ i ∧ i < 22 ∨ 26 ≤ i ∧ i < 32

/-- Byte `i` of an entry after the store. -/
def storedByte (file : FSFile) (i : ℕ) (old : UInt8) : UInt8 :=
  if 26 ≤ i ∧ i < 28 then byteOf file.firstCluster.toUInt16.toUInt32 (i - 26)
  else if 20 ≤ i ∧ i < 22 then byteOf (file.firstCluster >>> 16).toUInt16.toUInt32 (i - 20)
  else if 28 ≤ i ∧ i < 32 then byteOf file.size (i - 28)
  else old

lemma storeAt_apply (m : Memory) (a i : ℕ) (file : FSFile) :
    storeAt m a file (a + i) = storedByte file i (m (a + i)) := by
  have hlo : a + 26 ≤ a + i ∧ a + i < a + 26 + 2 ↔ 26 ≤ i ∧ i < 28 := by omega
  have hhi : a + 20 ≤ a + i ∧ a + i < a + 20 + 2 ↔ 20 ≤ i ∧ i < 22 := by omega
  have hsize : a + 28 ≤ a + i ∧ a + i < a + 28 + 4 ↔ 28 ≤ i ∧ i < 32 := by omega
  simp only [storeAt, store16, store32, storedByte, hlo, hhi, hsize, Nat.add_sub_add_left]

lemma storeAt_off (m : Memory) {a x : ℕ} (file : FSFile) (h : ∀ i, EntryField i → x ≠ a + i) :
    storeAt m a file x = m x := by
  have hout : ∀ i, 20 ≤ i ∧ i < 22 ∨ 26 ≤ i ∧ i < 32 → x ≠ a + i := h
  have h20 := hout 20 (by omega)
  have h21 := hout 21 (by omega)
  have h26 := hout 26 (by omega)
  have h27 := hout 27 (by omega)
  have h28 := hout 28 (by omega)
  have h29 := hout 29 (by omega)
  have h30 := hout 30 (by omega)
  have h31 := hout 31 (by omega)
  rw [storeAt, store16_outside _ _ (by omega), store16_outside _ _ (by omega),
    store32_outside _ _ (by omega)]

/-- `fs_close` changes nothing but the size and the first cluster in the entry of the handle. -/
lemma putEntry_off {file : FSFile} {a : ℕ} (h : ∀ i, EntryField i → a ≠ slotAddr g file.slot + i) :
    putEntry g disk file a = disk a := storeAt_off disk file h

lemma joinWords (v : UInt32) :
    ((v >>> 16).toUInt16.toUInt32 <<< 16) ||| v.toUInt16.toUInt32 = v := by
  have hv := v.toNat_lt
  apply UInt32.toNat_inj.mp
  rw [UInt32.toNat_or, UInt32.toNat_shiftLeft, UInt16.toNat_toUInt32, UInt16.toNat_toUInt32,
    UInt32.toNat_toUInt16, UInt32.toNat_toUInt16, UInt32.toNat_shiftRight]
  simp only [UInt32.reduceToNat, Nat.reduceMod, Nat.shiftRight_eq_div_pow]
  have hlo : v.toNat % 2 ^ 16 < 2 ^ 16 := Nat.mod_lt _ (by decide)
  have hhi : v.toNat / 2 ^ 16 % 2 ^ 16 = v.toNat / 2 ^ 16 := Nat.mod_eq_of_lt (by omega)
  rw [hhi, Nat.shiftLeft_eq, Nat.mod_eq_of_lt (by omega), ← Nat.shiftLeft_eq,
    ← Nat.shiftLeft_add_eq_or_of_lt hlo, Nat.shiftLeft_eq]
  omega

/-- The entry of a handle after `fs_close`. -/
theorem entryAt_putEntry (file : FSFile) :
    entryAt g (putEntry g disk file) file.slot =
      { entryAt g disk file.slot with
        fstClusHi := (file.firstCluster >>> 16).toUInt16
        fstClusLo := file.firstCluster.toUInt16
        fileSize := file.size } := by
  have hoff : ∀ i, ¬EntryField i → putEntry g disk file (slotAddr g file.slot + i) =
      disk (slotAddr g file.slot + i) := by
    intro i hi
    apply putEntry_off
    intro j hj he
    obtain rfl : i = j := by omega
    exact hi hj
  have hname : (List.range 11).map (fun i => putEntry g disk file (slotAddr g file.slot + i)) =
      (List.range 11).map (fun i => disk (slotAddr g file.slot + i)) := by
    apply List.map_congr_left
    intro i hi
    rw [List.mem_range] at hi
    apply hoff
    simp only [EntryField]
    omega
  have hattr := hoff 11 (by simp [EntryField])
  simp only [entryAt, FATDirEntry.load, hname, hattr, FATDirEntry.mk.injEq, true_and]
  simp only [putEntry, storeAt]
  refine ⟨?_, load16_store16 _ _ _, ?_⟩
  · rw [load16_store16_other _ _ (by omega), load16_store16]
  · rw [load32_store16_other _ _ (by omega), load32_store16_other _ _ (by omega), load32_store32]

lemma firstCluster_putEntry (file : FSFile) :
    (entryAt g (putEntry g disk file) file.slot).firstCluster = file.firstCluster := by
  rw [entryAt_putEntry, FATDirEntry.firstCluster]
  exact joinWords file.firstCluster

/-- An entry stored in the buffer of a block that is written back. -/
lemma copyTo_storeAt (m src : Memory) (file : FSFile) {a off b : ℕ} (hle : off + 32 ≤ b)
    (h : ∀ i, i < b → src i = m (a + i)) :
    copyTo m a (storeAt src off file) b = storeAt m (a + off) file := by
  have hfield : ∀ i, EntryField i → i < 32 := by
    intro i hi
    simp only [EntryField] at hi
    omega
  have hkeep : ∀ i, i < b → i < off ∨ off + 32 ≤ i → storeAt src off file i = m (a + i) := by
    intro i hi hout
    rw [storeAt_off, h i hi]
    intro j hj he
    have hlt := hfield j hj
    omega
  rw [copyTo_modified m _ hle hkeep]
  funext x
  by_cases hx : a + off ≤ x ∧ x < a + off + 32
  · obtain ⟨j, rfl⟩ := Nat.exists_eq_add_of_le hx.1
    rw [copyTo_inside _ _ _ _ _ (by omega), shift_apply, storeAt_apply, storeAt_apply,
      h _ (by omega), Nat.add_assoc]
  · rw [copyTo_outside _ _ (by omega), storeAt_off]
    intro j hj he
    have hlt := hfield j hj
    omega

/-- `fs_close` of a handle that has been open for writing. -/
theorem run_fsClose {s : State} (hg : Geometry g) (hm : g.mounted = true) (hv : s.file.valid = true)
    (hw : s.file.canWrite = true) (hin : InBounds g s.file.dirEntrySector)
    (hle : s.file.dirEntryOffset.toNat + 32 ≤ g.bps.toNat) :
    (fsClose g).run (handler g) s =
      (.ok (), ⟨putEntry g s.disk s.file, { s.file with valid := false }⟩) := by
  have hvalid : ¬s.file.valid = false := by simp [hv]
  have hstore : copyTo s.disk (s.file.dirEntrySector.toNat * g.bps.toNat)
      (storeEntry (copyTo g.stack 0 (shift s.disk (s.file.dirEntrySector.toNat * g.bps.toNat))
        g.bps.toNat) s.file) g.bps.toNat = putEntry g s.disk s.file :=
    copyTo_storeAt _ _ _ hle (fun i hi => copyTo_read _ _ _ hi)
  simp only [fsClose, hm, Bool.true_eq_false, if_false, Program.run_bind, run_getFile, if_neg hvalid,
    if_pos hw, hg.bps_le_512, run_read_ok g hin, run_write_ok g hin, run_setFile, hstore]

lemma run_fsClose_read {s : State} (hm : g.mounted = true) (hv : s.file.valid = true)
    (hw : s.file.canWrite = false) :
    (fsClose g).run (handler g) s = (.ok (), { s with file := { s.file with valid := false } }) := by
  have hvalid : ¬s.file.valid = false := by simp [hv]
  have hwrite : ¬s.file.canWrite = true := by simp [hw]
  simp only [fsClose, hm, Bool.true_eq_false, if_false, Program.run_bind, run_getFile, if_neg hvalid,
    if_neg hwrite, run_setFile]

lemma run_fsClose_refused {s : State} (hv : s.file.valid = false) :
    ∃ e, (fsClose g).run (handler g) s = (.error e, s) := by
  by_cases hm : g.mounted = false
  · exact ⟨.notMounted, by simp [fsClose, hm, Program.run_bind]⟩
  · exact ⟨.invalid, by simp [fsClose, hm, hv, Program.run_bind]⟩

end Store

end SBoy28.Fat32
