import SBoy28.Fat32.FatRegion
import SBoy28.Lib.Chains

/-!
# The file allocation table

What `get_fat_entry` reads and `set_fat_entry` writes, and the table of links that the first
copy of the FAT stands for.
-/

namespace SBoy28.Fat32
open Lib

variable {g : FSMount}

section Entries

theorem fatEntry_eq (hg : Geometry g) (disk : Memory) {c : UInt32} (hc : InRange g c) :
    fatEntry g disk c = .ok (fatValue g disk c) :=
  hg.region.fatEntry_eq disk hc.hasEntry

theorem run_setFatEntry (hg : Geometry g) {c : UInt32} (hc : InRange g c) (value : UInt32)
    (s : State) :
    (setFatEntry g c value).run (handler g) s =
      (.ok (), { s with disk := setFat g s.disk c value }) :=
  hg.region.run_setFatEntry hc.hasEntry value s

end Entries

section Regions

/-- Byte `a` belongs to a cluster. -/
def InData (g : FSMount) (c : UInt32) (a : ℕ) : Prop :=
  dataAddr g c 0 ≤ a ∧ a < dataAddr g c 0 + clusterBytes g

/-- The first byte of the data region. -/
def dataBase (g : FSMount) : ℕ := g.dataStartSector.toNat * g.bps.toNat

lemma fatBase_le (hg : Geometry g) {k : ℕ} (hk : k < g.bpb.numFats.toNat) :
    fatBase g k + g.sectorsPerFat.toNat * g.bps.toNat ≤ dataBase g := by
  rw [fatBase, ← Nat.add_mul]
  exact Nat.mul_le_mul_right _ (Nat.le_trans (FatRegion.fatCopy_le g hk) hg.fatEnd)

lemma InFat.unique (hg : Geometry g) {c c' : UInt32} {a : ℕ} (hc : InRange g c)
    (hc' : InRange g c') (h : InFat g c a) (h' : InFat g c' a) : c = c' :=
  hg.region.inFat_unique hc.hasEntry hc'.hasEntry h h'

lemma InFat.lt (hg : Geometry g) {c : UInt32} {a : ℕ} (hc : InRange g c) (h : InFat g c a) :
    a < dataBase g :=
  Nat.lt_of_lt_of_le (hg.region.inFat_lt hc.hasEntry h) (Nat.mul_le_mul_right _ hg.fatEnd)

lemma InData.ge {c : UInt32} {a : ℕ} (h : InData g c a) : dataBase g ≤ a := by
  have hmul : dataBase g ≤ dataAddr g c 0 := Nat.mul_le_mul_right _ (Nat.le_add_right _ _)
  exact Nat.le_trans hmul h.1

lemma clusterSector_next (g : FSMount) {c c' : UInt32} (h2 : 2 ≤ c.toNat) (h : c.toNat < c'.toNat) :
    dataAddr g c 0 + clusterBytes g ≤ dataAddr g c' 0 := by
  have hmul : (c.toNat - 2 + 1) * g.spc.toNat ≤ (c'.toNat - 2) * g.spc.toNat :=
    Nat.mul_le_mul_right _ (by omega)
  rw [Nat.add_one_mul] at hmul
  rw [dataAddr, dataAddr, clusterBytes, Nat.add_zero, Nat.add_zero, Nat.mul_comm g.bps.toNat,
    ← Nat.add_mul]
  apply Nat.mul_le_mul_right
  rw [clusterSector, clusterSector]
  omega

lemma InData.unique {c c' : UInt32} {a : ℕ} (hc : InRange g c) (hc' : InRange g c')
    (h : InData g c a) (h' : InData g c' a) : c = c' := by
  rcases Nat.lt_trichotomy c.toNat c'.toNat with hlt | heq | hlt
  · have hle := clusterSector_next g hc.1 hlt
    obtain ⟨-, hhi⟩ := h
    obtain ⟨hlo, -⟩ := h'
    omega
  · exact UInt32.toNat_inj.mp heq
  · have hle := clusterSector_next g hc'.1 hlt
    obtain ⟨hlo, -⟩ := h
    obtain ⟨-, hhi⟩ := h'
    omega

lemma dataAddr_inData {c : UInt32} {j : ℕ} (hj : j < clusterBytes g) : InData g c (dataAddr g c j) := by
  simp only [InData, dataAddr]
  omega

lemma not_inFat_of_inData (hg : Geometry g) {c c' : UInt32} {a : ℕ} (hc : InRange g c)
    (h : InData g c' a) : ¬InFat g c a := by
  intro hf
  have hlt := hf.lt hg hc
  have hge := h.ge
  omega

end Regions

section SetFat

variable {disk : Memory} {c value : UInt32}

lemma fatValue_setFat (hg : Geometry g) (hc : InRange g c) {c' : UInt32} (hc' : InRange g c') :
    fatValue g (setFat g disk c value) c' =
      if c' = c then value &&& 0x0FFFFFFF else fatValue g disk c' :=
  hg.region.fatValue_setFat hc.hasEntry hc'.hasEntry

/-- All copies of the FAT hold the same bytes. -/
def CopiesEqual (g : FSMount) (disk : Memory) : Prop :=
  ∀ k < g.bpb.numFats.toNat, ∀ i < g.sectorsPerFat.toNat * g.bps.toNat,
    disk (fatBase g k + i) = disk (fatBase g 0 + i)

/-- A byte of one copy of the FAT lies in the entry of a cluster only through that copy. -/
lemma inFat_copy_iff (hg : Geometry g) (hc : InRange g c) {k i : ℕ} (hk : k < g.bpb.numFats.toNat)
    (hi : i < g.sectorsPerFat.toNat * g.bps.toNat) :
    InFat g c (fatBase g k + i) ↔ 4 * c.toNat ≤ i ∧ i < 4 * c.toNat + 4 := by
  have hle := hg.region.entry_le hc.hasEntry
  constructor
  · rintro ⟨k', -, hlo, hhi⟩
    rw [fatAddr] at hlo hhi
    rcases Nat.lt_trichotomy k k' with hlt | rfl | hlt
    · have hbase := fatBase_next g hlt
      omega
    · omega
    · have hbase := fatBase_next g hlt
      omega
  · rintro ⟨hlo, hhi⟩
    exact ⟨k, hk, by rw [fatAddr]; omega, by rw [fatAddr]; omega⟩

lemma CopiesEqual.load32 (h : CopiesEqual g disk) (hg : Geometry g) (hc : InRange g c) {k : ℕ}
    (hk : k < g.bpb.numFats.toNat) :
    Lib.load32 disk (fatAddr g k c) = Lib.load32 disk (fatAddr g 0 c) := by
  have hle := hg.region.entry_le hc.hasEntry
  apply load32_congr
  intro i hi
  rw [fatAddr, fatAddr, Nat.add_assoc, Nat.add_assoc]
  exact h k hk _ (by omega)

/-- `set_fat_entry` keeps the copies of the FAT identical. -/
theorem CopiesEqual.setFat (h : CopiesEqual g disk) (hg : Geometry g) (hc : InRange g c) :
    CopiesEqual g (setFat g disk c value) := by
  intro k hk i hi
  have hK := hg.numFats_pos
  by_cases hin : 4 * c.toNat ≤ i ∧ i < 4 * c.toNat + 4
  · obtain ⟨j, rfl⟩ := Nat.exists_eq_add_of_le hin.1
    have hj : j < 4 := by omega
    rw [← Nat.add_assoc, ← Nat.add_assoc]
    have hbyte := byteOf_load32 (Fat32.setFat g disk c value) (fatAddr g k c) hj
    have hbyte₀ := byteOf_load32 (Fat32.setFat g disk c value) (fatAddr g 0 c) hj
    rw [hg.region.load32_setFat hc.hasEntry hk, h.load32 hg hc hk] at hbyte
    rw [hg.region.load32_setFat hc.hasEntry hK] at hbyte₀
    exact hbyte.symm.trans hbyte₀
  · rw [setFat_off (fun hf => hin ((inFat_copy_iff hg hc hk hi).mp hf)),
      setFat_off (fun hf => hin ((inFat_copy_iff hg hc hK hi).mp hf))]
    exact h k hk i hi

lemma CopiesEqual.congr (h : CopiesEqual g disk) (hg : Geometry g) {disk' : Memory}
    (he : ∀ a, a < dataBase g → disk' a = disk a) : CopiesEqual g disk' := by
  intro k hk i hi
  have hle := fatBase_le hg hk
  have hle₀ := fatBase_le hg hg.numFats_pos
  rw [he _ (by omega), he _ (by omega)]
  exact h k hk i hi

end SetFat

section Links

/-- What a value of the FAT says about its cluster. -/
def decodeLink (value : UInt32) : Link UInt32 :=
  if value = 0 then .free else if value ≥ 0x0FFFFFF8 then .last else .next value

/-- The links of the data clusters; a number that is no cluster counts as the end of a chain. -/
def table (g : FSMount) (disk : Memory) (c : UInt32) : Link UInt32 :=
  if InRange g c then decodeLink (fatValue g disk c) else .last

variable {disk disk' : Memory} {c value : UInt32}

lemma table_inRange (hc : InRange g c) : table g disk c = decodeLink (fatValue g disk c) :=
  if_pos hc

lemma table_setFat (hg : Geometry g) (hc : InRange g c) :
    table g (setFat g disk c value) =
      Function.update (table g disk) c (decodeLink (value &&& 0x0FFFFFFF)) := by
  funext c'
  by_cases hc' : InRange g c'
  · rw [table_inRange hc', fatValue_setFat hg hc hc']
    by_cases he : c' = c
    · subst he
      rw [if_pos rfl, Function.update_self]
    · rw [if_neg he, Function.update_of_ne he, table_inRange hc']
  · have hne : c' ≠ c := fun e => hc' (e ▸ hc)
    rw [Function.update_of_ne hne, table, table, if_neg hc', if_neg hc']

lemma table_frame (hg : Geometry g) (he : ∀ a, InFat g c a → disk' a = disk a) :
    table g disk' c = table g disk c := by
  by_cases hc : InRange g c
  · rw [table_inRange hc, table_inRange hc, fatValue, fatValue, load32_frame disk]
    intro i hlo hhi
    exact he i ⟨0, hg.numFats_pos, hlo, hhi⟩
  · rw [table, table, if_neg hc, if_neg hc]

lemma table_congr (hg : Geometry g) (he : ∀ a, a < dataBase g → disk' a = disk a) :
    table g disk' = table g disk := by
  funext c
  by_cases hc : InRange g c
  · exact table_frame hg (fun a ha => he a (ha.lt hg hc))
  · rw [table, table, if_neg hc, if_neg hc]

lemma decodeLink_end : decodeLink (0x0FFFFFFF &&& 0x0FFFFFFF) = .last := by decide

lemma and_mask {v : UInt32} (h : v.toNat < 2 ^ 28) : v &&& 0x0FFFFFFF = v := by
  apply UInt32.toNat_inj.mp
  rw [UInt32.toNat_and]
  have hmask := Nat.and_two_pow_sub_one_eq_mod v.toNat 28
  rw [Nat.mod_eq_of_lt h] at hmask
  exact hmask

lemma InRange.lt (hg : Geometry g) (hc : InRange g c) : c.toNat < 2 ^ 28 - 8 := by
  have hcount := hg.clusterCount_lt
  have hlt := hc.2
  omega

lemma InRange.ne_zero (hc : InRange g c) : c ≠ 0 := by
  rintro rfl
  exact absurd hc.1 (by simp)

lemma InRange.not_end (hg : Geometry g) (hc : InRange g c) : ¬c ≥ 0x0FFFFFF8 := by
  rw [ge_iff_le, UInt32.le_iff_toNat_le]
  have hlt := hc.lt hg
  simp only [UInt32.reduceToNat]
  omega

lemma decodeLink_cluster (hg : Geometry g) (hc : InRange g c) :
    decodeLink (c &&& 0x0FFFFFFF) = .next c := by
  have hlt := hc.lt hg
  rw [and_mask (by omega), decodeLink, if_neg hc.ne_zero, if_neg (hc.not_end hg)]

lemma InRange.valid (hg : Geometry g) (hc : InRange g c) : 2 ≤ c ∧ c < 0x0FFFFFF8 := by
  have hlt := hc.lt hg
  have h2 := hc.1
  rw [UInt32.le_iff_toNat_le, UInt32.lt_iff_toNat_lt]
  simp only [UInt32.reduceToNat]
  omega

lemma fatValue_of_next (hc : InRange g c) {b : UInt32} (h : table g disk c = .next b) :
    fatValue g disk c = b := by
  rw [table_inRange hc, decodeLink] at h
  split at h
  · cases h
  · split at h
    · cases h
    · simpa using h

lemma fatValue_of_last (hc : InRange g c) (h : table g disk c = .last) :
    fatValue g disk c ≥ 0x0FFFFFF8 := by
  rw [table_inRange hc, decodeLink] at h
  split at h
  · cases h
  · split at h
    · assumption
    · cases h

lemma fatValue_eq_zero_iff (hc : InRange g c) : fatValue g disk c = 0 ↔ table g disk c = .free := by
  rw [table_inRange hc, decodeLink]
  by_cases h : fatValue g disk c = 0
  · simp [h]
  · rw [if_neg h]
    split <;> simp [h]

end Links

end SBoy28.Fat32
