import SBoy28.Fat32.Layout

/-!
# The entries of the FAT

A FAT entry lies inside one sector of each copy of the FAT, and the entries of the copies do not overlap. What
`get_fat_entry` reads is the entry in the first copy, and `set_fat_entry` changes the entries of all copies, but
not their upper four bits.
-/

namespace SBoy28.Fat32
open Lib

variable {g : FSMount}

/-- There are copies of the FAT, and they are inside the device, over the integers. -/
structure FatsInside (g : FSMount) : Prop where
  dvd : 4 ∣ g.bps.toNat
  bps_le : g.bps.toNat ≤ 512
  numFats_pos : 0 < g.bpb.numFats.toNat
  inside : (g.fatStartSector.toNat + g.bpb.numFats.toNat * g.sectorsPerFat.toNat) * g.bps.toNat ≤ g.dev.size.toNat

/-- They also have room for the entries of all clusters. -/
structure FatRegion (g : FSMount) : Prop extends FatsInside g where
  room : (g.clusterCount.toNat + 2) * 4 ≤ g.sectorsPerFat.toNat * g.bps.toNat

/-- There is an entry for each cluster number, and two more. -/
def HasEntry (g : FSMount) (c : UInt32) : Prop := c.toNat < g.clusterCount.toNat + 2

lemma InRange.hasEntry {c : UInt32} (hc : InRange g c) : HasEntry g c := hc.2

lemma Geometry.region (hg : Geometry g) : FatRegion g where
  dvd := Nat.dvd_trans (by decide) hg.dvd
  bps_le := hg.bps_le
  numFats_pos := hg.numFats_pos
  inside := Nat.le_trans (Nat.mul_le_mul_right _ (Nat.le_trans hg.fatEnd (Nat.le_add_right _ _))) hg.dataEnd
  room := hg.fatRoom

/-- The value of the entry of a cluster in the first copy of the FAT. -/
def fatValue (g : FSMount) (disk : Memory) (c : UInt32) : UInt32 :=
  load32 disk (fatAddr g 0 c) &&& 0x0FFFFFFF

/-- The bits of an entry that `set_fat_entry` keeps, and the new ones. -/
def mergeEntry (cur value : UInt32) : UInt32 := (cur &&& 0xF0000000) ||| (value &&& 0x0FFFFFFF)

/-- The entry of a cluster set in some copies of the FAT. -/
def setCopies (g : FSMount) (c value : UInt32) : List ℕ → Memory → Memory
  | [], disk => disk
  | k :: ks, disk =>
    setCopies g c value ks
      (store32 disk (fatAddr g k c) (mergeEntry (load32 disk (fatAddr g k c)) value))

/-- The device after `set_fat_entry`. -/
def setFat (g : FSMount) (disk : Memory) (c value : UInt32) : Memory :=
  setCopies g c value (List.range g.bpb.numFats.toNat) disk

/-- Byte `a` belongs to the entry of a cluster in some copy of the FAT. -/
def InFat (g : FSMount) (c : UInt32) (a : ℕ) : Prop :=
  ∃ k < g.bpb.numFats.toNat, fatAddr g k c ≤ a ∧ a < fatAddr g k c + 4

section Addresses

lemma fatAddr_split (g : FSMount) (k : ℕ) (c : UInt32) :
    (g.fatStartSector.toNat + k * g.sectorsPerFat.toNat + 4 * c.toNat / g.bps.toNat) *
      g.bps.toNat + 4 * c.toNat % g.bps.toNat = fatAddr g k c := by
  have hdm := Nat.div_add_mod (4 * c.toNat) g.bps.toNat
  rw [fatAddr, fatBase, Nat.add_mul _ (4 * c.toNat / g.bps.toNat), Nat.add_assoc,
    Nat.mul_comm (4 * c.toNat / g.bps.toNat), hdm]

lemma fatBase_next (g : FSMount) {k k' : ℕ} (h : k < k') :
    fatBase g k + g.sectorsPerFat.toNat * g.bps.toNat ≤ fatBase g k' := by
  have hmul : (k + 1) * g.sectorsPerFat.toNat ≤ k' * g.sectorsPerFat.toNat :=
    Nat.mul_le_mul_right _ h
  rw [fatBase, fatBase, ← Nat.add_mul]
  apply Nat.mul_le_mul_right
  rw [Nat.add_one_mul] at hmul
  omega

lemma InFat.ge {c : UInt32} {a : ℕ} (h : InFat g c a) :
    g.fatStartSector.toNat * g.bps.toNat ≤ a := by
  obtain ⟨k, hk, hlo, -⟩ := h
  have hmul : g.fatStartSector.toNat * g.bps.toNat ≤ fatBase g k :=
    Nat.mul_le_mul_right _ (Nat.le_add_right _ _)
  rw [fatAddr] at hlo
  omega

end Addresses

namespace FatRegion

section Sectors

lemma bps_pos (hr : FatRegion g) : 0 < g.bps.toNat := by
  have hroom := hr.room
  by_contra hzero
  have h0 : g.bps.toNat = 0 := by omega
  rw [h0, Nat.mul_zero] at hroom
  omega

lemma bps_le_512 (hr : FatRegion g) : ¬g.bps > 512 := by
  rw [gt_iff_lt, UInt32.lt_iff_toNat_lt, Nat.not_lt]
  exact hr.bps_le

/-- A copy is not longer than the device. -/
lemma entries_lt (hr : FatRegion g) : (g.clusterCount.toNat + 2) * 4 < 2 ^ 32 := by
  have hsize := g.dev.size.toNat_lt
  have hone : g.sectorsPerFat.toNat ≤ g.bpb.numFats.toNat * g.sectorsPerFat.toNat :=
    Nat.le_mul_of_pos_left _ hr.numFats_pos
  have hcopy : g.sectorsPerFat.toNat * g.bps.toNat ≤
      (g.fatStartSector.toNat + g.bpb.numFats.toNat * g.sectorsPerFat.toNat) * g.bps.toNat :=
    Nat.mul_le_mul_right _ (by omega)
  have hroom := hr.room
  have hinside := hr.inside
  omega

lemma fatEnd_lt (hr : FatRegion g) :
    g.fatStartSector.toNat + g.bpb.numFats.toNat * g.sectorsPerFat.toNat < 2 ^ 32 := by
  have hle := Nat.le_mul_of_pos_right (g.fatStartSector.toNat + g.bpb.numFats.toNat * g.sectorsPerFat.toNat)
    hr.bps_pos
  exact Nat.lt_of_le_of_lt (Nat.le_trans hle hr.inside) g.dev.size.toNat_lt

lemma fatOffset_toNat (hr : FatRegion g) {c : UInt32} (hc : HasEntry g c) : (c * 4).toNat = 4 * c.toNat := by
  have hcount := hr.entries_lt
  have hlt : c.toNat < g.clusterCount.toNat + 2 := hc
  rw [toNat_mul_of_lt] <;> simp <;> omega

lemma fatOffset_mod (hr : FatRegion g) {c : UInt32} (hc : HasEntry g c) :
    (c * 4 % g.bps).toNat = 4 * c.toNat % g.bps.toNat := by
  rw [UInt32.toNat_mod, hr.fatOffset_toNat hc]

lemma fatRow_lt (hr : FatRegion g) {c : UInt32} (hc : HasEntry g c) :
    4 * c.toNat / g.bps.toNat < g.sectorsPerFat.toNat := by
  rw [Nat.div_lt_iff_lt_mul hr.bps_pos]
  have hroom := hr.room
  have hlt : c.toNat < g.clusterCount.toNat + 2 := hc
  omega

lemma fatOffset_le (hr : FatRegion g) (c : UInt32) : 4 * c.toNat % g.bps.toNat + 4 ≤ g.bps.toNat := by
  have hdvd := hr.dvd
  have hlt := Nat.mod_lt (4 * c.toNat) hr.bps_pos
  have hdvd' : 4 ∣ 4 * c.toNat % g.bps.toNat := (Nat.dvd_mod_iff hdvd).mpr ⟨c.toNat, rfl⟩
  omega

lemma fatCopy_le (g : FSMount) {k : ℕ} (hk : k < g.bpb.numFats.toNat) :
    g.fatStartSector.toNat + k * g.sectorsPerFat.toNat + g.sectorsPerFat.toNat ≤
      g.fatStartSector.toNat + g.bpb.numFats.toNat * g.sectorsPerFat.toNat := by
  have hmul : (k + 1) * g.sectorsPerFat.toNat ≤ g.bpb.numFats.toNat * g.sectorsPerFat.toNat :=
    Nat.mul_le_mul_right _ hk
  rw [Nat.add_one_mul] at hmul
  omega

lemma fatSector_lt (hr : FatRegion g) {k : ℕ} {c : UInt32} (hk : k < g.bpb.numFats.toNat) (hc : HasEntry g c) :
    g.fatStartSector.toNat + k * g.sectorsPerFat.toNat + 4 * c.toNat / g.bps.toNat <
      g.fatStartSector.toNat + g.bpb.numFats.toNat * g.sectorsPerFat.toNat := by
  have hrow := hr.fatRow_lt hc
  have hcopy := fatCopy_le g hk
  omega

/-- The sector that the driver computes for a FAT entry. -/
lemma fatSector_toNat (hr : FatRegion g) {k : ℕ} {c : UInt32} (hk : k < g.bpb.numFats.toNat) (hc : HasEntry g c) :
    (g.fatStartSector + UInt32.ofNat k * g.sectorsPerFat + c * 4 / g.bps).toNat =
      g.fatStartSector.toNat + k * g.sectorsPerFat.toNat + 4 * c.toNat / g.bps.toNat := by
  have hlt := hr.fatSector_lt hk hc
  have hcopy := fatCopy_le g hk
  have hend := hr.fatEnd_lt
  have hK := g.bpb.numFats.toNat_lt
  have hkn : (UInt32.ofNat k).toNat = k := toNat_ofNat_of_lt (by omega)
  have hmul : (UInt32.ofNat k * g.sectorsPerFat).toNat = k * g.sectorsPerFat.toNat := by
    rw [toNat_mul_of_lt, hkn]
    rw [hkn]
    omega
  have hdiv : (c * 4 / g.bps).toNat = 4 * c.toNat / g.bps.toNat := by
    rw [UInt32.toNat_div, hr.fatOffset_toNat hc]
  have hsum : (g.fatStartSector + UInt32.ofNat k * g.sectorsPerFat).toNat =
      g.fatStartSector.toNat + k * g.sectorsPerFat.toNat := by
    rw [toNat_add_of_lt, hmul]
    rw [hmul]
    omega
  rw [toNat_add_of_lt, hsum, hdiv]
  rw [hsum, hdiv]
  omega

lemma fatSector_inBounds (hr : FatRegion g) {k : ℕ} {c : UInt32} (hk : k < g.bpb.numFats.toNat)
    (hc : HasEntry g c) :
    InBounds g (g.fatStartSector + UInt32.ofNat k * g.sectorsPerFat + c * 4 / g.bps) := by
  apply Nat.le_trans _ hr.inside
  apply Nat.mul_le_mul_right
  rw [hr.fatSector_toNat hk hc]
  exact hr.fatSector_lt hk hc

lemma load32_fatSector (hr : FatRegion g) (disk out : Memory) (k : ℕ) (c : UInt32) :
    load32 (copyTo out 0 (shift disk ((g.fatStartSector.toNat + k * g.sectorsPerFat.toNat +
      4 * c.toNat / g.bps.toNat) * g.bps.toNat)) g.bps.toNat) (4 * c.toNat % g.bps.toNat) =
      load32 disk (fatAddr g k c) := by
  have hle := hr.fatOffset_le c
  apply load32_congr
  intro i hi
  rw [copyTo_read _ _ _ (by omega), ← Nat.add_assoc, fatAddr_split]

end Sectors

section Entries

/-- Entries lie inside their copy of the FAT. -/
lemma entry_le (hr : FatRegion g) {c : UInt32} (hc : HasEntry g c) :
    4 * c.toNat + 4 ≤ g.sectorsPerFat.toNat * g.bps.toNat := by
  have hroom := hr.room
  have hlt : c.toNat < g.clusterCount.toNat + 2 := hc
  omega

lemma fatAddr_apart (hr : FatRegion g) (k k' : ℕ) {c c' : UInt32} (hc : HasEntry g c) (hc' : HasEntry g c')
    (h : k ≠ k' ∨ c ≠ c') : fatAddr g k c + 4 ≤ fatAddr g k' c' ∨ fatAddr g k' c' + 4 ≤ fatAddr g k c := by
  have hle := hr.entry_le hc
  have hle' := hr.entry_le hc'
  simp only [fatAddr]
  rcases Nat.lt_trichotomy k k' with hk | hk | hk
  · have hbase := fatBase_next g hk
    omega
  · subst hk
    have hne : c.toNat ≠ c'.toNat := fun e => h.elim (· rfl) (· (UInt32.toNat_inj.mp e))
    omega
  · have hbase := fatBase_next g hk
    omega

lemma inFat_unique (hr : FatRegion g) {c c' : UInt32} {a : ℕ} (hc : HasEntry g c) (hc' : HasEntry g c')
    (h : InFat g c a) (h' : InFat g c' a) : c = c' := by
  obtain ⟨k, -, hlo, hhi⟩ := h
  obtain ⟨k', -, hlo', hhi'⟩ := h'
  by_contra hne
  cases hr.fatAddr_apart k k' hc hc' (Or.inr hne) <;> omega

lemma inFat_lt (hr : FatRegion g) {c : UInt32} {a : ℕ} (hc : HasEntry g c) (h : InFat g c a) :
    a < (g.fatStartSector.toNat + g.bpb.numFats.toNat * g.sectorsPerFat.toNat) * g.bps.toNat := by
  obtain ⟨k, hk, -, hhi⟩ := h
  have hle := hr.entry_le hc
  have hend := fatBase_next g hk
  simp only [fatAddr, fatBase] at hend hhi
  omega

end Entries

end FatRegion

section Bits

lemma mergeEntry_value (cur value : UInt32) :
    mergeEntry cur value &&& 0x0FFFFFFF = value &&& 0x0FFFFFFF := by
  have hdisjoint : (0xF0000000 : UInt32) &&& 0x0FFFFFFF = 0 := by decide
  rw [mergeEntry, and_or_distrib_right, UInt32.and_assoc, UInt32.and_assoc, hdisjoint,
    UInt32.and_self]
  simp

lemma mergeEntry_top (cur value : UInt32) : mergeEntry cur value &&& 0xF0000000 = cur &&& 0xF0000000 := by
  have hdisjoint : (0x0FFFFFFF : UInt32) &&& 0xF0000000 = 0 := by decide
  rw [mergeEntry, and_or_distrib_right, UInt32.and_assoc, UInt32.and_assoc, hdisjoint, UInt32.and_self]
  simp

end Bits

section Frame

variable {disk : Memory} {c value : UInt32}

lemma setCopies_off (ks : List ℕ) (disk : Memory) {a : ℕ}
    (h : ∀ k ∈ ks, a < fatAddr g k c ∨ fatAddr g k c + 4 ≤ a) :
    setCopies g c value ks disk a = disk a := by
  induction ks generalizing disk with
  | nil => rfl
  | cons k ks ih =>
    rw [setCopies, ih _ (fun k hk => h k (by simp [hk])), store32_outside _ _ (h k (by simp))]

/-- `set_fat_entry` leaves every other byte alone. -/
lemma setFat_off {a : ℕ} (h : ¬InFat g c a) : setFat g disk c value a = disk a := by
  apply setCopies_off
  intro k hk
  have hk' : k < g.bpb.numFats.toNat := by simpa using hk
  by_contra hin
  exact h ⟨k, hk', by omega, by omega⟩

end Frame

namespace FatRegion

section Runs

theorem fatEntry_eq (hr : FatRegion g) (disk : Memory) {c : UInt32} (hc : HasEntry g c) :
    fatEntry g disk c = .ok (fatValue g disk c) := by
  have hzero : g.fatStartSector + c * 4 / g.bps =
      g.fatStartSector + UInt32.ofNat 0 * g.sectorsPerFat + c * 4 / g.bps := by simp
  have hK := hr.numFats_pos
  rw [fatEntry, if_neg hr.bps_le_512, hzero, readSector_ok g (hr.fatSector_inBounds hK hc),
    hr.fatSector_toNat hK hc]
  simp only [Except.map, hr.fatOffset_mod hc, hr.load32_fatSector, fatValue]

lemma run_setFatCopies (hr : FatRegion g) {c : UInt32} (hc : HasEntry g c) (value : UInt32)
    (ks : List ℕ) (hks : ∀ k ∈ ks, k < g.bpb.numFats.toNat) (sec : Memory) (s : State) :
    (setFatCopies g c value (ks.map UInt32.ofNat) sec).run (handler g) s =
      (.ok (), { s with disk := setCopies g c value ks s.disk }) := by
  induction ks generalizing sec s with
  | nil => rfl
  | cons k ks ih =>
    have hk : k < g.bpb.numFats.toNat := hks k (by simp)
    have hin := hr.fatSector_inBounds hk hc
    have hle := hr.fatOffset_le c
    simp only [List.map_cons, setFatCopies, Program.run_bind, run_read_ok g hin, run_write_ok g hin,
      hr.fatSector_toNat hk hc,
      hr.fatOffset_mod hc, hr.load32_fatSector]
    rw [copyTo_modified s.disk _ hle, copyTo_store32, fatAddr_split]
    · rw [ih (fun k hk => hks k (by simp [hk]))]
      rfl
    · intro i hi hout
      rw [store32_outside _ _ hout, copyTo_read _ _ _ hi]

theorem run_setFatEntry (hr : FatRegion g) {c : UInt32} (hc : HasEntry g c) (value : UInt32) (s : State) :
    (setFatEntry g c value).run (handler g) s =
      (.ok (), { s with disk := setFat g s.disk c value }) := by
  simp only [setFatEntry, hr.bps_le_512, if_false]
  exact hr.run_setFatCopies hc value _ (fun k hk => by simpa using hk) g.stack s

end Runs

section Values

variable {disk : Memory} {c value : UInt32}

lemma load32_setCopies (hr : FatRegion g) (hc : HasEntry g c) (ks : List ℕ) (hnd : ks.Nodup)
    (disk : Memory) {k : ℕ} (hk : k ∈ ks) :
    load32 (setCopies g c value ks disk) (fatAddr g k c) =
      mergeEntry (load32 disk (fatAddr g k c)) value := by
  induction ks generalizing disk with
  | nil => simp at hk
  | cons k' ks ih =>
    obtain ⟨hk', hnd⟩ := List.nodup_cons.mp hnd
    rw [setCopies]
    by_cases he : k = k'
    · subst he
      rw [load32_frame (store32 disk (fatAddr g k c) (mergeEntry (load32 disk (fatAddr g k c)) value)),
        load32_store32]
      intro i hlo hhi
      apply setCopies_off
      intro k₂ hk₂
      have hne : k ≠ k₂ := fun e => hk' (e ▸ hk₂)
      have hapart := hr.fatAddr_apart k k₂ hc hc (Or.inl hne)
      omega
    · have hapart := hr.fatAddr_apart k k' hc hc (Or.inl he)
      rw [ih hnd _ (by simpa [he] using hk), load32_store32_other _ _ hapart]

lemma load32_setFat (hr : FatRegion g) (hc : HasEntry g c) {k : ℕ} (hk : k < g.bpb.numFats.toNat) :
    load32 (setFat g disk c value) (fatAddr g k c) = mergeEntry (load32 disk (fatAddr g k c)) value :=
  hr.load32_setCopies hc _ List.nodup_range _ (by simpa using hk)

lemma fatValue_setFat (hr : FatRegion g) (hc : HasEntry g c) {c' : UInt32} (hc' : HasEntry g c') :
    fatValue g (setFat g disk c value) c' =
      if c' = c then value &&& 0x0FFFFFFF else fatValue g disk c' := by
  by_cases he : c' = c
  · subst he
    rw [if_pos rfl, fatValue, hr.load32_setFat hc hr.numFats_pos, mergeEntry_value]
  · rw [if_neg he, fatValue, fatValue]
    congr 1
    apply load32_frame
    intro i hlo hhi
    apply setFat_off
    intro hin
    exact he (hr.inFat_unique hc' hc ⟨0, hr.numFats_pos, hlo, hhi⟩ hin)

end Values

section Alloc

/-- The search stops at the first entry that is zero. -/
lemma run_allocFrom (hr : FatRegion g) (n : ℕ) (cl : UInt32) (s : State)
    (hn : cl.toNat + n = g.clusterCount.toNat + 2) :
    (∃ c, cl.toNat ≤ c.toNat ∧ HasEntry g c ∧ fatValue g s.disk c = 0 ∧
      (∀ c', cl.toNat ≤ c'.toNat → c'.toNat < c.toNat → fatValue g s.disk c' ≠ 0) ∧
        (allocFrom g n cl).run (handler g) s = (.ok c, { s with disk := setFat g s.disk c 0x0FFFFFFF })) ∨
    ((∀ c, cl.toNat ≤ c.toNat → HasEntry g c → fatValue g s.disk c ≠ 0) ∧
      (allocFrom g n cl).run (handler g) s = (.error .noSpace, s)) := by
  have hcount := hr.entries_lt
  induction n generalizing cl with
  | zero =>
    right
    refine ⟨?_, rfl⟩
    intro c hle hc
    have hlt : c.toNat < g.clusterCount.toNat + 2 := hc
    omega
  | succ n ih =>
    have hcl : HasEntry g cl := by
      change cl.toNat < _
      omega
    have hnext : (cl + 1).toNat = cl.toNat + 1 := by
      rw [toNat_add_of_lt]
      · simp
      · simp only [UInt32.reduceToNat]
        omega
    have hother : ∀ c' : UInt32, cl.toNat ≤ c'.toNat → c' ≠ cl → (cl + 1).toNat ≤ c'.toNat := by
      intro c' hle hne
      have hne' : c'.toNat ≠ cl.toNat := fun e => hne (UInt32.toNat_inj.mp e)
      omega
    simp only [allocFrom, Program.run_bind, run_getFatEntry, hr.fatEntry_eq _ hcl, Outcome.ofExcept]
    by_cases hv : fatValue g s.disk cl = 0
    · left
      refine ⟨cl, Nat.le_refl _, hcl, hv, fun c' hle hlt => absurd hlt (by omega), ?_⟩
      simp only [if_pos hv, Program.run_bind, hr.run_setFatEntry hcl]
      rfl
    · simp only [if_neg hv]
      cases ih (cl + 1) (by omega) with
      | inl h =>
        obtain ⟨c, hle, hc, hzero, hbefore, hrun⟩ := h
        refine Or.inl ⟨c, by omega, hc, hzero, ?_, hrun⟩
        intro c' hle' hlt
        by_cases he : c' = cl
        · rw [he]
          exact hv
        · exact hbefore c' (hother c' hle' he) hlt
      | inr h =>
        refine Or.inr ⟨?_, h.2⟩
        intro c hle hc
        by_cases he : c = cl
        · rw [he]
          exact hv
        · exact h.1 c (hother c hle he) hc

/-- `alloc_cluster` takes the first free cluster, and fails only if there is none. -/
theorem run_allocCluster (hr : FatRegion g) (s : State) :
    (∃ c, 2 ≤ c.toNat ∧ HasEntry g c ∧ fatValue g s.disk c = 0 ∧
      (∀ c', 2 ≤ c'.toNat → c'.toNat < c.toNat → fatValue g s.disk c' ≠ 0) ∧
        (allocCluster g).run (handler g) s = (.ok c, { s with disk := setFat g s.disk c 0x0FFFFFFF })) ∨
    ((∀ c, 2 ≤ c.toNat → HasEntry g c → fatValue g s.disk c ≠ 0) ∧
      (allocCluster g).run (handler g) s = (.error .noSpace, s)) := by
  have hcount := hr.entries_lt
  have hsum : (g.clusterCount + 2).toNat = g.clusterCount.toNat + 2 := by
    rw [toNat_add_of_lt] <;> simp
    omega
  exact hr.run_allocFrom ((g.clusterCount + 2).toNat - 2) 2 s (by simp; omega)

end Alloc

end FatRegion

end SBoy28.Fat32
