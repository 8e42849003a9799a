import SBoy28.Fat32.Validation

/-!
# The FAT as an array

On the copies of the FAT `set_fat_entry` is the update of one element and `get_fat_entry` reads it back, as long
as a copy has room for the entries of all clusters. `fs_mount_fat32` does not ask for that, and without it an
entry of one copy is another entry of the next one.
-/

namespace SBoy28.Fat32
open Lib

section Specification

variable (g : FSMount)

/-- One entry was set, in all copies, and nothing else. -/
structure EntrySet (c value : UInt32) (s s' : State) : Prop where
  get : ((getFatEntry g c).run (handler g) s').1 = .ok (value &&& 0x0FFFFFFF)
  others : ∀ c₂, HasEntry g c₂ → c₂ ≠ c →
    ((getFatEntry g c₂).run (handler g) s').1 = ((getFatEntry g c₂).run (handler g) s).1
  low : ∀ k < g.bpb.numFats.toNat, load32 s'.disk (fatAddr g k c) &&& 0x0FFFFFFF = value &&& 0x0FFFFFFF
  top : ∀ k < g.bpb.numFats.toNat,
    load32 s'.disk (fatAddr g k c) &&& 0xF0000000 = load32 s.disk (fatAddr g k c) &&& 0xF0000000
  frame : ∀ a, ¬InFat g c a → s'.disk a = s.disk a

/-- The entry of a cluster reads as zero. -/
def ReadsFree (s : State) (c : UInt32) : Prop := ((getFatEntry g c).run (handler g) s).1 = .ok 0

/-- The lowest free cluster is taken, or the device is as it was because there is none. -/
def AllocatesLowest (s : State) : Prop :=
  (∃ c s', 2 ≤ c.toNat ∧ HasEntry g c ∧ ReadsFree g s c ∧
    (∀ c', 2 ≤ c'.toNat → c'.toNat < c.toNat → ¬ReadsFree g s c') ∧
      (allocCluster g).run (handler g) s = (.ok c, s') ∧ EntrySet g c 0x0FFFFFFF s s') ∨
  ((∀ c, 2 ≤ c.toNat → HasEntry g c → ¬ReadsFree g s c) ∧
    (allocCluster g).run (handler g) s = (.error .noSpace, s))

/-- What the walks along the chains rely on. -/
structure UpdateLaw : Prop where
  set : ∀ c, HasEntry g c → ∀ value s s', (setFatEntry g c value).run (handler g) s = (.ok (), s') →
    EntrySet g c value s s'
  alloc : ∀ s, AllocatesLowest g s

end Specification

variable {g : FSMount}

section Law

lemma FatRegion.get_eq (hr : FatRegion g) (s : State) {c : UInt32} (hc : HasEntry g c) :
    ((getFatEntry g c).run (handler g) s).1 = .ok (fatValue g s.disk c) := by
  rw [run_getFatEntry, hr.fatEntry_eq _ hc]
  rfl

lemma FatRegion.readsFree_iff (hr : FatRegion g) (s : State) {c : UInt32} (hc : HasEntry g c) :
    ReadsFree g s c ↔ fatValue g s.disk c = 0 := by
  rw [ReadsFree, hr.get_eq s hc, Outcome.ok.injEq]

lemma FatRegion.entrySet (hr : FatRegion g) {c : UInt32} (hc : HasEntry g c) (value : UInt32) (s : State) :
    EntrySet g c value s { s with disk := setFat g s.disk c value } where
  get := by rw [hr.get_eq _ hc, hr.fatValue_setFat hc hc, if_pos rfl]
  others := by
    intro c₂ hc₂ hne
    rw [hr.get_eq _ hc₂, hr.get_eq _ hc₂, hr.fatValue_setFat hc hc₂, if_neg hne]
  low := by
    intro k hk
    rw [hr.load32_setFat hc hk, mergeEntry_value]
  top := by
    intro k hk
    rw [hr.load32_setFat hc hk, mergeEntry_top]
  frame _ ha := setFat_off ha

theorem fat_update_law (h : FatsInside g)
    (room : (g.clusterCount.toNat + 2) * 4 ≤ g.sectorsPerFat.toNat * g.bps.toNat) : UpdateLaw g := by
  have hr : FatRegion g := ⟨h, room⟩
  constructor
  · intro c hc value s s' hrun
    rw [hr.run_setFatEntry hc] at hrun
    obtain ⟨-, rfl⟩ := Prod.mk.inj hrun
    exact hr.entrySet hc value s
  · intro s
    cases hr.run_allocCluster s with
    | inl hfound =>
      obtain ⟨c, h2, hc, hzero, hbefore, hrun⟩ := hfound
      refine Or.inl ⟨c, _, h2, hc, (hr.readsFree_iff s hc).mpr hzero, ?_, hrun, hr.entrySet hc _ s⟩
      intro c' h2' hlt hfree
      have hc' : HasEntry g c' := Nat.lt_trans hlt hc
      exact hbefore c' h2' hlt ((hr.readsFree_iff s hc').mp hfree)
    | inr hnone =>
      refine Or.inr ⟨?_, hnone.2⟩
      intro c h2 hc hfree
      exact hnone.1 c h2 hc ((hr.readsFree_iff s hc).mp hfree)

theorem fat_update_law_formatted : UpdateLaw formattedMount :=
  fat_update_law formatted_geometry.region.toFatsInside formatted_geometry.fatRoom

end Law

section Overlap

/-- A first sector for two copies of the FAT of one sector each and 66547 clusters. -/
def crowdedDisk : Memory := bootSector 512 1 1 2 66550 1 2

def crowdedMount : FSMount := (fsMountFat32 (FSMount.zero fun _ => 0) ⟨1, 2048⟩ crowdedDisk).2

/-- Nothing is open. -/
def crowdedState : State := ⟨crowdedDisk, ⟨0, 0, 0, 0, 0, 0, false⟩⟩

lemma crowded_numbers :
    crowdedMount.bps = 512 ∧ crowdedMount.bpb.numFats = 2 ∧ crowdedMount.fatStartSector = 1 ∧
      crowdedMount.sectorsPerFat = 1 ∧ crowdedMount.clusterCount = 66547 ∧ crowdedMount.dev.size = 2048 := by
  decide +kernel

lemma crowded_inside : FatsInside crowdedMount := by
  obtain ⟨hbps, hnum, hstart, hspf, -, hdev⟩ := crowded_numbers
  refine ⟨?_, ?_, ?_, ?_⟩ <;> simp only [hbps, hnum, hstart, hspf, hdev] <;> decide

/-- Entry 2 of the second copy is entry 130 of the first one. -/
theorem fat_update_law_crowded :
    fsMountFat32 (FSMount.zero fun _ => 0) ⟨1, 2048⟩ crowdedDisk = (.ok (), crowdedMount) ∧
      FatsInside crowdedMount ∧ ¬UpdateLaw crowdedMount := by
  have hok : (fsMountFat32 (FSMount.zero fun _ => 0) ⟨1, 2048⟩ crowdedDisk).1 = .ok () := rfl
  have hcount := crowded_numbers.2.2.2.2.1
  have hentries : HasEntry crowdedMount 2 ∧ HasEntry crowdedMount 130 := by
    unfold HasEntry
    rw [hcount]
    decide
  refine ⟨by rw [crowdedMount, ← hok], crowded_inside, ?_⟩
  intro hlaw
  have hrun : ((setFatEntry crowdedMount 2 7).run (handler crowdedMount) crowdedState).1 = .ok () := by
    decide +kernel
  have hset := hlaw.set 2 hentries.1 7 crowdedState _ (Prod.ext hrun rfl)
  have hother := hset.others 130 hentries.2 (by decide)
  revert hother
  decide +kernel

end Overlap

end SBoy28.Fat32
