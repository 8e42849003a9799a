import SBoy28.Fat32.Sequences

/-!
# Writes that fail

`fs_write` fails before it has done anything, or because no cluster is free any more. By then it
has used up the free clusters and written the bytes for which there was room.
-/

namespace SBoy28.Fat32
open Lib

variable {g : FSMount} {fuel : ℕ} {disk : Memory} {files : ℕ → FSFile} {fam fam₀ : Family} {v v' : Volume}
  {P : Volume → ℕ → Request → Prop} {h : ℕ} {s s' : State} {l' : List UInt32} {data : Memory} {k : ℕ}

section Specification

/-- A write through handle `h` that ran out of clusters after `k` of its bytes: the clusters that
were free are in use, the chain of the file is longer by some of them, the bytes written are those
for which the chain has room, and the other files and handles are as they were. -/
structure RanOut (g : FSMount) (fam : Family) (v v' : Volume) (h : ℕ) (l' : List UInt32) (data : Memory) (k : ℕ) :
    Prop where
  wellFormed : FatWellFormed g v' (Function.update fam (v'.files h).firstCluster l')
  wrote : Wrote g fam (v.files h).firstCluster ⟨v.disk, v.files h⟩ ⟨v'.disk, v'.files h⟩ l' data k
  full : ∀ c, InRange g c → fatValue g v'.disk c ≠ 0
  position : (v'.files h).position.toNat = max (v.files h).position.toNat (l'.length * clusterBytes g)
  others : ∀ h', h' ≠ h → v'.files h' = v.files h'

/-- No cluster is free, and the position of the handle is not inside the chain of its file. -/
structure NoRoom (g : FSMount) (fam : Family) (v : Volume) (h : ℕ) : Prop where
  full : ∀ c, InRange g c → fatValue g v.disk c ≠ 0
  beyond : (fam (v.files h).firstCluster).length * clusterBytes g ≤ (v.files h).position.toNat

end Specification

section Writes

/-- A chain that has not grown by a free cluster has not grown. -/
lemma Wrote.chain_eq {ι : Type} [DecidableEq ι] {chains : ι → List UInt32} {o : ι}
    (hwrote : Wrote g chains o s s' l' data k) (hfull : ∀ c, InRange g c → table g s.disk c ≠ .free) :
    l' = chains o := by
  obtain ⟨t, ht⟩ := hwrote.pre
  have hnd : l'.Nodup := by
    have hchain := hwrote.ok.family.chain o
    rw [Function.update_self] at hchain
    exact hchain.nodup
  cases t with
  | nil => rw [← ht, List.append_nil]
  | cons c t =>
    have hc : c ∈ l' := by simp [← ht]
    refine absurd (hwrote.fresh c hc fun hold => ?_) (hfull c (hwrote.range c hc))
    rw [← ht, List.nodup_append] at hnd
    exact hnd.2.2 c hold c (by simp) rfl

/-- The position after a write that ran out of clusters. -/
lemma Wrote.position_max {ι : Type} [DecidableEq ι] {chains : ι → List UInt32} {o : ι}
    (hwrote : Wrote g chains o s s' l' data k) (hg : Geometry g)
    (hstuck : OutOfSpace g s'.disk l' ((s.file.position.toNat + k) / clusterBytes g)) :
    s'.file.position.toNat = max s.file.position.toNat (l'.length * clusterBytes g) := by
  have hlen := (Nat.le_div_iff_mul_le hg.clusterBytes_pos).mp hstuck.short
  rw [hwrote.position]
  rcases hwrote.room with hz | hroom <;> omega

lemma Consistent.ranOut (hc : Consistent g v fam) (hg : Geometry g) (hw : Writing v h)
    (hwrote : Wrote g fam (v.files h).firstCluster ⟨v.disk, v.files h⟩ s' l' data k)
    (hstuck : OutOfSpace g s'.disk l' (((v.files h).position.toNat + k) / clusterBytes g)) :
    RanOut g fam v ⟨s'.disk, Function.update v.files h s'.file⟩ h l' data k := by
  have hfile : (Function.update v.files h s'.file) h = s'.file := Function.update_self _ _ _
  refine ⟨?_, ?_, ?_, ?_, fun h' hne => Function.update_of_ne hne _ _⟩
  · simp only [hfile]
    exact (hc.write hw.1 hg hwrote).fatWellFormed
  · simp only [hfile]
    exact hwrote
  · intro c hr hz
    exact hstuck.full c hr ((fatValue_eq_zero_iff hr).mp hz)
  · simp only [hfile]
    exact hwrote.position_max hg hstuck

lemma RanOut.unchanged_iff (h₀ : RanOut g fam v v' h l' data k)
    (hsame : k = 0 → l' = fam (v.files h).firstCluster → v' = v) : v' = v ↔ NoRoom g fam v h := by
  constructor
  · intro he
    have hfull := h₀.full
    have hposition := h₀.position
    rw [he] at hfull hposition
    have hlen := Nat.mul_le_mul_right (clusterBytes g) h₀.wrote.pre.length_le
    exact ⟨hfull, by omega⟩
  · intro hno
    have hchain : l' = fam (v.files h).firstCluster :=
      h₀.wrote.chain_eq fun c hr hf => hno.full c hr ((fatValue_eq_zero_iff hr).mpr hf)
    refine hsame ?_ hchain
    have hposition := h₀.position
    have hbeyond := hno.beyond
    have hadd := h₀.wrote.position
    rw [← hchain] at hbeyond
    simp only at hadd
    omega

end Writes

section Runs

/-- On a well-formed volume, after any sequence of calls: a call of `fs_write` that fails otherwise
than for want of clusters changes nothing. One that fails for want of clusters has used up all of
them and written what there was room for. It changes nothing just if no cluster was free and the
position was not inside the chain of the file. -/
theorem failed_write (hw : WellFormed g disk fam₀) (hclosed : ∀ h, (files h).valid = false)
    (hfuel : g.clusterCount.toNat < fuel) (hrun : Calls g fuel P ⟨disk, files⟩ v) (h : ℕ) (data : Memory)
    (n : UInt32) {e : FSErr} (hcall : callOn g fuel v h (.write data n) = (.error e, v')) :
    (e ≠ .noSpace ∧ v' = v) ∨
    (e = .noSpace ∧ ∃ fam l' k, FatWellFormed g v fam ∧ k < n.toNat ∧ RanOut g fam v v' h l' data k ∧
      (v' = v ↔ NoRoom g fam v h)) := by
  have hg := hw.geometry
  obtain ⟨fam, hc, -⟩ := hrun.invariant hg hw.mounted hfuel (fun _ _ _ _ => trivial) (I := fun _ _ => True)
    (hw.consistent hclosed) trivial
  by_cases hwr : Writing v h
  · obtain ⟨s', l', k, hwrote, hsame, ⟨-, hwrite⟩ | ⟨hk, hstuck, hwrite⟩⟩ :=
      run_fsWrite (s := ⟨v.disk, v.files h⟩) hg hw.mounted hc.fat hwr.1 hwr.2 (hc.handle h hwr.1).first data n
    · rw [callOn_write hwrite] at hcall
      cases hcall
    · rw [callOn_write hwrite] at hcall
      obtain ⟨he, rfl⟩ := Prod.mk.inj hcall
      obtain rfl := Outcome.error.inj he
      have hout := hc.ranOut hg hwr hwrote hstuck
      refine Or.inr ⟨rfl, fam, l', k, hc.fatWellFormed, hk, hout, hout.unchanged_iff fun hz hl => ?_⟩
      rw [hsame hz hl, Function.update_eq_self]
  · rw [callOn_write_refused hw.mounted hwr] at hcall
    obtain ⟨he, rfl⟩ := Prod.mk.inj hcall
    obtain rfl := Outcome.error.inj he
    left
    refine ⟨?_, rfl⟩
    split <;> simp

/-- A file that is open for writing, with a position far behind its end. -/
def farVolume : Volume := formattedAfter [(0, .openFile pathA fsOpenWrite), (0, .seek 0xFFFFFFFF)]

lemma far_calls : Calls formattedMount 65526 (fun _ _ _ => True) formattedVolume farVolume :=
  Calls.call (Calls.call Calls.none trivial) trivial

lemma far_handle : (farVolume.files 0).valid = true ∧ (farVolume.files 0).canWrite = true ∧
    (farVolume.files 0).position = 0xFFFFFFFF ∧ fatValue formattedMount farVolume.disk 3 = 0 := by
  decide +kernel

lemma far_write : ∃ v', callOn formattedMount 65526 farVolume 0 (.write (fun _ => 7) 1) = (.error .noSpace, v') ∧
    ∀ c, InRange formattedMount c → fatValue formattedMount v'.disk c ≠ 0 := by
  have hg := formatted_geometry
  obtain ⟨hv, hw, hposition, -⟩ := far_handle
  obtain ⟨fam, hc, -⟩ := far_calls.invariant hg formatted_wellFormed.mounted formatted_fuel
    (fun _ _ _ _ => trivial) (I := fun _ _ => True) (formatted_wellFormed.consistent formatted_closed) trivial
  obtain ⟨s', l', k, hwrote, -, ⟨hk, -⟩ | ⟨-, hstuck, hrun⟩⟩ :=
    run_fsWrite (s := ⟨farVolume.disk, farVolume.files 0⟩) hg formatted_wellFormed.mounted hc.fat hv hw
      (hc.handle 0 hv).first (fun _ => 7) 1
  · have hlen := hwrote.ok.length_le (farVolume.files 0).firstCluster
    rw [Function.update_self, formatted_numbers.2.2.2.2.1] at hlen
    have hcluster : clusterBytes formattedMount = 512 := by decide +kernel
    have hone : (1 : UInt32).toNat = 1 := rfl
    have hfar : (0xFFFFFFFF : UInt32).toNat = 4294967295 := rfl
    have hcount : (65525 : UInt32).toNat = 65525 := rfl
    rcases hwrote.room with hz | hroom
    · omega
    · simp only [hposition, hfar, hcluster] at hroom
      omega
  · refine ⟨_, callOn_write hrun, fun c hr hz => ?_⟩
    exact hstuck.full c hr ((fatValue_eq_zero_iff hr).mp hz)

/-- That write, and the clusters that it has used up. -/
theorem failed_write_far : ∃ v' fam l' k,
    callOn formattedMount 65526 farVolume 0 (.write (fun _ => 7) 1) = (.error .noSpace, v') ∧
    RanOut formattedMount fam farVolume v' 0 l' (fun _ => 7) k := by
  obtain ⟨v', hcall, -⟩ := far_write
  rcases failed_write formatted_wellFormed formatted_closed formatted_fuel far_calls 0 (fun _ => 7) 1 hcall with
    ⟨hne, -⟩ | ⟨-, fam, l', k, -, -, hout, -⟩
  · exact absurd rfl hne
  · exact ⟨v', fam, l', k, hcall, hout⟩

/-- Cluster 3 was free before the call and is in use after it. -/
theorem failed_write_consumes : fatValue formattedMount farVolume.disk 3 = 0 ∧
    ∃ v', callOn formattedMount 65526 farVolume 0 (.write (fun _ => 7) 1) = (.error .noSpace, v') ∧
      fatValue formattedMount v'.disk 3 ≠ 0 := by
  obtain ⟨v', hcall, hfull⟩ := far_write
  exact ⟨far_handle.2.2.2, v', hcall, hfull 3 (formatted_inRange.mpr (by decide))⟩

end Runs

end SBoy28.Fat32
