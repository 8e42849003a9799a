import SBoy28.Fat32.Consistency

/-!
# Volumes with the same FAT

Where a write goes and how it ends only depends on the handle and on the FAT.
-/

namespace SBoy28.Fat32
open Lib

variable {g : FSMount} {ι : Type} {chains : ι → List UInt32} {o : ι} {s t s' t' : State}
  {l l' : List UInt32} {data : Memory} {k k' : ℕ}

/-- The same handle, and the same bytes up to the first cluster. -/
structure SameFat (g : FSMount) (s t : State) : Prop where
  file : t.file = s.file
  low : ∀ a < dataBase g, t.disk a = s.disk a

namespace SameFat

variable (h : SameFat g s t)

include h

lemma table_eq (hg : Geometry g) : table g t.disk = table g s.disk := table_congr hg h.low

lemma fatValue_eq (hg : Geometry g) {c : UInt32} (hc : InRange g c) :
    fatValue g t.disk c = fatValue g s.disk c := by
  rw [fatValue, fatValue, load32_congr]
  intro i hi
  exact h.low _ (InFat.lt hg hc ⟨0, hg.numFats_pos, Nat.le_add_right _ _, by omega⟩)

omit h in
lemma setCopies_low (hg : Geometry g) {c value : UInt32} (hc : InRange g c) (ks : List ℕ)
    (hks : ∀ k ∈ ks, k < g.bpb.numFats.toNat) {disk disk' : Memory}
    (hd : ∀ a < dataBase g, disk' a = disk a) :
    ∀ a < dataBase g, setCopies g c value ks disk' a = setCopies g c value ks disk a := by
  induction ks generalizing disk disk' with
  | nil => exact hd
  | cons k ks ih =>
    have hk := hks k (by simp)
    apply ih (fun k' hk' => hks k' (by simp [hk']))
    have hload : load32 disk' (fatAddr g k c) = load32 disk (fatAddr g k c) := by
      apply load32_congr
      intro i hi
      exact hd _ (InFat.lt hg hc ⟨k, hk, Nat.le_add_right _ _, by omega⟩)
    intro a ha
    rw [hload]
    simp only [store32]
    split
    · rfl
    · exact hd a ha

lemma setFat (hg : Geometry g) {c : UInt32} (hc : InRange g c) (value : UInt32) :
    SameFat g { s with disk := setFat g s.disk c value } { t with disk := setFat g t.disk c value } where
  file := h.file
  low := setCopies_low hg hc _ (by simp) h.low

lemma allocFrom (hg : Geometry g) (n : ℕ) (cl : UInt32) (h2 : 2 ≤ cl.toNat)
    (hn : cl.toNat + n = g.clusterCount.toNat + 2) :
    Alike (SameFat g) ((allocFrom g n cl).run (handler g) s) ((allocFrom g n cl).run (handler g) t) := by
  have hcount := hg.clusterCount_lt
  induction n generalizing cl with
  | zero => exact Alike.same h
  | succ n ih =>
    have hcl : InRange g cl := ⟨h2, by omega⟩
    have hnext : (cl + 1).toNat = cl.toNat + 1 := by
      rw [toNat_add_of_lt]
      · simp
      · simp only [UInt32.reduceToNat]
        omega
    simp only [Fat32.allocFrom, Program.run_bind, run_getFatEntry, fatEntry_eq hg _ hcl, Outcome.ofExcept,
      h.fatValue_eq hg hcl]
    by_cases hv : fatValue g s.disk cl = 0
    · simp only [if_pos hv, Program.run_bind, run_setFatEntry hg hcl]
      exact Alike.same (h.setFat hg hcl _)
    · simp only [if_neg hv]
      exact ih (cl + 1) (by omega) (by omega)

lemma allocCluster (hg : Geometry g) :
    Alike (SameFat g) ((allocCluster g).run (handler g) s) ((allocCluster g).run (handler g) t) := by
  have hcount := hg.clusterCount_lt
  have hsum : (g.clusterCount + 2).toNat = g.clusterCount.toNat + 2 := by
    rw [toNat_add_of_lt] <;> simp
    omega
  exact h.allocFrom hg _ 2 (by simp) (by simp; omega)

lemma getFatEntry_pair (hg : Geometry g) {c : UInt32} (hc : InRange g c) :
    (getFatEntry g c).run (handler g) s = (.ok (fatValue g s.disk c), s) ∧
      (getFatEntry g c).run (handler g) t = (.ok (fatValue g s.disk c), t) := by
  rw [run_getFatEntry, run_getFatEntry, fatEntry_eq hg _ hc, fatEntry_eq hg _ hc, h.fatValue_eq hg hc]
  exact ⟨rfl, rfl⟩

lemma walkChain [DecidableEq ι] (hg : Geometry g) (i j : ℕ) (hf : FatOk g s.disk chains)
    (hhead : headOf s.file.firstCluster = (chains o).head?) (hj : j < (chains o).length) :
    Alike (SameFat g) ((walkChain g true i (chains o)[j]).run (handler g) s)
      ((walkChain g true i (chains o)[j]).run (handler g) t) := by
  induction i generalizing j chains s t with
  | zero => exact Alike.same h
  | succ i ih =>
    have hr : InRange g (chains o)[j] := hf.range o _ (List.getElem_mem hj)
    have hchain := hf.family.chain o
    obtain ⟨hget, hget'⟩ := h.getFatEntry_pair hg hr
    rw [Fat32.walkChain, Program.run_bind_ok hget, Program.run_bind_ok hget']
    by_cases hlast : j + 1 = (chains o).length
    · -- both walks extend the chain, by the same cluster
      have hend := fatValue_of_last hr ((hchain.last_iff hj).mpr hlast)
      simp only [if_pos hend, Bool.true_eq_false, if_false]
      apply (h.allocCluster hg).bind
      intro c s₁ t₁ hs ht hst
      rcases run_allocCluster hg s with ⟨c', hc, hfree, halloc⟩ | ⟨-, halloc⟩
      · rw [hs] at halloc
        simp only [Prod.mk.injEq, Outcome.ok.injEq] at halloc
        obtain ⟨rfl, rfl⟩ := halloc
        obtain ⟨l, hl⟩ := eq_concat_getElem hj hlast
        have hgrown := Grown.link hg hf hhead hl hc hfree
        have hlen : j + 1 < (Function.update chains o (chains o ++ [c]) o).length := by
          rw [Function.update_self, List.length_append, List.length_singleton]
          omega
        have hwalk := ih (hst.setFat hg hr c) (j + 1) hgrown.ok (by rw [hgrown.head, Function.update_self]) hlen
        simp only [Function.update_self, hlast, List.getElem_concat_length] at hwalk
        rw [Program.run_bind_ok (run_setFatEntry hg hr c _), Program.run_bind_ok (run_setFatEntry hg hr c _)]
        exact hwalk
      · rw [hs] at halloc
        simp at halloc
    · have hj' : j + 1 < (chains o).length := by omega
      have hr' : InRange g (chains o)[j + 1] := hf.range o _ (List.getElem_mem hj')
      have hnext := fatValue_of_next hr (hchain.next_of_lt hj')
      simp only [hnext, if_neg (hr'.not_end hg)]
      exact ih h (j + 1) hf hhead hj'

/-- `file_cluster_for_position` for a write. -/
theorem fileCluster [DecidableEq ι] (hg : Geometry g) (hf : FatOk g s.disk chains)
    (hhead : headOf s.file.firstCluster = (chains o).head?) (pos : UInt32) :
    Alike (SameFat g) ((fileClusterForPosition g pos true).run (handler g) s)
      ((fileClusterForPosition g pos true).run (handler g) t) := by
  rw [fileClusterForPosition, Program.run_bind_ok (run_getFile g s), Program.run_bind_ok (run_getFile g t),
    h.file]
  cases hl : chains o with
  | nil =>
    have hfirst : s.file.firstCluster < 2 := headOf_eq_none (by rw [hhead, hl]; rfl)
    simp only [if_pos hfirst, Bool.true_eq_false, if_false]
    apply (h.allocCluster hg).bind
    intro c s₁ t₁ hs ht hst
    rcases run_allocCluster hg s with ⟨c', hc, hfree, halloc⟩ | ⟨-, halloc⟩
    · rw [hs] at halloc
      simp only [Prod.mk.injEq, Outcome.ok.injEq] at halloc
      obtain ⟨rfl, rfl⟩ := halloc
      have hgrown := Grown.first hg hf hl hc hfree
      have hsame : SameFat g ⟨Fat32.setFat g s.disk c 0x0FFFFFFF, { s.file with firstCluster := c }⟩
          ⟨t₁.disk, { s.file with firstCluster := c }⟩ := ⟨rfl, hst.low⟩
      have hwalk := hsame.walkChain hg (pos / g.bytesPerCluster).toNat 0 hgrown.ok
        (by rw [hgrown.head, Function.update_self]) (by simp)
      simp only [Function.update_self, List.getElem_cons_zero] at hwalk
      rw [Program.run_bind_ok (run_setFile g _ _), Program.run_bind_ok (run_setFile g _ _)]
      exact hwalk
    · rw [hs] at halloc
      simp at halloc
  | cons first l =>
    obtain ⟨hge, hfirst⟩ := headOf_eq_some (show headOf s.file.firstCluster = some first by rw [hhead, hl]; rfl)
    have hwalk := h.walkChain hg (pos / g.bytesPerCluster).toNat 0 hf hhead (by simp [hl])
    simp only [hl, List.getElem_cons_zero] at hwalk
    rw [hfirst] at hge
    simp only [hfirst, if_neg hge]
    exact hwalk

omit h in
lemma copyTo_low (hg : Geometry g) {c : UInt32} (hr : InRange g c) (pos : UInt32) (disk buf : Memory) :
    ∀ a < dataBase g, copyTo disk ((sectorOfPosition g c pos).1.toNat * g.bps.toNat) buf g.bps.toNat a =
      disk a := by
  intro a ha
  have hsector := (sectorOfPosition_toNat hg hr pos).1
  have hle : g.dataStartSector.toNat ≤ (sectorOfPosition g c pos).1.toNat := by
    rw [hsector, clusterSector]
    exact Nat.le_trans (Nat.le_add_right _ _) (Nat.le_add_right _ _)
  have hmul := Nat.mul_le_mul_right g.bps.toNat hle
  apply copyTo_outside
  rw [dataBase] at ha
  omega

/-- The loop of `fs_write`, whatever the buffers hold. -/
theorem writeLoop [DecidableEq ι] (hg : Geometry g) (data : Memory) (n : UInt32) (fuel : ℕ) (done : UInt32)
    (sec sec' : Memory) (hf : FatOk g s.disk chains)
    (hhead : headOf s.file.firstCluster = (chains o).head?) :
    Alike (SameFat g) ((writeLoop g data n fuel done sec).run (handler g) s)
      ((writeLoop g data n fuel done sec').run (handler g) t) := by
  induction fuel generalizing done sec sec' s t chains with
  | zero =>
    rw [Fat32.writeLoop, Fat32.writeLoop]
    split
    · exact Alike.same h
    · exact Alike.same h
  | succ fuel ih =>
    by_cases hlt : done < n
    · rw [Fat32.writeLoop, Fat32.writeLoop, if_pos hlt, if_pos hlt,
        Program.run_bind_ok (run_getFile g s), Program.run_bind_ok (run_getFile g t), h.file]
      apply (h.fileCluster hg hf hhead s.file.position).bind
      intro c s₁ t₁ hs ht hst
      obtain ⟨s₁', l₁, hgrown, -, ⟨hidx, hrun⟩ | ⟨-, hrun⟩⟩ :=
        run_fileCluster_extend hg hf hhead s.file.position
      · rw [hs] at hrun
        simp only [Prod.mk.injEq, Outcome.ok.injEq] at hrun
        obtain ⟨rfl, rfl⟩ := hrun
        have hr := hgrown.range _ (List.getElem_mem hidx)
        have hin := sectorOfPosition_inBounds hg hr s.file.position
        rw [Program.run_bind_ok (run_read_ok g hin sec s₁), Program.run_bind_ok (run_read_ok g hin sec' t₁),
          Program.run_bind_ok (run_write_ok g hin _ s₁), Program.run_bind_ok (run_write_ok g hin _ t₁),
          Program.run_bind_ok (run_getFile g _), Program.run_bind_ok (run_getFile g _),
          Program.run_bind_ok (run_setFile g _ _), Program.run_bind_ok (run_setFile g _ _)]
        apply ih _ _ _ _ (hgrown.ok.congr hg (copyTo_low hg hr _ _ _))
        · rw [Function.update_self]
          exact hgrown.head
        · refine ⟨by simp only [hst.file], ?_⟩
          intro a ha
          simp only [copyTo_low hg hr _ _ _ a ha]
          exact hst.low a ha
      · rw [hs] at hrun
        simp at hrun
    · rw [Fat32.writeLoop, Fat32.writeLoop, if_neg hlt, if_neg hlt]
      exact Alike.same h

/-- `fs_write` ends with the same outcome, at the same position and with the same FAT. -/
theorem fsWrite [DecidableEq ι] (hg : Geometry g) (hm : g.mounted = true) (hf : FatOk g s.disk chains)
    (hhead : headOf s.file.firstCluster = (chains o).head?) (data : Memory) (n : UInt32) :
    Alike (SameFat g) ((fsWrite g data n).run (handler g) s) ((fsWrite g data n).run (handler g) t) := by
  simp only [Fat32.fsWrite, hm, Bool.true_eq_false, if_false]
  rw [Program.run_bind_ok (run_getFile g s), Program.run_bind_ok (run_getFile g t), h.file]
  cases hv : s.file.valid with
  | false => exact Alike.same h
  | true =>
    cases hw : s.file.canWrite with
    | false => exact Alike.same h
    | true =>
      simp only [Bool.true_eq_false, if_false, if_neg hg.bps_le_512]
      exact h.writeLoop hg data n n.toNat 0 g.stack g.stack hf hhead

end SameFat

section Writes

variable [DecidableEq ι]

/-- Writes that end with the same FAT have taken the same clusters. -/
lemma Wrote.same (hg : Geometry g) (h : SameFat g s t) (h' : SameFat g s' t')
    (hw : Wrote g chains o s s' l data k) (hw' : Wrote g chains o t t' l' data k') : l' = l ∧ k' = k := by
  constructor
  · have hchain := hw.ok.family.chain o
    have hchain' := hw'.ok.family.chain o
    rw [Function.update_self] at hchain hchain'
    rw [h'.table_eq hg] at hchain'
    apply hchain'.unique hchain
    rw [← hw.head, ← hw'.head, h'.file]
  · have hpos := hw.position
    have hpos' := hw'.position
    rw [h'.file, h.file] at hpos'
    omega

/-- Every byte of a cluster of a file is one of its contents. -/
lemma exists_contentAddr {c : UInt32} (hc : c ∈ l) {a : ℕ} (ha : InData g c a) :
    ∃ i < l.length * clusterBytes g, contentAddr g l i = a := by
  obtain ⟨j, hj, rfl⟩ := List.getElem_of_mem hc
  obtain ⟨r, hr⟩ := Nat.exists_eq_add_of_le ha.1
  have hlt : r < clusterBytes g := by
    have hhi := ha.2
    omega
  have hdiv : (j * clusterBytes g + r) / clusterBytes g = j := by
    rw [Nat.mul_comm, Nat.mul_add_div (by omega), Nat.div_eq_of_lt hlt, Nat.add_zero]
  have hmod : (j * clusterBytes g + r) % clusterBytes g = r := by
    rw [Nat.mul_comm, Nat.mul_add_mod, Nat.mod_eq_of_lt hlt]
  refine ⟨j * clusterBytes g + r, ?_, ?_⟩
  · have hmul := Nat.mul_le_mul_right (clusterBytes g) hj
    rw [Nat.succ_mul] at hmul
    omega
  · rw [contentAddr, hdiv, hmod, List.getD_eq_getElem _ _ hj, hr]
    simp only [dataAddr, Nat.add_zero]

/-- Bytes that were equal before two such writes are equal after them. -/
lemma Wrote.closer (hg : Geometry g) (h : SameFat g s t) (h' : SameFat g s' t')
    (hw : Wrote g chains o s s' l data k) (hw' : Wrote g chains o t t' l data k) {a : ℕ}
    (ha : t.disk a = s.disk a) : t'.disk a = s'.disk a := by
  by_cases hlow : a < dataBase g
  · exact h'.low a hlow
  · by_cases hin : ∃ c ∈ l, InData g c a
    · obtain ⟨c, hc, hin⟩ := hin
      obtain ⟨i, hi, rfl⟩ := exists_contentAddr hc hin
      have hbytes := hw.bytes i hi
      have hbytes' := hw'.bytes i hi
      rw [content] at hbytes hbytes'
      rw [hbytes, hbytes', h.file]
      exact copyTo_at _ _ _ ha
    · have hout : ∀ c ∈ l, ¬InFat g c a ∧ ¬InData g c a := by
        intro c hc
        refine ⟨fun hf => hlow (hf.lt hg (hw.range c hc)), fun hd => hin ⟨c, hc, hd⟩⟩
      rw [hw.frame a hout, hw'.frame a hout, ha]

end Writes

end SBoy28.Fat32
