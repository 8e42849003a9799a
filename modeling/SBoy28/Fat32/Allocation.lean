import SBoy28.Fat32.Table
import Mathlib.Data.List.Perm.Subperm
import Mathlib.Logic.Equiv.Basic

/-!
# Growing a file

`file_cluster_for_position` walks the chain of a file and, for a write, makes it as long as
the position asks for. Whatever happens on the way, the chains of the volume stay chains, and
only entries of the FAT change that belong to the file afterwards.
-/

namespace SBoy28.Fat32
open Lib

variable {g : FSMount} {ι : Type}

/-- The FAT of a volume with the chains of its owners. -/
structure FatOk (g : FSMount) (disk : Memory) (chains : ι → List UInt32) : Prop where
  copies : CopiesEqual g disk
  family : Chains (table g disk) chains
  range : ∀ o, ∀ c ∈ chains o, InRange g c

lemma FatOk.congr {disk disk' : Memory} {chains : ι → List UInt32} (hg : Geometry g)
    (h : FatOk g disk chains) (he : ∀ a, a < dataBase g → disk' a = disk a) :
    FatOk g disk' chains where
  copies := h.copies.congr hg he
  family := by
    rw [table_congr hg he]
    exact h.family
  range := h.range

/-- The only member of a family at two names can take either. -/
lemma FatOk.rename [DecidableEq ι] {disk : Memory} {chains : ι → List UInt32} {o o' : ι}
    {l : List UInt32} (h : FatOk g disk (Function.update chains o l)) (ho : chains o = [])
    (ho' : chains o' = []) : FatOk g disk (Function.update chains o' l) := by
  have he : Function.update chains o' l =
      fun i => Function.update chains o l (Equiv.swap o o' i) := by
    funext i
    by_cases hi' : i = o'
    · subst hi'
      rw [Equiv.swap_apply_right, Function.update_self, Function.update_self]
    · by_cases hi : i = o
      · subst hi
        rw [Equiv.swap_apply_left, Function.update_of_ne hi', Function.update_of_ne (Ne.symm hi'), ho, ho']
      · rw [Equiv.swap_apply_of_ne_of_ne hi hi', Function.update_of_ne hi, Function.update_of_ne hi']
  rw [he]
  exact ⟨h.copies, h.family.comp (Equiv.swap o o').injective, fun i => h.range _⟩

/-- The head of the chain that a first-cluster number stands for. -/
def headOf (first : UInt32) : Option UInt32 := if first < 2 then none else some first

lemma headOf_inRange {c : UInt32} (hc : InRange g c) : headOf c = some c := by
  apply if_neg
  rw [UInt32.lt_iff_toNat_lt, Nat.not_lt]
  exact hc.1

lemma InRange.ge (c : UInt32) : 2 ≤ c.toNat ↔ ¬c < 2 := by
  rw [UInt32.lt_iff_toNat_lt, Nat.not_lt]
  rfl

section Alloc

/-- `alloc_cluster` takes a free cluster, and fails only if there is none. -/
theorem run_allocCluster (hg : Geometry g) (s : State) :
    (∃ c, InRange g c ∧ table g s.disk c = .free ∧
      (allocCluster g).run (handler g) s =
        (.ok c, { s with disk := setFat g s.disk c 0x0FFFFFFF })) ∨
    ((∀ c, InRange g c → table g s.disk c ≠ .free) ∧
      (allocCluster g).run (handler g) s = (.error .noSpace, s)) := by
  cases hg.region.run_allocCluster s with
  | inl h =>
    obtain ⟨c, h2, hc, hzero, -, hrun⟩ := h
    have hin : InRange g c := ⟨h2, hc⟩
    exact Or.inl ⟨c, hin, (fatValue_eq_zero_iff hin).mp hzero, hrun⟩
  | inr h => exact Or.inr ⟨fun c hc hfree => h.1 c hc.1 hc.2 ((fatValue_eq_zero_iff hc).mpr hfree), h.2⟩

end Alloc

section Grown

variable {chains : ι → List UInt32} {o : ι} {s s' s'' : State} {l l' : List UInt32}

lemma length_le_clusterCount {l : List UInt32} (hnd : l.Nodup) (hr : ∀ c ∈ l, InRange g c) :
    l.length ≤ g.clusterCount.toNat := by
  have hnd' : (l.map UInt32.toNat).Nodup := hnd.map (fun _ _ he => UInt32.toNat_inj.mp he)
  have hsub : l.map UInt32.toNat ⊆ List.range' 2 g.clusterCount.toNat := by
    intro x hx
    obtain ⟨c, hc, rfl⟩ := List.mem_map.mp hx
    have hin := hr c hc
    rw [List.mem_range'_1]
    exact ⟨hin.1, by have hlt := hin.2; omega⟩
  simpa using (List.subperm_of_subset hnd' hsub).length_le

lemma FatOk.length_le {disk : Memory} (h : FatOk g disk chains) (o : ι) :
    (chains o).length ≤ g.clusterCount.toNat :=
  length_le_clusterCount (h.family.chain o).nodup (h.range o)

/-- What a walk may change: the chain of `o` becomes `l'`, by free clusters put behind it. -/
structure Grown [DecidableEq ι] (g : FSMount) (chains : ι → List UInt32) (o : ι) (s s' : State)
    (l' : List UInt32) : Prop where
  ok : FatOk g s'.disk (Function.update chains o l')
  pre : chains o <+: l'
  fresh : ∀ c ∈ l', c ∉ chains o → table g s.disk c = .free
  file : s'.file = { s.file with firstCluster := s'.file.firstCluster }
  head : headOf s'.file.firstCluster = l'.head?
  frame : ∀ a, (∀ c ∈ l', ¬InFat g c a) → s'.disk a = s.disk a

variable [DecidableEq ι]

lemma Grown.refl (h : FatOk g s.disk chains) (hhead : headOf s.file.firstCluster = (chains o).head?) :
    Grown g chains o s s (chains o) where
  ok := by rwa [Function.update_eq_self]
  pre := List.prefix_refl _
  fresh c hc hn := absurd hc hn
  file := rfl
  head := hhead
  frame _ _ := rfl

lemma Grown.range (h : Grown g chains o s s' l') : ∀ c ∈ l', InRange g c := by
  intro c hc
  exact h.ok.range o c (by rwa [Function.update_self])

lemma Grown.table_off (hg : Geometry g) (h : Grown g chains o s s' l') {c : UInt32} (hc : c ∉ l') :
    table g s'.disk c = table g s.disk c := by
  by_cases hr : InRange g c
  · apply table_frame hg
    intro a ha
    apply h.frame
    intro c' hc' hin
    exact hc (InFat.unique hg (h.range c' hc') hr hin ha ▸ hc')
  · rw [table, table, if_neg hr, if_neg hr]

theorem Grown.trans (hg : Geometry g) (h : Grown g chains o s s' l)
    (h' : Grown g (Function.update chains o l) o s' s'' l') : Grown g chains o s s'' l' where
  ok := by
    have hok := h'.ok
    rwa [Function.update_idem] at hok
  pre := by
    have hpre := h'.pre
    rw [Function.update_self] at hpre
    exact h.pre.trans hpre
  fresh c hc hn := by
    by_cases hcl : c ∈ l
    · exact h.fresh c hcl hn
    · rw [← h.table_off hg hcl]
      exact h'.fresh c hc (by rwa [Function.update_self])
  file := by rw [h'.file, h.file]
  head := h'.head
  frame a ha := by
    have hpre := h'.pre
    rw [Function.update_self] at hpre
    rw [h'.frame a ha, h.frame a (fun c hc => ha c (hpre.subset hc))]

/-- An empty file gets its first cluster. -/
theorem Grown.first (hg : Geometry g) (h : FatOk g s.disk chains) (hl : chains o = []) {c : UInt32}
    (hc : InRange g c) (hfree : table g s.disk c = .free) :
    Grown g chains o s ⟨setFat g s.disk c 0x0FFFFFFF, { s.file with firstCluster := c }⟩ [c] where
  ok := by
    have hgrow := h.family.grow o hfree
    rw [hl, grow_nil, List.nil_append] at hgrow
    refine ⟨h.copies.setFat hg hc, ?_, ?_⟩
    · rwa [table_setFat hg hc, decodeLink_end]
    · intro o' c' hc'
      by_cases ho : o' = o
      · subst ho
        rw [Function.update_self, List.mem_singleton] at hc'
        exact hc' ▸ hc
      · rw [Function.update_of_ne ho] at hc'
        exact h.range o' c' hc'
  pre := by simp [hl]
  fresh c' hc' _ := by
    rw [List.mem_singleton] at hc'
    exact hc' ▸ hfree
  file := rfl
  head := headOf_inRange hc
  frame a ha := setFat_off (ha c (by simp))

/-- A file gets one more cluster. -/
theorem Grown.link (hg : Geometry g) (h : FatOk g s.disk chains)
    (hhead : headOf s.file.firstCluster = (chains o).head?) {b c : UInt32}
    (hl : chains o = l ++ [b]) (hc : InRange g c) (hfree : table g s.disk c = .free) :
    Grown g chains o s
      { s with disk := setFat g (setFat g s.disk c 0x0FFFFFFF) b c } (chains o ++ [c]) where
  ok := by
    have hb : InRange g b := h.range o b (by simp [hl])
    have hbc : b ≠ c := by
      rintro rfl
      exact (h.family.chain o).2 b (by simp [hl]) hfree
    have hgrow := h.family.grow o hfree
    refine ⟨(h.copies.setFat hg hc).setFat hg hb, ?_, ?_⟩
    · rw [table_setFat hg hb, table_setFat hg hc, decodeLink_end, decodeLink_cluster hg hc,
        ← grow_concat l hbc, ← hl]
      exact hgrow
    · intro o' c' hc'
      by_cases ho : o' = o
      · subst ho
        rw [Function.update_self, List.mem_append, List.mem_singleton] at hc'
        rcases hc' with hc' | rfl
        · exact h.range o' c' hc'
        · exact hc
      · rw [Function.update_of_ne ho] at hc'
        exact h.range o' c' hc'
  pre := List.prefix_append _ _
  fresh c' hc' hn := by
    rw [List.mem_append, List.mem_singleton] at hc'
    rcases hc' with hc' | rfl
    · exact absurd hc' hn
    · exact hfree
  file := rfl
  head := by
    rw [hhead, hl]
    cases l <;> rfl
  frame a ha := by
    have hb : ¬InFat g b a := ha b (by simp [hl])
    have hc' : ¬InFat g c a := ha c (by simp)
    simp only
    rw [setFat_off hb, setFat_off hc']

end Grown

section Walk

variable {chains : ι → List UInt32} {o : ι} {s : State}

lemma eq_concat_getElem {α : Type} {l : List α} {j : ℕ} (hj : j < l.length) (hlast : j + 1 = l.length) :
    ∃ t, l = t ++ [l[j]] := by
  have hne : l ≠ [] := List.ne_nil_of_length_pos (by omega)
  refine ⟨l.dropLast, ?_⟩
  have hgl := List.getLast_eq_getElem hne
  have hidx : l.length - 1 = j := by omega
  simp only [hidx] at hgl
  rw [← hgl, List.dropLast_append_getLast]

/-- No cluster is free, and the chain ends before the cluster with this index. -/
structure OutOfSpace (g : FSMount) (disk : Memory) (l : List UInt32) (idx : ℕ) : Prop where
  full : ∀ c, InRange g c → table g disk c ≠ .free
  short : l.length ≤ idx

/-- Walking `i` links on from the cluster at index `j`, extending the chain at its end. -/
lemma run_walkChain [DecidableEq ι] (hg : Geometry g) (i j : ℕ) (h : FatOk g s.disk chains)
    (hhead : headOf s.file.firstCluster = (chains o).head?) (hj : j < (chains o).length) :
    ∃ s' l', Grown g chains o s s' l' ∧ (l' = chains o → s' = s) ∧
      ((∃ hlt : j + i < l'.length,
        (walkChain g true i (chains o)[j]).run (handler g) s = (.ok l'[j + i], s')) ∨
      (OutOfSpace g s'.disk l' (j + i) ∧
        (walkChain g true i (chains o)[j]).run (handler g) s = (.error .noSpace, s'))) := by
  induction i generalizing j chains s with
  | zero => exact ⟨s, chains o, Grown.refl h hhead, fun _ => rfl, Or.inl ⟨hj, rfl⟩⟩
  | succ i ih =>
    have hr : InRange g (chains o)[j] := h.range o _ (List.getElem_mem hj)
    have hchain := h.family.chain o
    simp only [walkChain, Program.run_bind, run_getFatEntry, fatEntry_eq hg _ hr, Outcome.ofExcept]
    by_cases hlast : j + 1 = (chains o).length
    · -- the walk has come to the end of the chain
      have hend := fatValue_of_last hr ((hchain.last_iff hj).mpr hlast)
      simp only [if_pos hend, Bool.true_eq_false, if_false]
      rcases run_allocCluster hg s with ⟨c, hc, hfree, halloc⟩ | ⟨hfull, halloc⟩
      · obtain ⟨l, hl⟩ := eq_concat_getElem hj hlast
        have hgrown := Grown.link hg h hhead hl hc hfree
        have hj' : j + 1 < (Function.update chains o (chains o ++ [c]) o).length := by
          rw [Function.update_self, List.length_append, List.length_singleton]
          omega
        have hget : (Function.update chains o (chains o ++ [c]) o)[j + 1] = c := by
          simp only [Function.update_self, hlast, List.getElem_concat_length]
        obtain ⟨s', l', hgrown', -, hrun⟩ := ih (j + 1) hgrown.ok
          (by rw [hgrown.head, Function.update_self]) hj'
        refine ⟨s', l', hgrown.trans hg hgrown', fun he => ?_, ?_⟩
        · have hlen := hgrown'.pre.length_le
          rw [Function.update_self, he, List.length_append, List.length_singleton] at hlen
          omega
        simp only [hget] at hrun
        simp only [Program.run_bind, halloc, run_setFatEntry hg hr]
        rw [show j + (i + 1) = j + 1 + i by omega]
        exact hrun
      · refine ⟨s, chains o, Grown.refl h hhead, fun _ => rfl, Or.inr ⟨⟨hfull, by omega⟩, ?_⟩⟩
        simp only [Program.run_bind, halloc]
    · have hj' : j + 1 < (chains o).length := by omega
      have hr' : InRange g (chains o)[j + 1] := h.range o _ (List.getElem_mem hj')
      have hnext := fatValue_of_next hr (hchain.next_of_lt hj')
      simp only [hnext, if_neg (hr'.not_end hg)]
      rw [show j + (i + 1) = j + 1 + i by omega]
      exact ih (j + 1) h hhead hj'

lemma run_walkChain_inside (hg : Geometry g) (i j : ℕ) (h : FatOk g s.disk chains)
    (hj : j < (chains o).length) (hji : j + i < (chains o).length) :
    (walkChain g false i (chains o)[j]).run (handler g) s = (.ok (chains o)[j + i], s) := by
  induction i generalizing j with
  | zero => rfl
  | succ i ih =>
    have hj' : j + 1 < (chains o).length := by omega
    have hr : InRange g (chains o)[j] := h.range o _ (List.getElem_mem _)
    have hr' : InRange g (chains o)[j + 1] := h.range o _ (List.getElem_mem _)
    have hnext := fatValue_of_next hr ((h.family.chain o).next_of_lt hj')
    simp only [walkChain, Program.run_bind, run_getFatEntry, fatEntry_eq hg _ hr,
      Outcome.ofExcept, hnext, if_neg (hr'.not_end hg)]
    rw [ih (j + 1) hj' (by omega)]
    simp only [show j + 1 + i = j + (i + 1) by omega]

lemma headOf_eq_some {first c : UInt32} (h : headOf first = some c) : ¬first < 2 ∧ first = c := by
  rw [headOf] at h
  split at h
  · cases h
  · rename_i hlt
    exact ⟨hlt, Option.some.inj h⟩

lemma headOf_eq_none {first : UInt32} (h : headOf first = none) : first < 2 := by
  rw [headOf] at h
  split at h
  · assumption
  · cases h

/-- `file_cluster_for_position` for a write. -/
theorem run_fileCluster_extend [DecidableEq ι] (hg : Geometry g) (h : FatOk g s.disk chains)
    (hhead : headOf s.file.firstCluster = (chains o).head?) (pos : UInt32) :
    ∃ s' l', Grown g chains o s s' l' ∧ (l' = chains o → s' = s) ∧
      ((∃ hlt : pos.toNat / clusterBytes g < l'.length,
        (fileClusterForPosition g pos true).run (handler g) s =
          (.ok l'[pos.toNat / clusterBytes g], s')) ∨
      (OutOfSpace g s'.disk l' (pos.toNat / clusterBytes g) ∧
        (fileClusterForPosition g pos true).run (handler g) s = (.error .noSpace, s'))) := by
  have hidx : (pos / g.bytesPerCluster).toNat = pos.toNat / clusterBytes g := by
    rw [UInt32.toNat_div, hg.bytesPerCluster_eq]
  simp only [fileClusterForPosition, Program.run_bind, run_getFile, hidx]
  cases hl : chains o with
  | nil =>
    have hfirst : s.file.firstCluster < 2 := headOf_eq_none (by rw [hhead, hl]; rfl)
    simp only [if_pos hfirst, Bool.true_eq_false, if_false, Program.run_bind]
    rcases run_allocCluster hg s with ⟨c, hc, hfree, halloc⟩ | ⟨hfull, halloc⟩
    · have hgrown := Grown.first hg h hl hc hfree
      have hj : 0 < (Function.update chains o [c] o).length := by simp
      obtain ⟨s', l', hgrown', -, hrun⟩ := run_walkChain hg (pos.toNat / clusterBytes g) 0 hgrown.ok
        (by rw [hgrown.head, Function.update_self]) hj
      refine ⟨s', l', hgrown.trans hg hgrown', fun he => ?_, ?_⟩
      · have hlen := hgrown'.pre.length_le
        rw [Function.update_self, he] at hlen
        simp at hlen
      simp only [Function.update_self, List.getElem_cons_zero, Nat.zero_add] at hrun
      simpa only [halloc, run_setFile] using hrun
    · refine ⟨s, [], hl ▸ Grown.refl h hhead, fun _ => rfl, Or.inr ⟨⟨hfull, Nat.zero_le _⟩, ?_⟩⟩
      simp only [halloc]
  | cons first l =>
    have hsome : headOf s.file.firstCluster = some first := by rw [hhead, hl]; rfl
    obtain ⟨hge, hfirst⟩ := headOf_eq_some hsome
    have hj : 0 < (chains o).length := by simp [hl]
    obtain ⟨s', l', hgrown, hsame, hrun⟩ := run_walkChain hg (pos.toNat / clusterBytes g) 0 h hhead hj
    refine ⟨s', l', hgrown, hl ▸ hsame, ?_⟩
    simp only [hl, List.getElem_cons_zero, Nat.zero_add] at hrun
    rw [hfirst] at hge
    simpa only [hfirst, if_neg hge] using hrun

/-- `file_cluster_for_position` for a position inside the chain. -/
theorem run_fileCluster_inside (hg : Geometry g) (h : FatOk g s.disk chains)
    (hhead : headOf s.file.firstCluster = (chains o).head?) {pos : UInt32}
    (hpos : pos.toNat / clusterBytes g < (chains o).length) :
    (fileClusterForPosition g pos false).run (handler g) s =
      (.ok (chains o)[pos.toNat / clusterBytes g], s) := by
  have hidx : (pos / g.bytesPerCluster).toNat = pos.toNat / clusterBytes g := by
    rw [UInt32.toNat_div, hg.bytesPerCluster_eq]
  have hzero : 0 < (chains o).length := by omega
  have hsome : headOf s.file.firstCluster = some (chains o)[0] := by
    rw [hhead, List.head?_eq_getElem?, List.getElem?_eq_getElem hzero]
  obtain ⟨hge, hfirst⟩ := headOf_eq_some hsome
  rw [hfirst] at hge
  have hwalk := run_walkChain_inside hg (pos.toNat / clusterBytes g) 0 h hzero (by omega)
  simp only [fileClusterForPosition, Program.run_bind, run_getFile, hidx, hfirst, if_neg hge, hwalk,
    Nat.zero_add]

end Walk

end SBoy28.Fat32
