import SBoy28.Fat32.Allocation
import Mathlib.Data.List.GetD

/-!
# Reading and writing a file

Byte `i` of a file lies in cluster `i / clusterBytes` of its chain. The loops of `fs_read` and
`fs_write` go over the bytes sector by sector, and what each turn does to the file and to the
rest of the volume composes.
-/

namespace SBoy28.Fat32
open Lib

variable {g : FSMount} {ι : Type} {chains : ι → List UInt32} {o : ι} {s s' s'' : State}
  {l l' : List UInt32} {data : Memory} {k : ℕ}

/-- The address of byte `i` of a file with this chain. -/
def contentAddr (g : FSMount) (l : List UInt32) (i : ℕ) : ℕ :=
  dataAddr g (l.getD (i / clusterBytes g) 0) (i % clusterBytes g)

def content (g : FSMount) (disk : Memory) (l : List UInt32) (i : ℕ) : UInt8 :=
  disk (contentAddr g l i)

section Positions

lemma contentAddr_prefix (hg : Geometry g) (h : l <+: l') {i : ℕ}
    (hi : i < l.length * clusterBytes g) : contentAddr g l' i = contentAddr g l i := by
  have hlt : i / clusterBytes g < l.length := (Nat.div_lt_iff_lt_mul hg.clusterBytes_pos).mpr hi
  have hget : l'.getD (i / clusterBytes g) 0 = l.getD (i / clusterBytes g) 0 := by
    obtain ⟨t, rfl⟩ := h
    rw [List.getD_append _ _ _ _ hlt]
  rw [contentAddr, contentAddr, hget]

lemma contentAddr_inData (hg : Geometry g) {i : ℕ} (hi : i < l.length * clusterBytes g) :
    ∃ c ∈ l, InData g c (contentAddr g l i) := by
  have hlt : i / clusterBytes g < l.length := (Nat.div_lt_iff_lt_mul hg.clusterBytes_pos).mpr hi
  refine ⟨l[i / clusterBytes g], List.getElem_mem hlt, ?_⟩
  rw [contentAddr, List.getD_eq_getElem _ _ hlt]
  exact dataAddr_inData (Nat.mod_lt _ hg.clusterBytes_pos)

lemma contentAddr_injective (hg : Geometry g) (hnd : l.Nodup) (hr : ∀ c ∈ l, InRange g c) {i j : ℕ}
    (hi : i < l.length * clusterBytes g) (hj : j < l.length * clusterBytes g)
    (he : contentAddr g l i = contentAddr g l j) : i = j := by
  have hilt : i / clusterBytes g < l.length := (Nat.div_lt_iff_lt_mul hg.clusterBytes_pos).mpr hi
  have hjlt : j / clusterBytes g < l.length := (Nat.div_lt_iff_lt_mul hg.clusterBytes_pos).mpr hj
  rw [contentAddr, contentAddr, List.getD_eq_getElem _ _ hilt, List.getD_eq_getElem _ _ hjlt] at he
  have hdi : InData g l[i / clusterBytes g] (dataAddr g l[i / clusterBytes g] (i % clusterBytes g)) :=
    dataAddr_inData (Nat.mod_lt _ hg.clusterBytes_pos)
  have hdj : InData g l[j / clusterBytes g] (dataAddr g l[j / clusterBytes g] (j % clusterBytes g)) :=
    dataAddr_inData (Nat.mod_lt _ hg.clusterBytes_pos)
  rw [← he] at hdj
  have hc := InData.unique (hr _ (List.getElem_mem hilt)) (hr _ (List.getElem_mem hjlt)) hdi hdj
  have hq : i / clusterBytes g = j / clusterBytes g := (hnd.getElem_inj_iff).mp hc
  have hm : i % clusterBytes g = j % clusterBytes g := by
    rw [hc, dataAddr, dataAddr] at he
    omega
  rw [← Nat.div_add_mod i (clusterBytes g), ← Nat.div_add_mod j (clusterBytes g), hq, hm]

variable (g) in
/-- The bytes that one turn of a loop handles at a position. -/
def turn (pos left : ℕ) : ℕ := min (g.bps.toNat - pos % clusterBytes g % g.bps.toNat) left

lemma turn_pos (hg : Geometry g) (pos : ℕ) {left : ℕ} (h : 0 < left) : 0 < turn g pos left := by
  have hlt := Nat.mod_lt (pos % clusterBytes g) hg.bps_pos
  simp only [turn]
  omega

lemma turn_le (pos left : ℕ) : turn g pos left ≤ left := Nat.min_le_right _ _

/-- The offset in the sector and the bytes of a turn stay inside the sector. -/
lemma turn_sector (hg : Geometry g) (pos left : ℕ) :
    pos % clusterBytes g % g.bps.toNat + turn g pos left ≤ g.bps.toNat := by
  have hlt := Nat.mod_lt (pos % clusterBytes g) hg.bps_pos
  simp only [turn]
  omega

lemma turn_cluster (hg : Geometry g) (pos left : ℕ) :
    pos % clusterBytes g + turn g pos left ≤ clusterBytes g := by
  have hsec := turn_sector hg pos left
  have hlt := Nat.mod_lt pos hg.clusterBytes_pos
  have hdm := Nat.div_add_mod (pos % clusterBytes g) g.bps.toNat
  have hq : pos % clusterBytes g / g.bps.toNat + 1 ≤ g.spc.toNat := by
    rw [Nat.add_one_le_iff, Nat.div_lt_iff_lt_mul hg.bps_pos, Nat.mul_comm]
    exact hlt
  have hmul := Nat.mul_le_mul_left g.bps.toNat hq
  rw [Nat.mul_add_one] at hmul
  simp only [clusterBytes] at hdm hsec hmul ⊢
  omega

lemma turn_div (hg : Geometry g) {pos left i : ℕ} (hi : i < turn g pos left) :
    (pos + i) / clusterBytes g = pos / clusterBytes g ∧
      (pos + i) % clusterBytes g = pos % clusterBytes g + i := by
  have hle := turn_cluster hg pos left
  have hdm := Nat.div_add_mod pos (clusterBytes g)
  constructor
  · apply Nat.div_eq_of_lt_le
    · rw [Nat.mul_comm]
      omega
    · rw [Nat.add_one_mul, Nat.mul_comm]
      omega
  · rw [Nat.add_mod, Nat.mod_eq_of_lt (show i < clusterBytes g by omega), Nat.mod_eq_of_lt (by omega)]

end Positions

section Chunks

lemma chunk_toNat (hg : Geometry g) (pos left : UInt32) :
    (chunk g (pos % g.bytesPerCluster % g.bps) left).toNat = turn g pos.toNat left.toNat := by
  have hoff : (pos % g.bytesPerCluster % g.bps).toNat =
      pos.toNat % clusterBytes g % g.bps.toNat := by
    rw [UInt32.toNat_mod, UInt32.toNat_mod, hg.bytesPerCluster_eq]
  have hlt := Nat.mod_lt (pos.toNat % clusterBytes g) hg.bps_pos
  have hsub : (g.bps - pos % g.bytesPerCluster % g.bps).toNat =
      g.bps.toNat - pos.toNat % clusterBytes g % g.bps.toNat := by
    rw [toNat_sub_of_le, hoff]
    rw [hoff]
    omega
  simp only [chunk, gt_iff_lt, UInt32.lt_iff_toNat_lt, hsub, turn]
  split <;> omega

lemma sectorOfPosition_toNat (hg : Geometry g) {c : UInt32} (hc : InRange g c) (pos : UInt32) :
    (sectorOfPosition g c pos).1.toNat =
      clusterSector g c + pos.toNat % clusterBytes g / g.bps.toNat ∧
    (sectorOfPosition g c pos).1.toNat <
      g.dataStartSector.toNat + g.clusterCount.toNat * g.spc.toNat ∧
    (sectorOfPosition g c pos).2.toNat = pos.toNat % clusterBytes g % g.bps.toNat := by
  obtain ⟨hsector, hle⟩ := clusterToSector_toNat hg hc
  have hend := hg.sectors_lt
  have hq : pos.toNat % clusterBytes g / g.bps.toNat < g.spc.toNat := by
    rw [Nat.div_lt_iff_lt_mul hg.bps_pos, Nat.mul_comm]
    exact Nat.mod_lt _ hg.clusterBytes_pos
  have hdiv : (pos % g.bytesPerCluster / g.bps).toNat = pos.toNat % clusterBytes g / g.bps.toNat := by
    rw [UInt32.toNat_div, UInt32.toNat_mod, hg.bytesPerCluster_eq]
  have hsum : (sectorOfPosition g c pos).1.toNat =
      clusterSector g c + pos.toNat % clusterBytes g / g.bps.toNat := by
    simp only [sectorOfPosition]
    rw [toNat_add_of_lt, hsector, hdiv]
    rw [hsector, hdiv]
    omega
  refine ⟨hsum, ?_, ?_⟩
  · rw [hsum]
    omega
  · simp only [sectorOfPosition, UInt32.toNat_mod, hg.bytesPerCluster_eq]

lemma sectorOfPosition_inBounds (hg : Geometry g) {c : UInt32} (hc : InRange g c) (pos : UInt32) :
    InBounds g (sectorOfPosition g c pos).1 :=
  hg.inBounds (sectorOfPosition_toNat hg hc pos).2.1

/-- Sector and offset together are the address of the position. -/
lemma sectorOfPosition_addr (hg : Geometry g) {c : UInt32} (hc : InRange g c) (pos : UInt32) :
    (sectorOfPosition g c pos).1.toNat * g.bps.toNat + (sectorOfPosition g c pos).2.toNat =
      dataAddr g c (pos.toNat % clusterBytes g) := by
  obtain ⟨hsector, -, hoff⟩ := sectorOfPosition_toNat hg hc pos
  have hdm := Nat.div_add_mod (pos.toNat % clusterBytes g) g.bps.toNat
  rw [hsector, hoff, dataAddr, Nat.add_mul, Nat.add_assoc,
    Nat.mul_comm (pos.toNat % clusterBytes g / g.bps.toNat), hdm]

/-- A turn of a loop stays in one cluster. -/
lemma contentAddr_turn (hg : Geometry g) {pos i : ℕ} (left : ℕ)
    (hpos : pos / clusterBytes g < l.length) (hi : i < turn g pos left) :
    contentAddr g l (pos + i) = dataAddr g l[pos / clusterBytes g] (pos % clusterBytes g) + i := by
  obtain ⟨hq, hm⟩ := turn_div hg hi
  rw [contentAddr, hq, hm, List.getD_eq_getElem _ _ hpos, dataAddr, dataAddr, Nat.add_assoc]

end Chunks

section Reading

/-- The chain of a file fits into the device. -/
lemma FatOk.bytes_lt {disk : Memory} (h : FatOk g disk chains) (hg : Geometry g) (o : ι) :
    (chains o).length * clusterBytes g < 2 ^ 32 := by
  have hlen := Nat.mul_le_mul_right (clusterBytes g) (h.length_le o)
  have hend := hg.dataEnd_lt
  rw [Nat.add_mul, Nat.mul_assoc, Nat.mul_comm g.spc.toNat] at hend
  simp only [clusterBytes] at hlen ⊢
  omega

lemma turn_le_of_room (hg : Geometry g) {pos n : ℕ} (left : ℕ) (h : pos / clusterBytes g < n) :
    pos + turn g pos left ≤ n * clusterBytes g := by
  have hcluster := turn_cluster hg pos left
  have hdm := Nat.div_add_mod pos (clusterBytes g)
  have hmul : (pos / clusterBytes g + 1) * clusterBytes g ≤ n * clusterBytes g :=
    Nat.mul_le_mul_right _ h
  rw [Nat.add_one_mul, Nat.mul_comm (pos / clusterBytes g)] at hmul
  omega

lemma copyTo_turn (hg : Geometry g) (disk out sec : Memory) {c : UInt32} {pos : UInt32} (left : UInt32)
    (hpos : pos.toNat / clusterBytes g < l.length)
    (hr : InRange g l[pos.toNat / clusterBytes g]) (hc : c = l[pos.toNat / clusterBytes g])
    (done : ℕ) :
    copyTo out done
        (shift (copyTo sec 0 (shift disk ((sectorOfPosition g c pos).1.toNat * g.bps.toNat)) g.bps.toNat)
          (sectorOfPosition g c pos).2.toNat) (turn g pos.toNat left.toNat) =
      copyTo out done (shift (content g disk l) pos.toNat) (turn g pos.toNat left.toNat) := by
  subst hc
  have hle := turn_sector hg pos.toNat left.toNat
  have hoff := (sectorOfPosition_toNat hg hr pos).2.2
  apply copyTo_congr
  intro i hi
  rw [shift_apply, shift_apply, copyTo_read _ _ _ (by omega), ← Nat.add_assoc,
    sectorOfPosition_addr hg hr, content, contentAddr_turn hg left.toNat hpos hi]

/-- The loop of `fs_read` on a chain that is long enough. -/
lemma run_readLoop (hg : Geometry g) (h : FatOk g s.disk chains)
    (hhead : headOf s.file.firstCluster = (chains o).head?) {n : UInt32} (fuel left : ℕ)
    {done : UInt32} (hn : done.toNat + left = n.toNat) (hfuel : left ≤ fuel) (sec out : Memory)
    (hroom : s.file.position.toNat + left ≤ (chains o).length * clusterBytes g) :
    (readLoop g n fuel done sec out).run (handler g) s =
      (.ok (n, copyTo out done.toNat
        (shift (content g s.disk (chains o)) s.file.position.toNat) left),
      { s with file := { s.file with position := s.file.position + UInt32.ofNat left } }) := by
  induction fuel generalizing left done sec out s with
  | zero =>
    obtain rfl : left = 0 := by omega
    obtain rfl : done = n := UInt32.toNat_inj.mp hn
    simp [readLoop, copyTo_zero]
  | succ fuel ih =>
    by_cases hleft : left = 0
    · subst hleft
      obtain rfl : done = n := UInt32.toNat_inj.mp hn
      simp [readLoop, copyTo_zero]
    · have hlt : done < n := by
        rw [UInt32.lt_iff_toNat_lt]
        omega
      have hidx : s.file.position.toNat / clusterBytes g < (chains o).length := by
        rw [Nat.div_lt_iff_lt_mul hg.clusterBytes_pos]
        omega
      have hr : InRange g (chains o)[s.file.position.toNat / clusterBytes g] :=
        h.range o _ (List.getElem_mem _)
      have hrest : (n - done).toNat = left := by
        rw [toNat_sub_of_le] <;> omega
      have hcan : (chunk g (sectorOfPosition g (chains o)[s.file.position.toNat / clusterBytes g]
          s.file.position).2 (n - done)).toNat = turn g s.file.position.toNat left := by
        rw [← hrest]
        exact chunk_toNat hg s.file.position (n - done)
      have hturn := turn_le (g := g) s.file.position.toNat left
      have hbytes := h.bytes_lt hg o
      have hstep := copyTo_turn hg s.disk out sec (n - done) hidx hr rfl done.toNat
      simp only [readLoop, if_pos hlt, Program.run_bind, run_getFile,
        run_fileCluster_inside hg h hhead hidx, run_read_ok g (sectorOfPosition_inBounds hg hr _), hcan,
        run_setFile]
      generalize hk : chunk g (sectorOfPosition g (chains o)[s.file.position.toNat / clusterBytes g]
          s.file.position).2 (n - done) = can at hcan ⊢
      rw [hrest] at hstep
      have hdone : (done + can).toNat = done.toNat + turn g s.file.position.toNat left := by
        have hlt := n.toNat_lt
        rw [toNat_add_of_lt, hcan]
        omega
      have hposition : (s.file.position + can).toNat =
          s.file.position.toNat + turn g s.file.position.toNat left := by
        rw [toNat_add_of_lt, hcan]
        omega
      have hpos : 0 < turn g s.file.position.toNat left := turn_pos hg _ (by omega)
      have hrun := @ih { s with file := { s.file with position := s.file.position + can } } h hhead
        (left - turn g s.file.position.toNat left) (done + can) (by omega) (by omega)
      rw [hrun _ _ (by simp only [hposition]; omega)]
      have hsplit : turn g s.file.position.toNat left + (left - turn g s.file.position.toNat left) =
          left := by omega
      have hsum : s.file.position + can + UInt32.ofNat (left - turn g s.file.position.toNat left) =
          s.file.position + UInt32.ofNat left := by
        have hofNat : can = UInt32.ofNat (turn g s.file.position.toNat left) := by
          rw [← hcan, UInt32.ofNat_toNat]
        rw [hofNat, UInt32.add_assoc, ← UInt32.ofNat_add, hsplit]
      simp only [hstep, hdone, hposition, hsum, ← shift_shift, copyTo_append, hsplit]

/-- `fs_read` gives the bytes of the file at the position, as many as there are. -/
theorem run_fsRead (hg : Geometry g) (hm : g.mounted = true) (h : FatOk g s.disk chains)
    (hv : s.file.valid = true) (hr : s.file.canRead = true)
    (hhead : s.file.size.toNat ≠ 0 → headOf s.file.firstCluster = (chains o).head?)
    (hroom : s.file.size.toNat ≤ (chains o).length * clusterBytes g) (out : Memory) (n : UInt32)
    {k : ℕ} (hk : k = min n.toNat (s.file.size.toNat - s.file.position.toNat)) :
    (fsRead g out n).run (handler g) s =
      (.ok (UInt32.ofNat k,
        copyTo out 0 (shift (content g s.disk (chains o)) s.file.position.toNat) k),
      { s with file := { s.file with position := s.file.position + UInt32.ofNat k } }) := by
  have hvalid : ¬s.file.valid = false := by simp [hv]
  simp only [fsRead, hm, Bool.true_eq_false, if_false, Program.run_bind, run_getFile, if_neg hvalid, hr]
  by_cases hend : s.file.position ≥ s.file.size
  · have hzero : k = 0 := by
      rw [ge_iff_le, UInt32.le_iff_toNat_le] at hend
      omega
    subst hzero
    simp [if_pos hend]
  · have hlt : s.file.position.toNat < s.file.size.toNat := by
      rw [ge_iff_le, UInt32.le_iff_toNat_le] at hend
      omega
    have hrest : (s.file.size - s.file.position).toNat =
        s.file.size.toNat - s.file.position.toNat := toNat_sub_of_le (by omega)
    have hcount : (if n > s.file.size - s.file.position then s.file.size - s.file.position else n).toNat =
        k := by
      simp only [gt_iff_lt, UInt32.lt_iff_toNat_lt, hrest]
      split <;> omega
    simp only [if_neg hend, hg.bps_le_512, if_false]
    rw [run_readLoop hg h (hhead (by omega)) _ k (by simpa using hcount.symm)
      (by omega) _ _ (by omega)]
    simp [← hcount]

lemma run_fsRead_refused (h : s.file.valid = false ∨ s.file.canRead = false) (out : Memory)
    (n : UInt32) : ∃ e, (fsRead g out n).run (handler g) s = (.error e, s) := by
  by_cases hm : g.mounted = false
  · exact ⟨.notMounted, by simp [fsRead, hm, Program.run_bind]⟩
  · by_cases hv : s.file.valid = false
    · exact ⟨.invalid, by simp [fsRead, hm, hv, Program.run_bind]⟩
    · have hr := h.resolve_left hv
      exact ⟨.access, by simp [fsRead, hm, hv, hr, Program.run_bind]⟩

end Reading

section Writing

variable [DecidableEq ι]

/-- What a write of `k` bytes of `data` does: the chain of `o` becomes `l'`, the bytes at the old
position are those of `data`, and nothing else changes that does not belong to the file now. -/
structure Wrote (g : FSMount) (chains : ι → List UInt32) (o : ι) (s s' : State) (l' : List UInt32)
    (data : Memory) (k : ℕ) : Prop where
  ok : FatOk g s'.disk (Function.update chains o l')
  pre : chains o <+: l'
  fresh : ∀ c ∈ l', c ∉ chains o → table g s.disk c = .free
  file : s'.file = { s.file with
    firstCluster := s'.file.firstCluster
    size := s'.file.size
    position := s'.file.position }
  head : headOf s'.file.firstCluster = l'.head?
  position : s'.file.position.toNat = s.file.position.toNat + k
  size : s'.file.size.toNat =
    if k = 0 then s.file.size.toNat else max s.file.size.toNat (s.file.position.toNat + k)
  room : k = 0 ∨ s.file.position.toNat + k ≤ l'.length * clusterBytes g
  frame : ∀ a, (∀ c ∈ l', ¬InFat g c a ∧ ¬InData g c a) → s'.disk a = s.disk a
  bytes : ∀ i < l'.length * clusterBytes g, content g s'.disk l' i =
    copyTo (content g s.disk l') s.file.position.toNat data k i

lemma Grown.wrote (hg : Geometry g) (h : Grown g chains o s s' l') (data : Memory) :
    Wrote g chains o s s' l' data 0 where
  ok := h.ok
  pre := h.pre
  fresh := h.fresh
  file := by rw [h.file]
  head := h.head
  position := by rw [h.file, Nat.add_zero]
  size := by rw [if_pos rfl, h.file]
  room := Or.inl rfl
  frame a ha := h.frame a (fun c hc => (ha c hc).1)
  bytes i hi := by
    obtain ⟨c, -, hin⟩ := contentAddr_inData hg hi
    rw [copyTo_zero]
    exact h.frame _ (fun c' hc' => not_inFat_of_inData hg (h.range c' hc') hin)

lemma Wrote.range (h : Wrote g chains o s s' l' data k) : ∀ c ∈ l', InRange g c := by
  intro c hc
  exact h.ok.range o c (by rwa [Function.update_self])

lemma Wrote.table_off (hg : Geometry g) (h : Wrote g chains o s s' l' data k) {c : UInt32}
    (hc : c ∉ l') : table g s'.disk c = table g s.disk c := by
  by_cases hr : InRange g c
  · apply table_frame hg
    intro a ha
    apply h.frame
    intro c' hc'
    refine ⟨?_, fun hd => not_inFat_of_inData hg hr hd ha⟩
    intro hin
    exact hc (InFat.unique hg (h.range c' hc') hr hin ha ▸ hc')
  · rw [table, table, if_neg hr, if_neg hr]

/-- The bytes of a file behind its old end are those of clusters that the write left alone. -/
lemma Wrote.content_off (hg : Geometry g) (h : Wrote g chains o s s' l data k) (hl : l <+: l')
    (hnd : l'.Nodup) (hr : ∀ c ∈ l', InRange g c) {i : ℕ} (hlo : l.length * clusterBytes g ≤ i)
    (hhi : i < l'.length * clusterBytes g) : content g s'.disk l' i = content g s.disk l' i := by
  have hlt : i / clusterBytes g < l'.length := (Nat.div_lt_iff_lt_mul hg.clusterBytes_pos).mpr hhi
  have hle : l.length ≤ i / clusterBytes g := (Nat.le_div_iff_mul_le hg.clusterBytes_pos).mpr hlo
  have hin : InData g l'[i / clusterBytes g] (contentAddr g l' i) := by
    rw [contentAddr, List.getD_eq_getElem _ _ hlt]
    exact dataAddr_inData (Nat.mod_lt _ hg.clusterBytes_pos)
  apply h.frame
  intro c hc
  refine ⟨not_inFat_of_inData hg (h.range c hc) hin, ?_⟩
  intro hd
  have he := InData.unique (h.range c hc) (hr _ (List.getElem_mem hlt)) hd hin
  obtain ⟨j, hj, rfl⟩ := List.getElem_of_mem hc
  rw [hl.getElem hj] at he
  have hidx := (hnd.getElem_inj_iff).mp he
  omega

theorem Wrote.trans (hg : Geometry g) {k' : ℕ} (h : Wrote g chains o s s' l data k)
    (h' : Wrote g (Function.update chains o l) o s' s'' l' (shift data k) k') :
    Wrote g chains o s s'' l' data (k + k') := by
  have hok := h'.ok
  have hpre := h'.pre
  rw [Function.update_idem] at hok
  rw [Function.update_self] at hpre
  have hposition := h.position
  have hlen := Nat.mul_le_mul_right (clusterBytes g) hpre.length_le
  refine ⟨hok, h.pre.trans hpre, ?_, ?_, h'.head, ?_, ?_, ?_, ?_, ?_⟩
  · intro c hc hn
    by_cases hcl : c ∈ l
    · exact h.fresh c hcl hn
    · rw [← h.table_off hg hcl]
      exact h'.fresh c hc (by rwa [Function.update_self])
  · rw [h'.file, h.file]
  · rw [h'.position, h.position, Nat.add_assoc]
  · have hsize := h.size
    have hsize' := h'.size
    rw [hposition] at hsize'
    split at hsize <;> split at hsize' <;> split <;> omega
  · rcases h'.room with hz | hroom'
    · rcases h.room with hz' | hroom
      · left
        omega
      · right
        omega
    · right
      omega
  · intro a ha
    rw [h'.frame a ha, h.frame a (fun c hc => ha c (hpre.subset hc))]
  · intro i hi
    have hnd : l'.Nodup := by
      have hchain := hok.family.chain o
      rw [Function.update_self] at hchain
      exact hchain.nodup
    have hbefore : content g s'.disk l' i =
        copyTo (content g s.disk l') s.file.position.toNat data k i := by
      by_cases hil : i < l.length * clusterBytes g
      · have hprefix := contentAddr_prefix hg hpre hil
        have hbyte := h.bytes i hil
        rw [content, ← hprefix] at hbyte
        rw [content, hbyte]
        apply copyTo_at
        rw [content, content, hprefix]
      · rw [h.content_off hg hpre hnd h'.range (by omega) hi, copyTo_outside]
        rcases h.room with rfl | hroom <;> omega
    rw [h'.bytes i hi, ← copyTo_append, hposition]
    exact copyTo_at _ _ _ hbefore

lemma copyTo_put (hg : Geometry g) (disk sec : Memory) {c : UInt32} (hr : InRange g c)
    (pos : UInt32) (left : ℕ) (hk : k = turn g pos.toNat left) :
    copyTo disk ((sectorOfPosition g c pos).1.toNat * g.bps.toNat)
        (copyTo (copyTo sec 0 (shift disk ((sectorOfPosition g c pos).1.toNat * g.bps.toNat)) g.bps.toNat)
          (sectorOfPosition g c pos).2.toNat data k) g.bps.toNat =
      copyTo disk (dataAddr g c (pos.toNat % clusterBytes g)) data k := by
  have hle := turn_sector hg pos.toNat left
  have hoff := (sectorOfPosition_toNat hg hr pos).2.2
  rw [copyTo_modified _ _ (show (sectorOfPosition g c pos).2.toNat + k ≤ g.bps.toNat by omega),
    sectorOfPosition_addr hg hr]
  · apply copyTo_congr
    intro i hi
    rw [shift_apply, copyTo_inside _ _ _ _ _ hi]
  · intro i hi hout
    rw [copyTo_outside _ _ hout, copyTo_read _ _ _ hi]

/-- One turn of the write loop, on a chain that reaches the position. -/
theorem Grown.put (hg : Geometry g) (h : Grown g chains o s s' l') (data : Memory) (file : FSFile)
    {left : ℕ} (hleft : 0 < left) (hidx : s.file.position.toNat / clusterBytes g < l'.length)
    (hk : k = turn g s.file.position.toNat left)
    (hfile : file = { s'.file with size := file.size, position := file.position })
    (hposition : file.position.toNat = s.file.position.toNat + k)
    (hsize : file.size.toNat = max s.file.size.toNat (s.file.position.toNat + k)) :
    Wrote g chains o s
      ⟨copyTo s'.disk (dataAddr g l'[s.file.position.toNat / clusterBytes g]
        (s.file.position.toNat % clusterBytes g)) data k, file⟩ l' data k := by
  have hr := h.range _ (List.getElem_mem hidx)
  have hcluster := turn_cluster hg s.file.position.toNat left
  have hroom := turn_le_of_room hg left hidx
  have hpos := turn_pos hg s.file.position.toNat hleft
  have hnd : l'.Nodup := by
    have hchain := h.ok.family.chain o
    rw [Function.update_self] at hchain
    exact hchain.nodup
  have hfirst : file.firstCluster = s'.file.firstCluster := by rw [hfile]
  have hout : ∀ a, ¬InData g l'[s.file.position.toNat / clusterBytes g] a →
      copyTo s'.disk (dataAddr g l'[s.file.position.toNat / clusterBytes g]
        (s.file.position.toNat % clusterBytes g)) data k a = s'.disk a := by
    intro a ha
    apply copyTo_outside
    simp only [InData, dataAddr, not_and, Nat.not_lt] at ha ⊢
    omega
  refine ⟨?_, h.pre, h.fresh, ?_, ?_, hposition, ?_, Or.inr (by omega), ?_, ?_⟩
  · apply h.ok.congr hg
    intro a ha
    apply hout
    intro hin
    have hge := hin.ge
    omega
  · rw [hfile, h.file]
  · rw [← h.head, hfirst]
  · rw [if_neg (by omega), hsize]
  · intro a ha
    exact (hout a (ha _ (List.getElem_mem hidx)).2).trans (h.frame a (fun c hc => (ha c hc).1))
  · intro i hi
    have hold : content g s'.disk l' i = content g s.disk l' i := by
      have hbytes := (h.wrote hg data).bytes i hi
      rwa [copyTo_zero] at hbytes
    by_cases hin : s.file.position.toNat ≤ i ∧ i < s.file.position.toNat + k
    · obtain ⟨j, rfl⟩ := Nat.exists_eq_add_of_le hin.1
      rw [content, contentAddr_turn hg left hidx (by omega), copyTo_inside _ _ _ _ _ (by omega)]
      exact copyTo_inside _ _ _ _ _ (by omega)
    · rw [copyTo_outside _ _ (by omega), ← hold, content, content]
      apply copyTo_outside
      by_contra hcover
      obtain ⟨j, hj⟩ := Nat.exists_eq_add_of_le (show dataAddr g
        l'[s.file.position.toNat / clusterBytes g] (s.file.position.toNat % clusterBytes g) ≤
          contentAddr g l' i by omega)
      have hjk : j < k := by omega
      have haddr := contentAddr_turn hg left hidx (hk ▸ hjk)
      have he := contentAddr_injective hg hnd h.range hi (by omega) (hj.trans haddr.symm)
      omega

/-- The loop of `fs_write` writes everything, or stops when no cluster is free. -/
lemma run_writeLoop (hg : Geometry g) (data : Memory) {n : UInt32} (fuel left : ℕ) (done : UInt32)
    (hn : done.toNat + left = n.toNat) (hfuel : left ≤ fuel) (sec : Memory)
    (h : FatOk g s.disk chains) (hhead : headOf s.file.firstCluster = (chains o).head?) :
    ∃ s' l' k, Wrote g chains o s s' l' (shift data done.toNat) k ∧ (k = 0 → l' = chains o → s' = s) ∧
      ((k = left ∧ (writeLoop g data n fuel done sec).run (handler g) s = (.ok n, s')) ∨
      (k < left ∧ OutOfSpace g s'.disk l' ((s.file.position.toNat + k) / clusterBytes g) ∧
        (writeLoop g data n fuel done sec).run (handler g) s = (.error .noSpace, s'))) := by
  induction fuel generalizing left done sec s chains with
  | zero =>
    obtain rfl : left = 0 := by omega
    obtain rfl : done = n := UInt32.toNat_inj.mp hn
    exact ⟨s, chains o, 0, (Grown.refl h hhead).wrote hg _, fun _ _ => rfl, Or.inl ⟨rfl, by simp [writeLoop]⟩⟩
  | succ fuel ih =>
    by_cases hleft : left = 0
    · subst hleft
      obtain rfl : done = n := UInt32.toNat_inj.mp hn
      exact ⟨s, chains o, 0, (Grown.refl h hhead).wrote hg _, fun _ _ => rfl, Or.inl ⟨rfl, by simp [writeLoop]⟩⟩
    · have hlt : done < n := by
        rw [UInt32.lt_iff_toNat_lt]
        omega
      simp only [writeLoop, if_pos hlt, Program.run_bind, run_getFile]
      obtain ⟨s₁, l₁, hgrown, hsame, ⟨hidx, hrun⟩ | ⟨hstuck, hrun⟩⟩ :=
        run_fileCluster_extend hg h hhead s.file.position
      · have hr := hgrown.range _ (List.getElem_mem hidx)
        have hin := sectorOfPosition_inBounds hg hr s.file.position
        have hrest : (n - done).toNat = left := by
          rw [toNat_sub_of_le] <;> omega
        have hcan : (chunk g (sectorOfPosition g l₁[s.file.position.toNat / clusterBytes g]
            s.file.position).2 (n - done)).toNat = turn g s.file.position.toNat left := by
          rw [← hrest]
          exact chunk_toNat hg s.file.position (n - done)
        have hturn := turn_le (g := g) s.file.position.toNat left
        have hpos : 0 < turn g s.file.position.toNat left := turn_pos hg _ (by omega)
        have hroom := turn_le_of_room hg left hidx
        have hbytes := hgrown.ok.bytes_lt hg o
        rw [Function.update_self] at hbytes
        have hkeep : s₁.file.position = s.file.position ∧ s₁.file.size = s.file.size := by
          rw [hgrown.file]
          exact ⟨rfl, rfl⟩
        simp only [hrun, run_read_ok g hin, run_write_ok g hin, run_setFile, hcan, hkeep.1, hkeep.2]
        rw [copyTo_put hg s₁.disk sec hr s.file.position left rfl]
        generalize chunk g (sectorOfPosition g l₁[s.file.position.toNat / clusterBytes g]
            s.file.position).2 (n - done) = can at hcan ⊢
        have hposition : (s.file.position + can).toNat =
            s.file.position.toNat + turn g s.file.position.toNat left := by
          rw [toNat_add_of_lt, hcan]
          omega
        have hdone : (done + can).toNat = done.toNat + turn g s.file.position.toNat left := by
          have hlt := n.toNat_lt
          rw [toNat_add_of_lt, hcan]
          omega
        have hsize : (if s.file.position + can > s.file.size then s.file.position + can
            else s.file.size).toNat =
              max s.file.size.toNat (s.file.position.toNat + turn g s.file.position.toNat left) := by
          simp only [gt_iff_lt, UInt32.lt_iff_toNat_lt, ← hposition]
          split <;> omega
        have hput := hgrown.put hg (shift data done.toNat) { s₁.file with
            position := s.file.position + can
            size := if s.file.position + can > s.file.size then s.file.position + can
              else s.file.size } (by omega) hidx rfl rfl hposition hsize
        obtain ⟨s', l', k, hwrote, -, hres⟩ := ih (left - turn g s.file.position.toNat left) (done + can)
          (by omega) (by omega) _ hput.ok (by rw [hput.head, Function.update_self])
        rw [hdone, ← shift_shift] at hwrote
        refine ⟨s', l', turn g s.file.position.toNat left + k, hput.trans hg hwrote, by omega, ?_⟩
        rcases hres with ⟨rfl, hres⟩ | ⟨hk, hstuck, hres⟩
        · exact Or.inl ⟨by omega, hres⟩
        · rw [hposition, Nat.add_assoc] at hstuck
          exact Or.inr ⟨by omega, hstuck, hres⟩
      · refine ⟨s₁, l₁, 0, hgrown.wrote hg _, fun _ => hsame, Or.inr ⟨by omega, hstuck, ?_⟩⟩
        simp only [hrun]

/-- `fs_write` writes all bytes, or as many as there was room for. -/
theorem run_fsWrite (hg : Geometry g) (hm : g.mounted = true) (h : FatOk g s.disk chains)
    (hv : s.file.valid = true) (hw : s.file.canWrite = true)
    (hhead : headOf s.file.firstCluster = (chains o).head?) (data : Memory) (n : UInt32) :
    ∃ s' l' k, Wrote g chains o s s' l' data k ∧ (k = 0 → l' = chains o → s' = s) ∧
      ((k = n.toNat ∧ (fsWrite g data n).run (handler g) s = (.ok n, s')) ∨
      (k < n.toNat ∧ OutOfSpace g s'.disk l' ((s.file.position.toNat + k) / clusterBytes g) ∧
        (fsWrite g data n).run (handler g) s = (.error .noSpace, s'))) := by
  simp only [fsWrite, hm, Bool.true_eq_false, if_false, Program.run_bind, run_getFile, hv, hw,
    hg.bps_le_512]
  have hloop := run_writeLoop hg data (n := n) n.toNat n.toNat 0 (by simp) (le_refl _) g.stack h hhead
  rwa [UInt32.toNat_zero, shift_zero] at hloop

lemma run_fsWrite_refused (h : s.file.valid = false ∨ s.file.canWrite = false) (data : Memory)
    (n : UInt32) : ∃ e, (fsWrite g data n).run (handler g) s = (.error e, s) := by
  by_cases hm : g.mounted = false
  · exact ⟨.notMounted, by simp [fsWrite, hm, Program.run_bind]⟩
  · by_cases hv : s.file.valid = false
    · exact ⟨.invalid, by simp [fsWrite, hm, hv, Program.run_bind]⟩
    · have hw := h.resolve_left hv
      exact ⟨.access, by simp [fsWrite, hm, hv, hw, Program.run_bind]⟩

end Writing

section Seeking

lemma run_fsSeek (hv : s.file.valid = true) (position : UInt32) :
    (fsSeek position).run (handler g) s =
      (.ok (), { s with file := { s.file with position := position } }) := by
  have hvalid : ¬s.file.valid = false := by simp [hv]
  simp only [fsSeek, Program.run_bind, run_getFile, if_neg hvalid, run_setFile]

lemma run_fsSeek_refused (hv : s.file.valid = false) (position : UInt32) :
    (fsSeek position).run (handler g) s = (.error .invalid, s) := by
  simp [fsSeek, Program.run_bind, hv]

end Seeking

end SBoy28.Fat32
