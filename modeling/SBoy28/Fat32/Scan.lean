import SBoy28.Fat32.Model
import SBoy28.Lib.Loop

/-!
# Directory scans

The directory calls only read, so each is a function of the device contents: a loop whose
state is the cluster that is scanned, and for a listing the entries listed so far. Of the
sector buffer only the part behind the sector survives from one read to the next, and no
read changes it.
-/

namespace SBoy28.Fat32
open Lib

variable (g : FSMount) (s : State)

section Commands

lemma run_read (sector : UInt32) (out : Memory) :
    (read sector out).run (handler g) s =
      (.ofExcept (readSector g s.disk sector out), s) := by
  rw [read, Program.run_perform, handler]
  cases readSector g s.disk sector out <;> rfl

lemma run_write (sector : UInt32) (data : Memory) :
    (write sector data).run (handler g) s =
      match writeSector g s.disk sector data with
      | .ok disk => (.ok (), { s with disk := disk })
      | .error e => (.error e, s) := by
  rw [write, Program.run_perform, handler]
  cases writeSector g s.disk sector data <;> rfl

@[simp] lemma run_getFile : getFile.run (handler g) s = (.ok s.file, s) := rfl

@[simp] lemma run_setFile (file : FSFile) :
    (setFile file).run (handler g) s = (.ok (), { s with file := file }) := rfl

/-- The value that `get_fat_entry` reads. -/
def fatEntry (disk : Memory) (cluster : UInt32) : Except FSErr UInt32 :=
  if g.bps > 512 then .error .io
  else
    (readSector g disk (g.fatStartSector + cluster * 4 / g.bps) g.stack).map
      (fun sec => load32 sec (cluster * 4 % g.bps).toNat &&& 0x0FFFFFFF)

theorem run_getFatEntry (c : UInt32) :
    (getFatEntry g c).run (handler g) s = (.ofExcept (fatEntry g s.disk c), s) := by
  by_cases hb : g.bps > 512
  · simp [getFatEntry, fatEntry, hb, Program.run_bind, Outcome.ofExcept]
  · simp only [getFatEntry, fatEntry, hb, if_false, Program.run_bind, run_read]
    cases readSector g s.disk (g.fatStartSector + c * 4 / g.bps) g.stack <;>
      simp [Outcome.ofExcept, Except.map]

end Commands

section Buffers

variable {g}

/-- Behind the sector the buffer still holds what was on the stack. -/
def Tail (g : FSMount) (sec : Memory) : Prop := ∀ i, g.bps.toNat ≤ i → sec i = g.stack i

lemma tail_stack : Tail g g.stack := fun _ _ => rfl

lemma readSector_tail {sec : Memory} (h : Tail g sec) (disk : Memory) (sector : UInt32) :
    readSector g disk sector sec = readSector g disk sector g.stack := by
  have hcopy : ∀ src, copyTo sec 0 src g.bps.toNat = copyTo g.stack 0 src g.bps.toNat := by
    intro src
    funext i
    by_cases hi : i < g.bps.toNat
    · simp [copyTo, hi]
    · simp only [copyTo, Nat.zero_le, Nat.zero_add, true_and, hi, if_false]
      exact h i (by omega)
  simp only [readSector, hcopy]

lemma tail_of_read {disk sec : Memory} {sector : UInt32}
    (h : readSector g disk sector g.stack = .ok sec) : Tail g sec := by
  simp only [readSector] at h
  split at h
  · cases h
  · simp only [Except.ok.injEq] at h
    subst h
    intro i hi
    rw [copyTo_outside]
    omega

end Buffers

section Find

/-- The sectors of one cluster, as `find_entry_in_dir` reads them. -/
def scanSectors (disk : Memory) (fatName : List UInt8) : List UInt32 → Except FSErr (Option Found)
  | [] => .ok none
  | sector :: rest =>
    match readSector g disk sector g.stack with
    | .error e => .error e
    | .ok sec =>
      match findInSector fatName sec (entryOffsets g) with
      | some (.ok off) => .ok (some ⟨FATDirEntry.load sec off, sector, UInt32.ofNat off⟩)
      | some (.error e) => .error e
      | none => scanSectors disk fatName rest

/-- One turn of the loop of `find_entry_in_dir`. -/
def findStep (disk : Memory) (fatName : List UInt8) (cluster : UInt32) :
    UInt32 ⊕ Except FSErr Found :=
  if 2 ≤ cluster ∧ cluster < 0x0FFFFFF8 then
    match scanSectors g disk fatName (clusterSectors g cluster) with
    | .ok (some found) => .inr (.ok found)
    | .error e => .inr (.error e)
    | .ok none =>
      match fatEntry g disk cluster with
      | .ok next => .inl next
      | .error e => .inr (.error e)
  else .inr (.error .notFound)

def findOutcome (disk : Memory) (fuel : ℕ) (cluster : UInt32) (fatName : List UInt8) :
    Outcome FSErr Found :=
  if g.bps > 512 then .error .io
  else .ofLoop (loop (findStep g disk fatName) fuel cluster)

lemma run_findInSectors (fatName : List UInt8) (sectors : List UInt32) (sec : Memory)
    (hsec : Tail g sec) :
    ∃ sec', Tail g sec' ∧ (findInSectors g fatName sectors sec).run (handler g) s =
      (match scanSectors g s.disk fatName sectors with
        | .ok none => .ok (.inl sec')
        | .ok (some found) => .ok (.inr found)
        | .error e => .error e, s) := by
  induction sectors generalizing sec with
  | nil => exact ⟨sec, hsec, rfl⟩
  | cons sector rest ih =>
    simp only [findInSectors, scanSectors, Program.run_bind, run_read, readSector_tail hsec]
    cases hr : readSector g s.disk sector g.stack with
    | error e => exact ⟨sec, hsec, rfl⟩
    | ok sec₁ =>
      simp only [Outcome.ofExcept]
      have hsec₁ := tail_of_read hr
      cases hf : findInSector fatName sec₁ (entryOffsets g) with
      | none => exact ih sec₁ hsec₁
      | some r =>
        cases r with
        | ok off => exact ⟨sec₁, hsec₁, rfl⟩
        | error e => exact ⟨sec₁, hsec₁, rfl⟩

lemma run_findInClusters (fatName : List UInt8) (fuel : ℕ) (cluster : UInt32) (sec : Memory)
    (hsec : Tail g sec) :
    (findInClusters g fatName fuel cluster sec).run (handler g) s =
      (.ofLoop (loop (findStep g s.disk fatName) fuel cluster), s) := by
  induction fuel generalizing cluster sec with
  | zero => rfl
  | succ fuel ih =>
    by_cases hc : 2 ≤ cluster ∧ cluster < 0x0FFFFFF8
    · obtain ⟨sec', hsec', hrun⟩ := run_findInSectors g s fatName (clusterSectors g cluster) sec hsec
      simp only [findInClusters, if_pos hc, Program.run_bind, hrun]
      cases hscan : scanSectors g s.disk fatName (clusterSectors g cluster) with
      | error e =>
        rw [loop_succ_inr (r := .error e) (by simp [findStep, hc, hscan])]
        rfl
      | ok found =>
        cases found with
        | some found =>
          rw [loop_succ_inr (r := .ok found) (by simp [findStep, hc, hscan])]
          rfl
        | none =>
          simp only [Program.run_bind, run_getFatEntry]
          cases hfat : fatEntry g s.disk cluster with
          | error e =>
            rw [loop_succ_inr (r := .error e) (by simp [findStep, hc, hscan, hfat])]
            rfl
          | ok next =>
            rw [loop_succ_inl (show findStep g s.disk fatName cluster = .inl next by
              simp [findStep, hc, hscan, hfat])]
            exact ih next sec' hsec'
    · rw [loop_succ_inr (r := .error .notFound) (by simp [findStep, hc])]
      simp only [findInClusters, if_neg hc]
      rfl

/-- `find_entry_in_dir` reads the device and changes nothing. -/
theorem run_findEntryInDir (fuel : ℕ) (cluster : UInt32) (fatName : List UInt8) :
    (findEntryInDir g fuel cluster fatName).run (handler g) s =
      (findOutcome g s.disk fuel cluster fatName, s) := by
  by_cases hb : g.bps > 512
  · simp [findEntryInDir, findOutcome, hb, Program.run_bind]
  · simp only [findEntryInDir, findOutcome, hb, if_false]
    exact run_findInClusters g s fatName fuel cluster g.stack tail_stack

end Find

section Resolve

/-- The loop of `resolve_path` on the device contents. -/
def resolveOutcome (disk : Memory) (fuel : ℕ) :
    ℕ → List UInt8 → UInt32 → Found → Outcome FSErr Found
  | 0, _, _, _ => .spin
  | n + 1, cursor, cluster, current =>
    match nextComponent cursor 32 with
    | none => .ok current
    | some (comp, cursor) =>
      match findOutcome g disk fuel cluster (fatNameFromPathComponent comp) with
      | .ok found =>
        if cursor ≠ [] ∧ found.entry.isDirectory = false then .error .notFound
        else resolveOutcome disk fuel n cursor found.entry.firstCluster found
      | .error e => .error e
      | .spin => .spin

/-- What `resolve_path` gives. -/
def pathOutcome (disk : Memory) (fuel : ℕ) (path : List UInt8) : Outcome FSErr Found :=
  if path.head? ≠ some slash then .error .invalid
  else
    match resolveOutcome g disk fuel (path.length + 1) path g.bpb.rootCluster
        ⟨directoryEntry 0, 0, 0⟩ with
    | .ok found => .ok (if path.length = 1 then ⟨directoryEntry g.bpb.rootCluster, 0, 0⟩ else found)
    | .error e => .error e
    | .spin => .spin

lemma run_resolveFrom (fuel n : ℕ) (cursor : List UInt8) (cluster : UInt32) (current : Found) :
    (resolveFrom g fuel n cursor cluster current).run (handler g) s =
      (resolveOutcome g s.disk fuel n cursor cluster current, s) := by
  induction n generalizing cursor cluster current with
  | zero => rfl
  | succ n ih =>
    simp only [resolveFrom, resolveOutcome]
    cases nextComponent cursor 32 with
    | none => rfl
    | some r =>
      simp only [Program.run_bind, run_findEntryInDir]
      cases findOutcome g s.disk fuel cluster (fatNameFromPathComponent r.1) with
      | error e => rfl
      | spin => rfl
      | ok found =>
        by_cases hc : r.2 ≠ [] ∧ found.entry.isDirectory = false
        · simp only [if_pos hc, Program.run_throw]
        · simp only [if_neg hc]
          exact ih r.2 found.entry.firstCluster found

/-- `resolve_path` reads the device and changes nothing. -/
theorem run_resolvePath (fuel : ℕ) (path : List UInt8) :
    (resolvePath g fuel path).run (handler g) s = (pathOutcome g s.disk fuel path, s) := by
  by_cases hp : path.head? ≠ some slash
  · simp only [resolvePath, pathOutcome, if_pos hp, Program.run_bind, Program.run_throw]
  · simp only [resolvePath, pathOutcome, if_neg hp, Program.run_bind, run_resolveFrom]
    cases resolveOutcome g s.disk fuel (path.length + 1) path g.bpb.rootCluster
        ⟨directoryEntry 0, 0, 0⟩ with
    | error e => rfl
    | spin => rfl
    | ok found => by_cases hl : path.length = 1 <;> simp [hl]

end Resolve

section Listing

/-- The sectors of one cluster, as `fs_list_dir` reads them. -/
def listSectors (disk : Memory) (maxEntries : UInt32) :
    List UInt32 → List FSDirEntryInfo → Except FSErr (List FSDirEntryInfo × Bool)
  | [], acc => .ok (acc, false)
  | sector :: rest, acc =>
    match readSector g disk sector g.stack with
    | .error e => .error e
    | .ok sec =>
      let r := listInSector maxEntries sec (entryOffsets g) acc
      if r.2 then .ok (r.1, true) else listSectors disk maxEntries rest r.1

/-- One turn of the loop of `fs_list_dir`, on a cluster and the entries listed so far. -/
def listStep (disk : Memory) (maxEntries : UInt32) (x : UInt32 × List FSDirEntryInfo) :
    UInt32 × List FSDirEntryInfo ⊕ Except FSErr (List FSDirEntryInfo) :=
  if 2 ≤ x.1 ∧ x.1 < 0x0FFFFFF8 then
    match listSectors g disk maxEntries (clusterSectors g x.1) x.2 with
    | .error e => .inr (.error e)
    | .ok (acc, true) => .inr (.ok acc)
    | .ok (acc, false) =>
      match fatEntry g disk x.1 with
      | .ok next => .inl (next, acc)
      | .error e => .inr (.error e)
  else .inr (.ok x.2)

lemma run_listInSectors (maxEntries : UInt32) (sectors : List UInt32) (sec : Memory)
    (acc : List FSDirEntryInfo) (hsec : Tail g sec) :
    ∃ sec', Tail g sec' ∧ (listInSectors g maxEntries sectors sec acc).run (handler g) s =
      (match listSectors g s.disk maxEntries sectors acc with
        | .ok r => .ok (sec', r.1, r.2)
        | .error e => .error e, s) := by
  induction sectors generalizing sec acc with
  | nil => exact ⟨sec, hsec, rfl⟩
  | cons sector rest ih =>
    simp only [listInSectors, listSectors, Program.run_bind, run_read, readSector_tail hsec]
    cases hr : readSector g s.disk sector g.stack with
    | error e => exact ⟨sec, hsec, rfl⟩
    | ok sec₁ =>
      simp only [Outcome.ofExcept]
      have hsec₁ := tail_of_read hr
      cases hdone : (listInSector maxEntries sec₁ (entryOffsets g) acc).2 with
      | true => exact ⟨sec₁, hsec₁, rfl⟩
      | false =>
        simp only [Bool.false_eq_true, if_false]
        exact ih sec₁ _ hsec₁

lemma run_listInClusters (maxEntries : UInt32) (fuel : ℕ) (cluster : UInt32) (sec : Memory)
    (acc : List FSDirEntryInfo) (hsec : Tail g sec) :
    (listInClusters g maxEntries fuel cluster sec acc).run (handler g) s =
      (.ofLoop (loop (listStep g s.disk maxEntries) fuel (cluster, acc)), s) := by
  induction fuel generalizing cluster sec acc with
  | zero => rfl
  | succ fuel ih =>
    by_cases hc : 2 ≤ cluster ∧ cluster < 0x0FFFFFF8
    · obtain ⟨sec', hsec', hrun⟩ :=
        run_listInSectors g s maxEntries (clusterSectors g cluster) sec acc hsec
      simp only [listInClusters, if_pos hc, Program.run_bind, hrun]
      cases hscan : listSectors g s.disk maxEntries (clusterSectors g cluster) acc with
      | error e =>
        rw [loop_succ_inr (r := .error e) (by simp [listStep, hc, hscan])]
        rfl
      | ok r =>
        obtain ⟨acc', done⟩ := r
        cases done with
        | true =>
          rw [loop_succ_inr (r := .ok acc') (by simp [listStep, hc, hscan])]
          rfl
        | false =>
          simp only [Bool.false_eq_true, if_false, Program.run_bind, run_getFatEntry]
          cases hfat : fatEntry g s.disk cluster with
          | error e =>
            rw [loop_succ_inr (r := .error e) (by simp [listStep, hc, hscan, hfat])]
            rfl
          | ok next =>
            rw [loop_succ_inl (show listStep g s.disk maxEntries (cluster, acc) =
              .inl (next, acc') by simp [listStep, hc, hscan, hfat])]
            exact ih next sec' acc' hsec'
    · rw [loop_succ_inr (r := .ok acc) (by simp [listStep, hc])]
      simp only [listInClusters, if_neg hc]
      rfl

/-- What `fs_list_dir` gives on a mounted volume. -/
def listOutcome (disk : Memory) (fuel : ℕ) (path : List UInt8) (maxEntries : UInt32) :
    Outcome FSErr (List FSDirEntryInfo) :=
  if g.mounted = false then .error .notMounted
  else if maxEntries = 0 then .error .invalid
  else
    match pathOutcome g disk fuel path with
    | .error e => .error e
    | .spin => .spin
    | .ok dir =>
      if dir.entry.isDirectory = false then .error .invalid
      else if g.bps > 512 then .error .io
      else
        .ofLoop (loop (listStep g disk maxEntries) fuel
          (if path.length = 1 then g.bpb.rootCluster else dir.entry.firstCluster, []))

theorem run_fsListDir (fuel : ℕ) (path : List UInt8) (maxEntries : UInt32) :
    (fsListDir g fuel path maxEntries).run (handler g) s =
      (listOutcome g s.disk fuel path maxEntries, s) := by
  simp only [fsListDir, listOutcome]
  cases hm : g.mounted with
  | false => simp [Program.run_bind]
  | true =>
    simp only [Bool.true_eq_false, if_false]
    by_cases hz : maxEntries = 0
    · simp [hz, Program.run_bind]
    · simp only [hz, if_false, Program.run_bind, run_resolvePath]
      cases pathOutcome g s.disk fuel path with
      | error e => rfl
      | spin => rfl
      | ok dir =>
        cases hd : dir.entry.isDirectory with
        | false => simp [Program.run_bind, hd]
        | true =>
          by_cases hb : g.bps > 512
          · simp [Program.run_bind, hb, hd]
          · simp only [hd, hb, if_false, Bool.true_eq_false]
            exact run_listInClusters g s maxEntries fuel _ g.stack [] tail_stack

end Listing

section Open

/-- The handle that `fs_open` fills in. -/
def openedFile (e : Found) (mode : UInt8) : FSFile where
  firstCluster := e.entry.firstCluster
  size := e.entry.fileSize
  position := 0
  mode := mode
  dirEntrySector := e.sector
  dirEntryOffset := e.offset
  valid := true

/-- What `fs_open` gives: the handle it fills in. -/
def openOutcome (disk : Memory) (fuel : ℕ) (path : List UInt8) (mode : UInt8) :
    Outcome FSErr FSFile :=
  if g.mounted = false then .error .notMounted
  else if mode = 0 then .error .invalid
  else
    match pathOutcome g disk fuel path with
    | .error e => .error e
    | .spin => .spin
    | .ok e =>
      if e.entry.isDirectory then .error .access
      else if mode &&& fsOpenWrite ≠ 0 ∧ e.entry.attr &&& fsAttrReadOnly ≠ 0 then .error .access
      else .ok (openedFile e mode)

theorem run_fsOpen (fuel : ℕ) (path : List UInt8) (mode : UInt8) :
    (fsOpen g fuel path mode).run (handler g) s =
      match openOutcome g s.disk fuel path mode with
      | .ok file => (.ok (), { s with file := file })
      | .error e => (.error e, s)
      | .spin => (.spin, s) := by
  simp only [fsOpen, openOutcome]
  cases hm : g.mounted with
  | false => simp [Program.run_bind]
  | true =>
    simp only [Bool.true_eq_false, if_false]
    by_cases hz : mode = 0
    · simp [hz, Program.run_bind]
    · simp only [hz, if_false, Program.run_bind, run_resolvePath]
      cases pathOutcome g s.disk fuel path with
      | error e => rfl
      | spin => rfl
      | ok e =>
        cases hd : e.entry.isDirectory with
        | true => simp [Program.run_bind, hd]
        | false =>
          by_cases hr : mode &&& fsOpenWrite ≠ 0 ∧ e.entry.attr &&& fsAttrReadOnly ≠ 0
          · simp [Program.run_bind, hr, hd]
          · simp only [hd, hr, if_false, Bool.false_eq_true]
            rfl

end Open

end SBoy28.Fat32
