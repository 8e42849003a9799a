import SBoy28.Fat32.Scan
import Mathlib.Data.Finite.Prod

/-!
# When the directory calls return

Nothing in a directory scan notices that it comes back to a cluster, so a call returns if and
only if none of its scans does.
-/

namespace SBoy28.Fat32
open Lib

variable {g : FSMount} {s : State} {disk : Memory}

/-- The call returns, given enough turns of its loops. -/
def Returns {α : Type} (g : FSMount) (s : State) (call : ℕ → Fs α) : Prop :=
  ∃ fuel, ((call fuel).run (handler g) s).1 ≠ .spin

/-- The scans that `resolve_path` starts from a cursor and a cluster: for each the cluster it
starts from and the name it looks for. -/
inductive Scans (g : FSMount) (disk : Memory) :
    List UInt8 → UInt32 → UInt32 × List UInt8 → Prop where
  | here {cursor comp rest : List UInt8} {cluster : UInt32}
      (hnext : nextComponent cursor 32 = some (comp, rest)) :
      Scans g disk cursor cluster (cluster, fatNameFromPathComponent comp)
  | later {cursor comp rest : List UInt8} {cluster : UInt32} {found : Found} {fuel : ℕ}
      {x : UInt32 × List UInt8}
      (hnext : nextComponent cursor 32 = some (comp, rest))
      (hfound : findOutcome g disk fuel cluster (fatNameFromPathComponent comp) = .ok found)
      (hdir : ¬(rest ≠ [] ∧ found.entry.isDirectory = false))
      (hx : Scans g disk rest found.entry.firstCluster x) : Scans g disk cursor cluster x

/-- No scan of the path comes back to a cluster. -/
def PathEnds (g : FSMount) (disk : Memory) (cursor : List UInt8) (cluster : UInt32) : Prop :=
  ∀ x, Scans g disk cursor cluster x → ¬Cyclic (findStep g disk x.2) x.1

lemma ofLoop_ne_spin {ε α : Type} {r : Option (Except ε α)} :
    Outcome.ofLoop r ≠ .spin ↔ r ≠ none := by
  cases r with
  | none => simp [Outcome.ofLoop]
  | some r => cases r <;> simp [Outcome.ofLoop, Outcome.ofExcept]

instance finiteUInt32 : Finite UInt32 :=
  Finite.of_injective UInt32.toFin (fun _ _ h => UInt32.toFin_inj.mp h)

section Find

variable {cluster : UInt32} {fatName : List UInt8} {fuel fuel' : ℕ}

lemma findOutcome_mono (h : findOutcome g disk fuel cluster fatName ≠ .spin) (hle : fuel ≤ fuel') :
    findOutcome g disk fuel' cluster fatName = findOutcome g disk fuel cluster fatName := by
  by_cases hb : g.bps > 512
  · simp [findOutcome, hb]
  · simp only [findOutcome, hb, if_false] at h ⊢
    cases hl : loop (findStep g disk fatName) fuel cluster with
    | none => exact absurd hl (ofLoop_ne_spin.mp h)
    | some r => rw [loop_mono hl hle]

lemma findOutcome_unique (h : findOutcome g disk fuel cluster fatName ≠ .spin)
    (h' : findOutcome g disk fuel' cluster fatName ≠ .spin) :
    findOutcome g disk fuel cluster fatName = findOutcome g disk fuel' cluster fatName := by
  rcases Nat.le_total fuel fuel' with hle | hle
  · exact (findOutcome_mono h hle).symm
  · exact findOutcome_mono h' hle

/-- A scan ends unless it comes back to a cluster. -/
theorem findOutcome_ends_iff (hb : ¬g.bps > 512) :
    (∃ fuel, findOutcome g disk fuel cluster fatName ≠ .spin) ↔
      ¬Cyclic (findStep g disk fatName) cluster := by
  rw [← loop_ends_iff]
  simp only [findOutcome, hb, if_false, ofLoop_ne_spin]

end Find

section Resolve

lemma dropWhile_length_le {α : Type} (p : α → Bool) (l : List α) :
    (l.dropWhile p).length ≤ l.length := by
  exact (List.dropWhile_sublist p).length_le

lemma nextComponent_shorter {cursor comp rest : List UInt8}
    (h : nextComponent cursor 32 = some (comp, rest)) : rest.length < cursor.length := by
  have hcur := dropWhile_length_le (· = slash) cursor
  cases hp : cursor.dropWhile (· = slash) with
  | nil => simp [nextComponent, hp] at h
  | cons c t =>
    have hc : c ≠ slash := by
      have hhead := List.head_dropWhile_not (fun x => decide (x = slash)) (l := cursor) (by simp [hp])
      simpa [hp] using hhead
    simp only [nextComponent, hp, Option.some.injEq, Prod.mk.injEq] at h
    obtain ⟨rfl, rfl⟩ := h
    rw [hp] at hcur
    have hrest := dropWhile_length_le (· = slash)
      ((c :: t).drop (((c :: t).takeWhile (· ≠ slash)).take (32 - 1)).length)
    simp only [List.takeWhile_cons, hc, ne_eq, not_false_eq_true, decide_true, if_true,
      List.length_drop, List.length_take, List.length_cons] at hrest hcur ⊢
    omega

lemma resolveOutcome_mono {fuel fuel' : ℕ} (hle : fuel ≤ fuel') (n : ℕ) (cursor : List UInt8)
    (cluster : UInt32) (current : Found)
    (h : resolveOutcome g disk fuel n cursor cluster current ≠ .spin) :
    resolveOutcome g disk fuel' n cursor cluster current =
      resolveOutcome g disk fuel n cursor cluster current := by
  induction n generalizing cursor cluster current with
  | zero => rfl
  | succ n ih =>
    simp only [resolveOutcome] at h ⊢
    cases hn : nextComponent cursor 32 with
    | none => rfl
    | some r =>
      simp only [hn] at h ⊢
      have hf : findOutcome g disk fuel cluster (fatNameFromPathComponent r.1) ≠ .spin := by
        intro hs
        simp [hs] at h
      rw [findOutcome_mono hf hle]
      cases ho : findOutcome g disk fuel cluster (fatNameFromPathComponent r.1) with
      | error e => rfl
      | spin => rfl
      | ok found =>
        simp only [ho] at h ⊢
        by_cases hc : r.2 ≠ [] ∧ found.entry.isDirectory = false
        · simp only [if_pos hc]
        · simp only [if_neg hc] at h ⊢
          exact ih _ _ _ h

/-- A call that returns has started no endless scan. -/
lemma pathEnds_of_returns (hb : ¬g.bps > 512) {fuel : ℕ} (n : ℕ) {cursor : List UInt8}
    {cluster : UInt32} {current : Found}
    (h : resolveOutcome g disk fuel n cursor cluster current ≠ .spin) :
    PathEnds g disk cursor cluster := by
  intro x hx
  induction hx generalizing n current with
  | here hnext =>
    cases n with
    | zero => exact absurd rfl h
    | succ n =>
      apply (findOutcome_ends_iff hb).mp
      refine ⟨fuel, fun hs => ?_⟩
      simp [resolveOutcome, hnext, hs] at h
  | @later _ comp _ cluster _ _ _ hnext hfound hdir _ ih =>
    cases n with
    | zero => exact absurd rfl h
    | succ n =>
      have hf : findOutcome g disk fuel cluster (fatNameFromPathComponent comp) ≠ .spin := by
        intro hs
        simp [resolveOutcome, hnext, hs] at h
      have heq := findOutcome_unique hf (by rw [hfound]; simp)
      rw [hfound] at heq
      simp only [resolveOutcome, hnext, heq, if_neg hdir] at h
      exact ih n h

/-- A call all of whose scans end returns. -/
lemma returns_of_pathEnds (hb : ¬g.bps > 512) (n : ℕ) {cursor : List UInt8} {cluster : UInt32}
    {current : Found} (hn : cursor.length < n) (h : PathEnds g disk cursor cluster) :
    ∃ fuel, resolveOutcome g disk fuel n cursor cluster current ≠ .spin := by
  induction n generalizing cursor cluster current with
  | zero => omega
  | succ n ih =>
    cases hnext : nextComponent cursor 32 with
    | none => exact ⟨0, by simp [resolveOutcome, hnext]⟩
    | some r =>
      obtain ⟨comp, rest⟩ := r
      have hfirst := h _ (Scans.here hnext)
      obtain ⟨fuel, hfuel⟩ := (findOutcome_ends_iff hb).mpr hfirst
      cases ho : findOutcome g disk fuel cluster (fatNameFromPathComponent comp) with
      | spin => exact absurd ho hfuel
      | error e => exact ⟨fuel, by simp [resolveOutcome, hnext, ho]⟩
      | ok found =>
        by_cases hc : rest ≠ [] ∧ found.entry.isDirectory = false
        · exact ⟨fuel, by simp only [resolveOutcome, hnext, ho, if_pos hc]; simp⟩
        · have hshort := nextComponent_shorter hnext
          have hrest : PathEnds g disk rest found.entry.firstCluster :=
            fun x hx => h x (Scans.later hnext ho hc hx)
          obtain ⟨fuel', hfuel'⟩ :
              ∃ fuel, resolveOutcome g disk fuel n rest found.entry.firstCluster found ≠ .spin :=
            ih (by omega) hrest
          refine ⟨max fuel fuel', ?_⟩
          have hmono := findOutcome_mono hfuel (Nat.le_max_left fuel fuel')
          rw [ho] at hmono
          simp only [resolveOutcome, hnext, hmono, if_neg hc]
          rwa [resolveOutcome_mono (Nat.le_max_right fuel fuel') _ _ _ _ hfuel']

/-- The condition under which `resolve_path` returns. -/
def PathReturns (g : FSMount) (disk : Memory) (path : List UInt8) : Prop :=
  path.head? ≠ some slash ∨ g.bps > 512 ∨ PathEnds g disk path g.bpb.rootCluster

theorem pathOutcome_ends_iff (path : List UInt8) :
    (∃ fuel, pathOutcome g disk fuel path ≠ .spin) ↔ PathReturns g disk path := by
  by_cases hp : path.head? ≠ some slash
  · simp [pathOutcome, PathReturns, hp]
  · have hresolve : ∀ fuel, pathOutcome g disk fuel path ≠ .spin ↔
        resolveOutcome g disk fuel (path.length + 1) path g.bpb.rootCluster
          ⟨directoryEntry 0, 0, 0⟩ ≠ .spin := by
      intro fuel
      simp only [pathOutcome, if_neg hp]
      cases resolveOutcome g disk fuel (path.length + 1) path g.bpb.rootCluster
        ⟨directoryEntry 0, 0, 0⟩ <;> simp
    simp only [hresolve, PathReturns, hp, false_or]
    by_cases hb : g.bps > 512
    · simp only [hb, true_or, iff_true]
      refine ⟨0, ?_⟩
      simp only [resolveOutcome, findOutcome, hb, if_true]
      cases nextComponent path 32 <;> simp
    · simp only [hb, false_or]
      constructor
      · rintro ⟨fuel, h⟩
        exact pathEnds_of_returns hb _ h
      · intro h
        exact returns_of_pathEnds hb _ (by omega) h

lemma pathOutcome_mono {fuel fuel' : ℕ} (hle : fuel ≤ fuel') {path : List UInt8}
    (h : pathOutcome g disk fuel path ≠ .spin) :
    pathOutcome g disk fuel' path = pathOutcome g disk fuel path := by
  by_cases hp : path.head? ≠ some slash
  · simp only [pathOutcome, if_pos hp]
  · simp only [pathOutcome, if_neg hp] at h ⊢
    rw [resolveOutcome_mono hle]
    intro hs
    simp [hs] at h

lemma pathOutcome_unique {fuel fuel' : ℕ} {path : List UInt8}
    (h : pathOutcome g disk fuel path ≠ .spin) (h' : pathOutcome g disk fuel' path ≠ .spin) :
    pathOutcome g disk fuel path = pathOutcome g disk fuel' path := by
  rcases Nat.le_total fuel fuel' with hle | hle
  · exact (pathOutcome_mono hle h).symm
  · exact pathOutcome_mono hle h'

end Resolve

section Listing

variable {maxEntries : UInt32}

lemma listInSector_prefix (maxEntries : UInt32) (sec : Memory) (offsets : List ℕ) (acc : List FSDirEntryInfo) :
    acc <+: (listInSector maxEntries sec offsets acc).1 ∧
      (acc.length ≤ maxEntries.toNat →
        (listInSector maxEntries sec offsets acc).1.length ≤ maxEntries.toNat) := by
  induction offsets generalizing acc with
  | nil => simp [listInSector]
  | cons off rest ih =>
    simp only [listInSector]
    by_cases hm : (FATDirEntry.load sec off).mark = 0
    · simp [hm]
    · by_cases hs : (FATDirEntry.load sec off).skipped = true
      · simpa [hm, hs] using ih acc
      · by_cases hl : acc.length = maxEntries.toNat
        · simp [hm, hs, hl]
        · simp only [hm, hs, hl, if_false]
          obtain ⟨hp, hlen⟩ := ih (acc ++ [⟨decodeShortName (FATDirEntry.load sec off).name,
            (FATDirEntry.load sec off).attr, (FATDirEntry.load sec off).fileSize⟩])
          refine ⟨(List.prefix_append _ _).trans hp, ?_⟩
          intro hacc
          apply hlen
          rw [List.length_append, List.length_singleton]
          omega

lemma listSectors_prefix (sectors : List UInt32) {acc : List FSDirEntryInfo}
    {r : List FSDirEntryInfo × Bool}
    (h : listSectors g disk maxEntries sectors acc = .ok r) :
    acc <+: r.1 ∧ (acc.length ≤ maxEntries.toNat → r.1.length ≤ maxEntries.toNat) := by
  induction sectors generalizing acc with
  | nil =>
    simp only [listSectors, Except.ok.injEq] at h
    subst h
    exact ⟨List.prefix_refl _, id⟩
  | cons sector rest ih =>
    simp only [listSectors] at h
    cases hr : readSector g disk sector g.stack with
    | error e => simp [hr] at h
    | ok sec =>
      obtain ⟨hp, hlen⟩ := listInSector_prefix maxEntries sec (entryOffsets g) acc
      simp only [hr] at h
      split at h
      · simp only [Except.ok.injEq] at h
        subst h
        exact ⟨hp, hlen⟩
      · obtain ⟨hp', hlen'⟩ := ih h
        exact ⟨hp.trans hp', fun hacc => hlen' (hlen hacc)⟩

/-- A turn of a listing only adds entries, and not more than the caller has room for. -/
lemma goes_list {x y : UInt32 × List FSDirEntryInfo}
    (h : Goes (listStep g disk maxEntries) x y) :
    x.2 <+: y.2 ∧ (x.2.length ≤ maxEntries.toNat → y.2.length ≤ maxEntries.toNat) := by
  simp only [Goes, listStep] at h
  split at h
  · cases hl : listSectors g disk maxEntries (clusterSectors g x.1) x.2 with
    | error e => simp [hl] at h
    | ok r =>
      obtain ⟨acc, done⟩ := r
      have hpre := listSectors_prefix _ hl
      cases done with
      | true => simp [hl] at h
      | false =>
        cases hf : fatEntry g disk x.1 with
        | error e => simp [hl, hf] at h
        | ok next =>
          simp only [hl, hf, Sum.inl.injEq] at h
          subst h
          exact hpre
  · cases h

/-- A listing ends unless it comes back to a cluster with nothing listed in between. -/
theorem list_ends_iff (cluster : UInt32) :
    (∃ fuel, loop (listStep g disk maxEntries) fuel (cluster, []) ≠ none) ↔
      ¬Cyclic (listStep g disk maxEntries) (cluster, []) := by
  constructor
  · rintro ⟨n, hn⟩ hc
    exact hn (hc.loop_none n)
  · intro hc
    by_contra hend
    simp only [ne_eq, not_exists, not_not] at hend
    obtain ⟨a, b, ha, hab, he⟩ := exists_repeat
      (fun x : UInt32 × List FSDirEntryInfo =>
        (x.1, Fin.ofNat (maxEntries.toNat + 1) x.2.length)) hend
    have hreach : a.2.length ≤ maxEntries.toNat := by
      clear he hab
      induction ha with
      | refl => exact Nat.zero_le _
      | tail _ hstep ih => exact (goes_list hstep).2 ih
    have hpre : a.2 <+: b.2 ∧ b.2.length ≤ maxEntries.toNat := by
      clear he
      induction hab with
      | single hstep => exact ⟨(goes_list hstep).1, (goes_list hstep).2 hreach⟩
      | tail _ hstep ih => exact ⟨ih.1.trans (goes_list hstep).1, (goes_list hstep).2 ih.2⟩
    have hlen : a.2.length = b.2.length := by
      have hfin := congrArg Fin.val (Prod.mk.inj he).2
      simp only [Fin.val_ofNat] at hfin
      rwa [Nat.mod_eq_of_lt (by omega), Nat.mod_eq_of_lt (by omega)] at hfin
    have hacc : a.2 = b.2 := hpre.1.eq_of_length hlen
    have hab' : a = b := Prod.ext (Prod.mk.inj he).1 hacc
    subst hab'
    exact hc ⟨a, ha, hab⟩

end Listing

/-- Where `fs_list_dir` starts to list, once its path has been resolved. -/
def listStart (g : FSMount) (path : List UInt8) (dir : Found) : UInt32 :=
  if path.length = 1 then g.bpb.rootCluster else dir.entry.firstCluster

/-- The condition under which `fs_list_dir` returns. -/
def ListReturns (g : FSMount) (disk : Memory) (path : List UInt8) (maxEntries : UInt32) : Prop :=
  PathReturns g disk path ∧
    ∀ fuel dir, pathOutcome g disk fuel path = .ok dir → dir.entry.isDirectory = true →
      g.bps > 512 ∨ ¬Cyclic (listStep g disk maxEntries) (listStart g path dir, [])

section Calls

variable (g s)

lemma findEntryInDir_returns (cluster : UInt32) (fatName : List UInt8) :
    Returns g s (fun fuel => findEntryInDir g fuel cluster fatName) ↔
      g.bps > 512 ∨ ¬Cyclic (findStep g s.disk fatName) cluster := by
  simp only [Returns, run_findEntryInDir]
  by_cases hb : g.bps > 512
  · simp [findOutcome, hb]
  · rw [findOutcome_ends_iff hb]
    simp only [hb, false_or]

lemma resolvePath_returns (path : List UInt8) :
    Returns g s (fun fuel => resolvePath g fuel path) ↔ PathReturns g s.disk path := by
  simp only [Returns, run_resolvePath]
  exact pathOutcome_ends_iff path

lemma fsOpen_returns (path : List UInt8) (mode : UInt8) :
    Returns g s (fun fuel => fsOpen g fuel path mode) ↔
      g.mounted = false ∨ mode = 0 ∨ PathReturns g s.disk path := by
  rw [← pathOutcome_ends_iff]
  simp only [Returns, run_fsOpen, openOutcome]
  cases hm : g.mounted with
  | false => simp
  | true =>
    by_cases hz : mode = 0
    · simp [hz]
    · simp only [Bool.true_eq_false, if_false, hz, false_or]
      apply exists_congr
      intro fuel
      cases pathOutcome g s.disk fuel path with
      | error e => simp
      | spin => simp
      | ok e =>
        cases hd : e.entry.isDirectory with
        | true => simp [hd]
        | false =>
          by_cases hr : mode &&& fsOpenWrite ≠ 0 ∧ e.entry.attr &&& fsAttrReadOnly ≠ 0 <;>
            simp [hd, hr]

lemma listOutcome_ok {disk : Memory} {fuel : ℕ} {path : List UInt8} {maxEntries : UInt32}
    {dir : Found} (hm : g.mounted = true) (hz : maxEntries ≠ 0)
    (hp : pathOutcome g disk fuel path = .ok dir) (hd : dir.entry.isDirectory = true)
    (hb : ¬g.bps > 512) :
    listOutcome g disk fuel path maxEntries =
      .ofLoop (loop (listStep g disk maxEntries) fuel (listStart g path dir, [])) := by
  simp only [listOutcome, hm, hz, hp, hd, hb, Bool.true_eq_false, if_false]
  rfl

lemma fsListDir_returns (path : List UInt8) (maxEntries : UInt32) :
    Returns g s (fun fuel => fsListDir g fuel path maxEntries) ↔
      g.mounted = false ∨ maxEntries = 0 ∨ ListReturns g s.disk path maxEntries := by
  simp only [Returns, run_fsListDir]
  cases hm : g.mounted with
  | false => simp [listOutcome, hm]
  | true =>
    by_cases hz : maxEntries = 0
    · simp [listOutcome, hm, hz]
    · simp only [Bool.true_eq_false, hz, false_or, ListReturns, ← pathOutcome_ends_iff]
      constructor
      · rintro ⟨fuel, h⟩
        have hp : pathOutcome g s.disk fuel path ≠ .spin := by
          intro hs
          simp [listOutcome, hm, hz, hs] at h
        refine ⟨⟨fuel, hp⟩, ?_⟩
        intro fuel' dir hdir hd
        by_cases hb : g.bps > 512
        · exact Or.inl hb
        · right
          have heq := pathOutcome_unique hp (by rw [hdir]; simp)
          rw [hdir] at heq
          rw [listOutcome_ok g hm hz heq hd hb] at h
          exact (list_ends_iff _).mp ⟨fuel, ofLoop_ne_spin.mp h⟩
      · rintro ⟨⟨fuel, hp⟩, hlist⟩
        cases hr : pathOutcome g s.disk fuel path with
        | spin => exact absurd hr hp
        | error e => exact ⟨fuel, by simp [listOutcome, hm, hz, hr]⟩
        | ok dir =>
          cases hd : dir.entry.isDirectory with
          | false => exact ⟨fuel, by simp [listOutcome, hm, hz, hr, hd]⟩
          | true =>
            by_cases hb : g.bps > 512
            · exact ⟨fuel, by simp [listOutcome, hm, hz, hr, hd, hb]⟩
            · have hc := (hlist fuel dir hr hd).resolve_left hb
              obtain ⟨fuel', hl⟩ := (list_ends_iff _).mpr hc
              have hmono := pathOutcome_mono (Nat.le_max_left fuel fuel') hp
              rw [hr] at hmono
              refine ⟨max fuel fuel', ?_⟩
              rw [listOutcome_ok g hm hz hmono hd hb, ofLoop_ne_spin]
              cases hloop : loop (listStep g s.disk maxEntries) fuel' (listStart g path dir, []) with
              | none => exact absurd hloop hl
              | some r =>
                rw [loop_mono hloop (Nat.le_max_right fuel fuel')]
                simp

end Calls

/-- Each of the directory calls returns if and only if none of its scans comes back to a
cluster that it has scanned already, for a listing with nothing listed in between. -/
theorem directory_calls_return (g : FSMount) (s : State) :
    (∀ cluster fatName, Returns g s (fun fuel => findEntryInDir g fuel cluster fatName) ↔
      g.bps > 512 ∨ ¬Cyclic (findStep g s.disk fatName) cluster) ∧
    (∀ path, Returns g s (fun fuel => resolvePath g fuel path) ↔ PathReturns g s.disk path) ∧
    (∀ path mode, Returns g s (fun fuel => fsOpen g fuel path mode) ↔
      g.mounted = false ∨ mode = 0 ∨ PathReturns g s.disk path) ∧
    ∀ path maxEntries, Returns g s (fun fuel => fsListDir g fuel path maxEntries) ↔
      g.mounted = false ∨ maxEntries = 0 ∨ ListReturns g s.disk path maxEntries :=
  ⟨findEntryInDir_returns g s, resolvePath_returns g s, fsOpen_returns g s, fsListDir_returns g s⟩

/-- A device of one sector whose root directory is cluster 2, in sector 0, and whose FAT entry
of cluster 2 is 2. No entry of the directory is free or the last one. -/
def cyclicDevice : Memory := fun a =>
  if a = 8 then 2 else if a = 12 then 2 else if a = 13 then 1
  else if 32 ≤ a ∧ a < 36 then byteOf 65537 (a - 32)
  else if a = 44 then 2 else if a % 32 = 0 then 0x41 else 0

def cyclicMount : FSMount := (fsMountFat32 (FSMount.zero (fun _ => 0)) ⟨1, 512⟩ cyclicDevice).2

/-- Looking for a name that is not there never ends on `cyclicDevice`. -/
theorem directory_calls_endless :
    ¬∀ (g₀ : FSMount) (device : FSBlockDevice) (contents : Memory),
      (fsMountFat32 g₀ device contents).1 = .ok () → ∀ (s : State), s.disk = contents →
        ∀ cluster fatName, Returns (fsMountFat32 g₀ device contents).2 s
          (fun fuel => findEntryInDir (fsMountFat32 g₀ device contents).2 fuel cluster fatName) := by
  intro h
  have hreturns := h (FSMount.zero (fun _ => 0)) ⟨1, 512⟩ cyclicDevice rfl
    ⟨cyclicDevice, ⟨0, 0, 0, 0, 0, 0, false⟩⟩ rfl 2 (fatNameFromPathComponent [0x58])
  have hstep : findStep cyclicMount cyclicDevice (fatNameFromPathComponent [0x58]) 2 = .inl 2 := by
    rfl
  have hcyclic : Cyclic (findStep cyclicMount cyclicDevice (fatNameFromPathComponent [0x58])) 2 :=
    ⟨2, Relation.ReflTransGen.refl, Relation.TransGen.single hstep⟩
  rcases (findEntryInDir_returns _ _ _ _).mp hreturns with hb | hc
  · revert hb
    decide
  · exact hc hcyclic

end SBoy28.Fat32
