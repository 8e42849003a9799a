import SBoy28.Fat32.Names
import SBoy28.Fat32.Mount

/-!
# Listing and opening

`fs_list_dir` and `resolve_path` scan a directory each on its own. Both see its live slots: the
listing reports them in order, and the lookup finds the first one with the name.
-/

namespace SBoy28.Fat32
open Lib

variable {g : FSMount} {disk : Memory} {fam : Family} {l : List UInt32} {maxEntries : UInt32}
  {chains : Owner → List UInt32} {fuel : ℕ} {comps : List (List UInt8)}

/-- What `fs_list_dir` reports of an entry. -/
def infoOf (e : FATDirEntry) : FSDirEntryInfo := ⟨decodeShortName e.name, e.attr, e.fileSize⟩

section Scan

/-- The scan of `fs_list_dir` over some slots: the entries so far, and whether the call returns. -/
def listed (g : FSMount) (disk : Memory) (maxEntries : UInt32) :
    List Slot → List FSDirEntryInfo → List FSDirEntryInfo × Bool
  | [], acc => (acc, false)
  | d :: rest, acc =>
    if (entryAt g disk d).mark = 0 then (acc, true)
    else if (entryAt g disk d).skipped then listed g disk maxEntries rest acc
    else if acc.length = maxEntries.toNat then (acc, true)
    else listed g disk maxEntries rest (acc ++ [infoOf (entryAt g disk d)])

lemma listed_append (ds ds' : List Slot) (acc : List FSDirEntryInfo) :
    listed g disk maxEntries (ds ++ ds') acc =
      if (listed g disk maxEntries ds acc).2 then listed g disk maxEntries ds acc
      else listed g disk maxEntries ds' (listed g disk maxEntries ds acc).1 := by
  induction ds generalizing acc with
  | nil => rfl
  | cons d ds ih =>
    simp only [List.cons_append, listed, ih]
    by_cases hmark : (entryAt g disk d).mark = 0
    · simp [hmark]
    · by_cases hskip : (entryAt g disk d).skipped = true
      · simp [hmark, hskip]
      · by_cases hfull : acc.length = maxEntries.toNat
        · simp [hmark, hskip, hfull]
        · simp [hmark, hskip, hfull]

lemma listed_eq (ds : List Slot) {acc : List FSDirEntryInfo} (hacc : acc.length ≤ maxEntries.toNat) :
    (listed g disk maxEntries ds acc).1 =
      acc ++ (((ds.takeWhile (fun d => (entryAt g disk d).mark ≠ 0)).filter
        (fun d => !(entryAt g disk d).skipped)).take (maxEntries.toNat - acc.length)).map
          (fun d => infoOf (entryAt g disk d)) := by
  induction ds generalizing acc with
  | nil => simp [listed]
  | cons d ds ih =>
    by_cases hmark : (entryAt g disk d).mark = 0
    · simp [listed, hmark]
    · by_cases hskip : (entryAt g disk d).skipped = true
      · simpa [listed, hmark, hskip] using ih hacc
      · by_cases hfull : acc.length = maxEntries.toNat
        · simp [listed, hmark, hskip, hfull]
        · have hlen : maxEntries.toNat - acc.length = (maxEntries.toNat - (acc.length + 1)) + 1 := by omega
          have hroom : (acc ++ [infoOf (entryAt g disk d)]).length ≤ maxEntries.toNat := by
            rw [List.length_append, List.length_singleton]
            omega
          simpa [listed, hmark, hskip, hfull, hlen] using ih hroom

/-- The inner loop of `fs_list_dir` on the buffer of a sector. -/
lemma listInSector_eq {sec : Memory} {sector : UInt32}
    (hsec : ∀ i, i < g.bps.toNat → sec i = disk (sector.toNat * g.bps.toNat + i)) (offs : List ℕ)
    (hoffs : ∀ off ∈ offs, off + 32 ≤ g.bps.toNat) (acc : List FSDirEntryInfo) :
    listInSector maxEntries sec offs acc =
      listed g disk maxEntries (offs.map (fun off => ⟨sector, UInt32.ofNat off⟩)) acc := by
  induction offs generalizing acc with
  | nil => rfl
  | cons off rest ih =>
    have hload := load_sector hsec (hoffs off (by simp))
    have hrest := ih (fun o ho => hoffs o (by simp [ho]))
    simp only [listInSector, hload, List.map_cons, listed, hrest, infoOf]

lemma listSectors_eq (hg : Geometry g) (disk : Memory) (sectors : List UInt32)
    (hin : ∀ sector ∈ sectors, InBounds g sector) (acc : List FSDirEntryInfo) :
    listSectors g disk maxEntries sectors acc =
      .ok (listed g disk maxEntries (sectors.flatMap (sectorSlots g)) acc) := by
  induction sectors generalizing acc with
  | nil => rfl
  | cons sector rest ih =>
    have hrest := ih (fun s hs => hin s (by simp [hs]))
    have hbuffer : ∀ i, i < g.bps.toNat →
        copyTo g.stack 0 (shift disk (sector.toNat * g.bps.toNat)) g.bps.toNat i =
          disk (sector.toNat * g.bps.toNat + i) := fun i hi => copyTo_read _ _ _ hi
    have hlist : listInSector maxEntries
        (copyTo g.stack 0 (shift disk (sector.toNat * g.bps.toNat)) g.bps.toNat) (entryOffsets g) acc = _ :=
      listInSector_eq hbuffer (entryOffsets g) (fun off hoff => (mem_entryOffsets hg hoff).2) acc
    rw [← sectorSlots] at hlist
    simp only [listSectors, readSector_ok g (hin sector (by simp)), hlist, hrest, List.flatMap_cons,
      listed_append]
    split_ifs with hdone
    · rw [← hdone]
    · rfl

/-- The turn of `fs_list_dir` at a cluster: on to the next one, or out of the loop. -/
def listTurn (g : FSMount) (disk : Memory) (maxEntries : UInt32) (c : UInt32)
    (acc : List FSDirEntryInfo) : List FSDirEntryInfo ⊕ Except FSErr (List FSDirEntryInfo) :=
  match listed g disk maxEntries ((clusterSectors g c).flatMap (sectorSlots g)) acc with
  | (acc, true) => .inr (.ok acc)
  | (acc, false) => .inl acc

lemma listStep_eq (hg : Geometry g) {c : UInt32} (hc : InRange g c) (acc : List FSDirEntryInfo) :
    listStep g disk maxEntries (c, acc) =
      (listTurn g disk maxEntries c acc).map (fatValue g disk c, ·) id := by
  have hscan : listSectors g disk maxEntries (clusterSectors g c) acc = _ :=
    listSectors_eq hg disk (clusterSectors g c) (fun sector hs => (mem_clusterSectors hg hc hs).1) acc
  simp only [listStep, if_pos (hc.valid hg), hscan, listTurn]
  cases listed g disk maxEntries ((clusterSectors g c).flatMap (sectorSlots g)) acc with
  | mk acc' done =>
    cases done with
    | true => rfl
    | false => simp only [fatEntry_eq hg _ hc, Sum.map_inl]

lemma listStep_end {c : UInt32} (h : 0x0FFFFFF8 ≤ c) (acc : List FSDirEntryInfo) :
    listStep g disk maxEntries (c, acc) = .inr (.ok acc) := by
  rw [listStep, if_neg]
  rintro ⟨-, hlt⟩
  exact absurd hlt (UInt32.not_lt.mpr h)

lemma alongChain_listTurn (l : List UInt32) (acc : List FSDirEntryInfo) :
    alongChain (listTurn g disk maxEntries) .ok l acc =
      .ok (listed g disk maxEntries (slots g l) acc).1 := by
  induction l generalizing acc with
  | nil => rfl
  | cons c l ih =>
    rw [alongChain, listTurn, slots, List.flatMap_cons, ← slots, listed_append]
    cases listed g disk maxEntries ((clusterSectors g c).flatMap (sectorSlots g)) acc with
    | mk acc' done =>
      cases done with
      | true => rfl
      | false => exact ih acc'

/-- `fs_list_dir` on a directory of the volume. -/
theorem loop_listing (hg : Geometry g) (hchain : IsChain (table g disk) l) (hr : ∀ c ∈ l, InRange g c)
    {c : UInt32} (hhead : l.head? = some c) (hfuel : l.length < fuel) :
    loop (listStep g disk maxEntries) fuel (c, []) =
      some (.ok (((liveSlots g disk l).take maxEntries.toNat).map fun d => infoOf (entryAt g disk d))) := by
  have hloop : loop (listStep g disk maxEntries) fuel (c, []) = _ :=
    hchain.loop_eq Prod.mk (fatValue g disk) (listTurn g disk maxEntries) .ok
      (fun c hc => listStep_eq hg (hr c hc)) (fun c hc b hb => fatValue_of_next (hr c hc) hb)
      (fun c hc hend => listStep_end (fatValue_of_last (hr c hc) hend)) hfuel hhead []
  rw [alongChain_listTurn, listed_eq _ (by simp)] at hloop
  simpa [liveSlots] using hloop

end Scan

section Paths

lemma walkNames_slot {o o' : Owner} (hne : comps ≠ []) (h : walkNames g disk chains comps o = some o') :
    ∃ d, o' = some d := by
  induction comps generalizing o with
  | nil => exact absurd rfl hne
  | cons comp comps ih =>
    rw [walkNames] at h
    cases hl : lookup g disk (chains o) (fatNameFromPathComponent comp) with
    | none => simp [hl] at h
    | some d =>
      simp only [hl] at h
      split at h
      · cases h
      · by_cases hc : comps = []
        · subst hc
          exact ⟨d, (Option.some.inj h).symm⟩
        · exact ih hc h

lemma joined_length (hne : ∀ comp ∈ comps, comp ≠ []) : 2 * comps.length ≤ (joined comps).length := by
  induction comps with
  | nil => simp
  | cons comp comps ih =>
    have hpos := List.length_pos_iff.mpr (hne comp (by simp))
    have ih := ih (fun c hc => hne c (by simp [hc]))
    simp only [joined_cons, List.length_cons, List.length_append]
    omega

lemma walkPath_dirPath (hc : ∀ comp ∈ comps, IsComponent comp) :
    walkPath g disk chains ((dirPath comps).length + 1) (dirPath comps) none =
      walkNames g disk chains comps none := by
  by_cases hne : comps = []
  · subst hne
    rfl
  · rw [dirPath, if_neg hne]
    have hlen := joined_length (fun comp hm => (hc comp hm).ne)
    exact walkPath_joined _ (by omega) hc none

lemma walkNames_live (hc : ∀ comp ∈ comps, IsComponent comp) {o : Owner}
    (hw : walkNames g disk chains comps none = some o) : Live g disk chains o := by
  rw [← walkPath_dirPath hc] at hw
  exact walkPath_live _ Live.root (Or.inr rfl) hw

namespace TreeOk

variable (h : TreeOk g disk chains)

include h

/-- `resolve_path` on components, each after a slash. -/
theorem pathOutcome_joined (hg : Geometry g) (hfuel : g.clusterCount.toNat < fuel) (hne : comps ≠ [])
    (hc : ∀ comp ∈ comps, IsComponent comp) :
    pathOutcome g disk fuel (joined comps) =
      match walkNames g disk chains comps none with
      | none => .error .notFound
      | some o => .ok (foundOf g disk o) := by
  have hlen := joined_length (fun comp hm => (hc comp hm).ne)
  have hpos := List.length_pos_iff.mpr hne
  have hhead : (joined comps).head? = some slash := by
    obtain ⟨comp, rest, rfl⟩ := List.exists_cons_of_ne_nil hne
    rw [joined_cons]
    rfl
  rw [h.pathOutcome_eq hg hfuel, if_neg (by simp [hhead]), walkPath_joined _ (by omega) hc]
  cases walkNames g disk chains comps none with
  | none => rfl
  | some o => simp only [if_neg (show (joined comps).length ≠ 1 by omega)]

/-- `fs_list_dir` on a volume whose tree is in order. -/
theorem listOutcome_eq (hg : Geometry g) (hm : g.mounted = true) (hfuel : g.clusterCount.toNat < fuel)
    (hc : ∀ comp ∈ comps, IsComponent comp) (hmax : maxEntries ≠ 0) :
    listOutcome g disk fuel (dirPath comps) maxEntries =
      match walkNames g disk chains comps none with
      | none => .error .notFound
      | some o =>
        if isDir g disk o = false then .error .invalid
        else .ok (((liveSlots g disk (chains o)).take maxEntries.toNat).map fun d =>
          infoOf (entryAt g disk d)) := by
  have hlist : ∀ {o : Owner} {c : UInt32}, Live g disk chains o → isDir g disk o = true →
      (chains o).head? = some c → loop (listStep g disk maxEntries) fuel (c, []) =
        some (.ok (((liveSlots g disk (chains o)).take maxEntries.toNat).map fun d =>
          infoOf (entryAt g disk d))) := by
    intro o c ho hdir hhead
    have hchain := h.chain o ho hdir
    have hrange := h.range o ho hdir
    have hlen := length_le_clusterCount hchain.nodup hrange
    exact loop_listing hg hchain hrange hhead (by omega)
  rw [listOutcome, if_neg (by simp [hm]), if_neg hmax]
  by_cases hne : comps = []
  · subst hne
    have hroot : (directoryEntry g.bpb.rootCluster).isDirectory = true := by
      simp [FATDirEntry.isDirectory, directoryEntry, fsAttrDirectory]
    have hpath : pathOutcome g disk fuel (dirPath []) = .ok ⟨directoryEntry g.bpb.rootCluster, 0, 0⟩ := by
      rw [h.pathOutcome_eq hg hfuel]
      rfl
    simp only [hpath, hroot, walkNames, isDir, Bool.true_eq_false, if_false, if_neg hg.bps_le_512]
    rw [if_pos (show (dirPath []).length = 1 from rfl), hlist Live.root rfl h.root]
    rfl
  · have hw := h.pathOutcome_joined hg hfuel hne hc
    rw [dirPath, if_neg hne, hw]
    cases ho : walkNames g disk chains comps none with
    | none => rfl
    | some o =>
      obtain ⟨d, rfl⟩ := walkNames_slot hne ho
      have hlive := walkNames_live hc ho
      by_cases hd : (entryAt g disk d).isDirectory = true
      · have hlen := joined_length (fun comp hm => (hc comp hm).ne)
        have hpos := List.length_pos_iff.mpr hne
        have hlong : (joined comps).length ≠ 1 := by omega
        simp [foundOf, foundAt, isDir, hd, hg.bps_le_512, hlong, hlist hlive hd (h.dir d hlive hd),
          Outcome.ofLoop, Outcome.ofExcept]
      · simp [foundOf, foundAt, isDir, hd]

end TreeOk

end Paths

section Specification

/-- The slot is in use in the directory at the end of the path. -/
def EntryOf (g : FSMount) (disk : Memory) (fam : Family) (path : List UInt8) (d : Slot) : Prop :=
  ∃ o, walkPath g disk (chainOf g disk fam) (path.length + 1) path none = some o ∧
    d ∈ liveSlots g disk (chainOf g disk fam o)

/-- `fs_list_dir` reports the entry. -/
def Reports (g : FSMount) (fuel : ℕ) (s : State) (path : List UInt8) (maxEntries : UInt32)
    (e : FATDirEntry) : Prop :=
  ∃ infos, ((fsListDir g fuel path maxEntries).run (handler g) s).1 = .ok infos ∧ infoOf e ∈ infos

/-- `resolve_path` returns `FS_OK` with the entry. -/
def Resolves (g : FSMount) (fuel : ℕ) (s : State) (path : List UInt8) (e : FATDirEntry) : Prop :=
  ∃ found, ((resolvePath g fuel path).run (handler g) s).1 = .ok found ∧ found.entry = e

end Specification

section Agreement

variable {s : State}

/-- The slots of a directory are fewer than the bytes of the device. -/
lemma liveSlots_length (hg : Geometry g) (hlen : l.length ≤ g.clusterCount.toNat) :
    (liveSlots g disk l).length < 2 ^ 32 := by
  have hend := hg.dataEnd_lt
  have hlive : (liveSlots g disk l).length ≤ (slots g l).length :=
    Nat.le_trans (List.length_filter_le _ _) (List.takeWhile_sublist _).length_le
  have hoffsets : (entryOffsets g).length ≤ g.bps.toNat := by
    have hpos := hg.bps_pos
    rw [entryOffsets, List.length_map, List.length_range]
    omega
  have hslots : (slots g l).length = l.length * (g.spc.toNat * (entryOffsets g).length) := by
    simp [slots, sectorSlots, clusterSectors, List.length_flatMap, Function.comp_def]
  have hle : l.length * (g.spc.toNat * (entryOffsets g).length) ≤
      g.clusterCount.toNat * (g.spc.toNat * g.bps.toNat) :=
    Nat.mul_le_mul hlen (Nat.mul_le_mul_left _ hoffsets)
  rw [Nat.add_mul, Nat.mul_assoc] at hend
  omega

lemma WellFormed.tree (hw : WellFormed g disk fam) : TreeOk g disk (chainOf g disk fam) := by
  have hclosed : ∀ h, (formattedVolume.files h).valid = false := formatted_closed
  exact (hw.consistent hclosed).tree

lemma resolves_iff {path : List UInt8} {e : FATDirEntry} :
    Resolves g fuel s path e ↔ ∃ found, pathOutcome g s.disk fuel path = .ok found ∧ found.entry = e := by
  rw [Resolves, run_resolvePath]

lemma reports_iff {path : List UInt8} {e : FATDirEntry} :
    Reports g fuel s path maxEntries e ↔
      ∃ infos, listOutcome g s.disk fuel path maxEntries = .ok infos ∧ infoOf e ∈ infos := by
  rw [Reports, run_fsListDir]

lemma entryOf_iff {d : Slot} (hc : ∀ comp ∈ comps, IsComponent comp) :
    EntryOf g disk fam (dirPath comps) d ↔
      ∃ o, walkNames g disk (chainOf g disk fam) comps none = some o ∧
        d ∈ liveSlots g disk (chainOf g disk fam o) := by
  rw [EntryOf, walkPath_dirPath hc]

lemma TreeOk.pathOutcome_append (h : TreeOk g disk chains) (hg : Geometry g)
    (hfuel : g.clusterCount.toNat < fuel) {name : List UInt8}
    (hc : ∀ comp ∈ comps ++ [name], IsComponent comp) :
    pathOutcome g disk fuel (dirPath comps ++ slash :: name) =
      pathOutcome g disk fuel (joined (comps ++ [name])) := by
  by_cases hne : comps = []
  · subst hne
    have hjoin : dirPath [] ++ slash :: name = slash :: joined [name] := by simp [dirPath, joined]
    have hskip : ∀ n, walkPath g disk chains n (slash :: joined [name]) none =
        walkPath g disk chains n (joined [name]) none := by
      intro n
      rw [← walkPath_dropWhile, List.dropWhile_cons_of_pos (by simp), walkPath_dropWhile]
    have hlen : 2 ≤ (joined [name]).length := joined_length (fun comp hm => (hc comp hm).ne)
    rw [List.nil_append] at hc ⊢
    rw [hjoin, h.pathOutcome_joined hg hfuel (by simp) hc, h.pathOutcome_eq hg hfuel, hskip,
      walkPath_joined _ (by simp) hc, if_neg (by simp)]
    have hlong : (slash :: joined [name]).length ≠ 1 := by
      rw [List.length_cons]
      omega
    cases walkNames g disk chains [name] none with
    | none => rfl
    | some o => simp only [if_neg hlong]
  · rw [dirPath, if_neg hne, joined, joined, List.flatMap_append]
    simp

/-- What is listed can be opened: an entry with a short name of its own that `fs_list_dir` reports is
found under the listed name, in any letter case. -/
theorem WellFormed.resolves_listed (hw : WellFormed g s.disk fam) (hfuel : g.clusterCount.toNat < fuel)
    (hc : ∀ comp ∈ comps, ∃ n : ShortName, n.Spells comp) {d : Slot} {n : ShortName}
    (hd : EntryOf g s.disk fam (dirPath comps) d) (hn : (entryAt g s.disk d).name = n.raw)
    (hunique : ∀ d', EntryOf g s.disk fam (dirPath comps) d' → (entryAt g s.disk d').name = n.raw → d' = d)
    (hr : Reports g fuel s (dirPath comps) maxEntries (entryAt g s.disk d)) {name : List UInt8}
    (hname : name.map toUpper = decodeShortName (entryAt g s.disk d).name) :
    Resolves g fuel s (dirPath comps ++ slash :: name) (entryAt g s.disk d) := by
  have hcomps : ∀ comp ∈ comps, IsComponent comp := fun comp hm => (hc comp hm).choose_spec.isComponent
  have hspells : n.Spells name := by
    rw [hn, n.decode] at hname
    exact hname
  have hall : ∀ comp ∈ comps ++ [name], IsComponent comp := by
    intro comp hm
    rcases List.mem_append.mp hm with hm | hm
    · exact hcomps comp hm
    · rw [List.mem_singleton.mp hm]
      exact hspells.isComponent
  obtain ⟨o, ho, hd⟩ := (entryOf_iff hcomps).mp hd
  have hfirst : ∀ d', d' ∈ liveSlots g s.disk (chainOf g s.disk fam o) →
      (entryAt g s.disk d').name = n.raw → d' = d :=
    fun d' hd' he => hunique d' ((entryOf_iff hcomps).mpr ⟨o, ho, hd'⟩) he
  obtain ⟨infos, hlist, -⟩ := reports_iff.mp hr
  have hmax : maxEntries ≠ 0 := by
    intro he
    rw [listOutcome, if_neg (by simp [hw.mounted]), if_pos he] at hlist
    cases hlist
  rw [hw.tree.listOutcome_eq hw.geometry hw.mounted hfuel hcomps hmax, ho] at hlist
  have hdir : isDir g s.disk o = true := by
    cases hd : isDir g s.disk o with
    | true => rfl
    | false => simp [hd] at hlist
  have hlookup : lookup g s.disk (chainOf g s.disk fam o) n.raw = some d := by
    cases hl : lookup g s.disk (chainOf g s.disk fam o) n.raw with
    | none =>
      have hnone := List.find?_eq_none.mp hl d hd
      simp [hn] at hnone
    | some d' =>
      have hname' := List.find?_some hl
      rw [hfirst d' (List.mem_of_find?_eq_some hl) (by simpa using hname')]
  rw [resolves_iff, hw.tree.pathOutcome_append hw.geometry hfuel hall,
    hw.tree.pathOutcome_joined hw.geometry hfuel (by simp) hall, walkNames_append rfl, ho]
  simp only [hdir, Bool.true_eq_false, if_false, hspells.encode, hlookup, Option.map_some]
  exact ⟨foundAt g s.disk d, rfl, rfl⟩

/-- What can be opened is listed. -/
theorem WellFormed.reports_resolved (hw : WellFormed g s.disk fam) (hfuel : g.clusterCount.toNat < fuel)
    {comp : List UInt8} (hc : ∀ c ∈ comps ++ [comp], ∃ n : ShortName, n.Spells c) {e : FATDirEntry}
    (hr : Resolves g fuel s (joined (comps ++ [comp])) e) :
    ∃ d, EntryOf g s.disk fam (dirPath comps) d ∧ entryAt g s.disk d = e ∧
      ∃ k < 2 ^ 32, ∀ maxEntries : UInt32, k ≤ maxEntries.toNat →
        Reports g fuel s (dirPath comps) maxEntries e := by
  have hall : ∀ c ∈ comps ++ [comp], IsComponent c := fun c hm => (hc c hm).choose_spec.isComponent
  have hcomps : ∀ c ∈ comps, IsComponent c := fun c hm => hall c (by simp [hm])
  obtain ⟨found, hpath, rfl⟩ := resolves_iff.mp hr
  rw [hw.tree.pathOutcome_joined hw.geometry hfuel (by simp) hall, walkNames_append rfl] at hpath
  cases ho : walkNames g s.disk (chainOf g s.disk fam) comps none with
  | none => simp [ho] at hpath
  | some o =>
    by_cases hdir : isDir g s.disk o = true
    · cases hl : lookup g s.disk (chainOf g s.disk fam o) (fatNameFromPathComponent comp) with
      | none => simp [ho, hdir, hl] at hpath
      | some d =>
        have hd : d ∈ liveSlots g s.disk (chainOf g s.disk fam o) := List.mem_of_find?_eq_some hl
        have hlive := walkNames_live hcomps ho
        have hlen := length_le_clusterCount (hw.tree.chain o hlive hdir).nodup (hw.tree.range o hlive hdir)
        have hfound : foundOf g s.disk (some d) = found := by simpa [ho, hdir, hl] using hpath
        have hentry : entryAt g s.disk d = found.entry := by
          rw [← hfound]
          rfl
        refine ⟨d, (entryOf_iff hcomps).mpr ⟨o, ho, hd⟩, hentry,
          (liveSlots g s.disk (chainOf g s.disk fam o)).length, liveSlots_length hw.geometry hlen, ?_⟩
        intro maxEntries hk
        have hmax : maxEntries ≠ 0 := by
          rintro rfl
          have hpos := List.length_pos_of_mem hd
          rw [UInt32.toNat_zero] at hk
          omega
        rw [reports_iff, hw.tree.listOutcome_eq hw.geometry hw.mounted hfuel hcomps hmax, ho]
        refine ⟨_, if_neg (by simp [hdir]), ?_⟩
        rw [List.take_of_length_le hk, ← hentry]
        exact List.mem_map_of_mem hd
    · simp [ho, hdir] at hpath

/-- Listing and opening agree on every directory whose path consists of short names: an entry with a
short name of its own that `fs_list_dir` reports is what `resolve_path` finds under the reported name,
in any letter case; and what `resolve_path` finds in the directory under a short name is reported. -/
theorem listing_and_opening (hw : WellFormed g s.disk fam) (hfuel : g.clusterCount.toNat < fuel)
    (hc : ∀ comp ∈ comps, ∃ n : ShortName, n.Spells comp) :
    (∀ (d : Slot) (n : ShortName) (maxEntries : UInt32) (name : List UInt8),
      EntryOf g s.disk fam (dirPath comps) d → (entryAt g s.disk d).name = n.raw →
      (∀ d', EntryOf g s.disk fam (dirPath comps) d' → (entryAt g s.disk d').name = n.raw → d' = d) →
      Reports g fuel s (dirPath comps) maxEntries (entryAt g s.disk d) →
      name.map toUpper = decodeShortName (entryAt g s.disk d).name →
        Resolves g fuel s (dirPath comps ++ slash :: name) (entryAt g s.disk d)) ∧
    ∀ (comp : List UInt8) (n : ShortName) (e : FATDirEntry), n.Spells comp →
      Resolves g fuel s (joined (comps ++ [comp])) e →
        ∃ d, EntryOf g s.disk fam (dirPath comps) d ∧ entryAt g s.disk d = e ∧
          ∃ k < 2 ^ 32, ∀ maxEntries : UInt32, k ≤ maxEntries.toNat →
            Reports g fuel s (dirPath comps) maxEntries e := by
  constructor
  · intro d n maxEntries name hd hn hunique hr hname
    exact hw.resolves_listed hfuel hc hd hn hunique hr hname
  · intro comp n e hn hr
    apply hw.reports_resolved hfuel _ hr
    intro c hm
    rcases List.mem_append.mp hm with hm | hm
    · exact hc c hm
    · exact ⟨n, by rwa [List.mem_singleton.mp hm]⟩

/-- The name `A`. -/
def nameA : ShortName where
  base := [0x41]
  ext := []
  base_ne := by simp
  base_le := by simp
  ext_le := by simp
  base_byte b hb := by
    rw [List.mem_singleton.mp hb]
    constructor <;> decide
  ext_byte b hb := by cases hb
  head := by simp

lemma formatted_entryOf (d : Slot) :
    EntryOf formattedMount formattedDisk formattedChains (dirPath []) d ↔ d = formattedSlot := by
  have hroot : chainOf formattedMount formattedDisk formattedChains none = [2] := by
    rw [chainOf, formatted_firstOf_none]
    rfl
  have hcomps : ∀ comp ∈ ([] : List (List UInt8)), IsComponent comp := by simp
  rw [entryOf_iff hcomps]
  simp [walkNames, hroot, formatted_liveSlots]

lemma formatted_reports (file : FSFile) :
    Reports formattedMount 65526 ⟨formattedDisk, file⟩ (dirPath []) 1
      (entryAt formattedMount formattedDisk formattedSlot) := by
  have hlist : listOutcome formattedMount formattedDisk 65526 (dirPath []) 1 = .ok [⟨[0x41], 0x20, 0⟩] := by
    decide +kernel
  rw [reports_iff, formatted_entry]
  exact ⟨_, hlist, by decide⟩

/-- The formatted volume, with a handle that is closed. -/
def formattedState : State := ⟨formattedDisk, formattedVolume.files 0⟩

/-- The file `A` of the formatted volume is listed in the root directory, and opened as `/a`. -/
theorem listing_and_opening_formatted :
    Resolves formattedMount 65526 formattedState (dirPath [] ++ [slash, 0x61])
      (entryAt formattedMount formattedDisk formattedSlot) ∧
    ∃ d, EntryOf formattedMount formattedDisk formattedChains (dirPath []) d ∧
      entryAt formattedMount formattedDisk d = entryAt formattedMount formattedDisk formattedSlot ∧
      ∃ k < 2 ^ 32, ∀ maxEntries : UInt32, k ≤ maxEntries.toNat →
        Reports formattedMount 65526 formattedState (dirPath []) maxEntries
          (entryAt formattedMount formattedDisk formattedSlot) := by
  have hcomps : ∀ comp ∈ ([] : List (List UInt8)), ∃ n : ShortName, n.Spells comp := by simp
  have hw : WellFormed formattedMount formattedState.disk formattedChains := formatted_wellFormed
  have hagree := listing_and_opening hw formatted_fuel hcomps
  have hname : (entryAt formattedMount formattedState.disk formattedSlot).name = nameA.raw := by
    rw [show formattedState.disk = formattedDisk from rfl, formatted_entry]
    rfl
  have hspells : nameA.Spells [0x61] := by
    rw [ShortName.Spells]
    decide
  have hopen : Resolves formattedMount 65526 formattedState (dirPath [] ++ [slash, 0x61])
      (entryAt formattedMount formattedDisk formattedSlot) := by
    apply hagree.1 formattedSlot nameA 1 [0x61] ((formatted_entryOf _).mpr rfl) hname _
      (formatted_reports _)
    · rw [hname, nameA.decode]
      exact hspells
    · intro d hd _
      exact (formatted_entryOf d).mp hd
  refine ⟨hopen, hagree.2 [0x61] nameA _ hspells ?_⟩
  have hall : ∀ comp ∈ [] ++ [[0x61]], IsComponent comp := by
    intro comp hm
    rw [List.nil_append, List.mem_singleton] at hm
    rw [hm]
    exact hspells.isComponent
  have happend := hw.tree.pathOutcome_append formatted_geometry formatted_fuel hall
  rw [resolves_iff] at hopen ⊢
  rwa [← happend]

end Agreement

end SBoy28.Fat32
