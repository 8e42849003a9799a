import SBoy28.Fat32.Directory
import SBoy28.Fat32.Allocation
import SBoy28.Fat32.Termination
import Mathlib.Data.List.Find

/-!
# The directory tree

The files and directories of a volume are the root and the entries that can be reached from it.
Paths lead through this tree, and what they lead to only depends on the names and attributes
in it and on the chains of the directories.
-/

namespace SBoy28.Fat32
open Lib

/-- What has a chain: the root directory, or the file or directory of an entry. -/
abbrev Owner := Option Slot

variable {g : FSMount} {disk disk' : Memory} {chains chains' : Owner → List UInt32}

/-- The entries `.` and `..`, which lead back into the tree. -/
def FATDirEntry.isDot (e : FATDirEntry) : Bool :=
  e.name = padded 11 [dot] ∨ e.name = padded 11 [dot, dot]

def isDir (g : FSMount) (disk : Memory) : Owner → Bool
  | none => true
  | some d => (entryAt g disk d).isDirectory

/-- The root directory and the entries in use of live directories, `.` and `..` apart. -/
inductive Live (g : FSMount) (disk : Memory) (chains : Owner → List UInt32) : Owner → Prop where
  | root : Live g disk chains none
  | entry {o : Owner} {d : Slot} (ho : Live g disk chains o) (hdir : isDir g disk o = true)
      (hd : d ∈ liveSlots g disk (chains o)) (hdot : (entryAt g disk d).isDot = false) :
      Live g disk chains (some d)

/-- The directories of a volume have chains, and these start at their first clusters. -/
structure TreeOk (g : FSMount) (disk : Memory) (chains : Owner → List UInt32) : Prop where
  chain : ∀ o, Live g disk chains o → isDir g disk o = true → IsChain (table g disk) (chains o)
  range : ∀ o, Live g disk chains o → isDir g disk o = true → ∀ c ∈ chains o, InRange g c
  root : (chains none).head? = some g.bpb.rootCluster
  dir : ∀ d, Live g disk chains (some d) → (entryAt g disk d).isDirectory = true →
    (chains (some d)).head? = some (entryAt g disk d).firstCluster

section Names

lemma toUpper_ne_dot {c : UInt8} (h : c ≠ dot) : toUpper c ≠ dot := by
  rw [toUpper]
  split
  · rename_i hc
    intro he
    have hlo := UInt8.le_iff_toNat_le.mp hc.1
    have hhi := UInt8.le_iff_toNat_le.mp hc.2
    have hsub := congrArg UInt8.toNat he
    simp only [UInt8.toNat_sub, dot] at hsub hlo hhi
    simp at hsub hlo hhi
    omega
  · exact h

lemma takeUpper_head (comp : List UInt8) : (takeUpper [slash, dot] 8 comp).1.head? ≠ some dot := by
  cases comp with
  | nil => simp [takeUpper]
  | cons b rest =>
    by_cases hb : b ∈ [slash, dot]
    · simp [takeUpper, hb]
    · have hdot : b ≠ dot := fun e => hb (by simp [e])
      simpa [takeUpper, hb] using toUpper_ne_dot hdot

lemma fatName_head (comp : List UInt8) : (fatNameFromPathComponent comp).head? ≠ some dot := by
  have hhead := takeUpper_head comp
  have hspace : space ≠ dot := by decide
  simp only [fatNameFromPathComponent, padded]
  cases hl : (takeUpper [slash, dot] 8 comp).1 with
  | nil => simp [hspace]
  | cons c rest =>
    rw [hl] at hhead
    simpa using hhead

lemma not_isDot_of_name {e : FATDirEntry} {comp : List UInt8}
    (h : e.name = fatNameFromPathComponent comp) : e.isDot = false := by
  have hhead := fatName_head comp
  rw [← h] at hhead
  simp only [FATDirEntry.isDot, decide_eq_false_iff_not, not_or]
  constructor
  · intro he
    exact hhead (by rw [he]; rfl)
  · intro he
    exact hhead (by rw [he]; rfl)

end Names

section Paths

/-- The owner that a path leads to from another one. -/
def walkPath (g : FSMount) (disk : Memory) (chains : Owner → List UInt32) :
    ℕ → List UInt8 → Owner → Option Owner
  | 0, _, _ => none
  | n + 1, cursor, o =>
    match nextComponent cursor 32 with
    | none => some o
    | some (comp, cursor) =>
      match lookup g disk (chains o) (fatNameFromPathComponent comp) with
      | none => none
      | some d =>
        if cursor ≠ [] ∧ (entryAt g disk d).isDirectory = false then none
        else walkPath g disk chains n cursor (some d)

/-- What `resolve_path` has found at an owner. -/
def foundOf (g : FSMount) (disk : Memory) : Owner → Found
  | none => ⟨directoryEntry 0, 0, 0⟩
  | some d => foundAt g disk d

/-- The path ends here, or leads on from a directory. -/
def Passable (g : FSMount) (disk : Memory) (cursor : List UInt8) (o : Owner) : Prop :=
  nextComponent cursor 32 = none ∨ isDir g disk o = true

lemma lookup_live {o : Owner} {comp : List UInt8} {d : Slot} (ho : Live g disk chains o)
    (hdir : isDir g disk o = true)
    (h : lookup g disk (chains o) (fatNameFromPathComponent comp) = some d) :
    Live g disk chains (some d) := by
  have hmem := List.mem_of_find?_eq_some h
  have hname := List.find?_some h
  exact Live.entry ho hdir hmem (not_isDot_of_name (by simpa using hname))

/-- A component leads to an entry from which the path can go on. -/
lemma passable_of_not {cursor : List UInt8} {d : Slot}
    (h : ¬(cursor ≠ [] ∧ (entryAt g disk d).isDirectory = false)) :
    Passable g disk cursor (some d) := by
  by_cases hc : cursor = []
  · subst hc
    exact Or.inl rfl
  · right
    simpa [hc, isDir] using h

lemma walkPath_live (n : ℕ) {cursor : List UInt8} {o o' : Owner} (ho : Live g disk chains o)
    (hp : Passable g disk cursor o) (h : walkPath g disk chains n cursor o = some o') :
    Live g disk chains o' := by
  induction n generalizing cursor o with
  | zero => simp [walkPath] at h
  | succ n ih =>
    rw [walkPath] at h
    cases hnext : nextComponent cursor 32 with
    | none =>
      simp only [hnext, Option.some.injEq] at h
      exact h ▸ ho
    | some r =>
      have hdir : isDir g disk o = true := hp.resolve_left (by simp [hnext])
      simp only [hnext] at h
      cases hl : lookup g disk (chains o) (fatNameFromPathComponent r.1) with
      | none => simp [hl] at h
      | some d =>
        simp only [hl] at h
        split at h
        · simp at h
        · rename_i hc
          exact ih (lookup_live ho hdir hl) (passable_of_not hc) h

lemma TreeOk.resolveOutcome_eq (hg : Geometry g) (h : TreeOk g disk chains) {fuel : ℕ}
    (hfuel : g.clusterCount.toNat < fuel) (n : ℕ) (cursor : List UInt8) (o : Owner)
    {cluster : UInt32} (hn : cursor.length < n) (ho : Live g disk chains o)
    (hp : Passable g disk cursor o)
    (hhead : isDir g disk o = true → (chains o).head? = some cluster) :
    resolveOutcome g disk fuel n cursor cluster (foundOf g disk o) =
      match walkPath g disk chains n cursor o with
      | some o' => .ok (foundOf g disk o')
      | none => .error .notFound := by
  induction n generalizing cursor o cluster with
  | zero => omega
  | succ n ih =>
    rw [resolveOutcome, walkPath]
    cases hnext : nextComponent cursor 32 with
    | none => rfl
    | some r =>
      have hdir : isDir g disk o = true := hp.resolve_left (by simp [hnext])
      have hchain := h.chain o ho hdir
      have hlen := length_le_clusterCount hchain.nodup (h.range o ho hdir)
      have hfind := findOutcome_eq hg (fatNameFromPathComponent r.1) hchain (h.range o ho hdir)
        (hhead hdir) (Nat.lt_of_le_of_lt hlen hfuel)
      have hshort := nextComponent_shorter hnext
      simp only [hfind]
      cases hl : lookup g disk (chains o) (fatNameFromPathComponent r.1) with
      | none => rfl
      | some d =>
        simp only [lookupResult, Outcome.ofExcept, foundAt]
        by_cases hc : r.2 ≠ [] ∧ (entryAt g disk d).isDirectory = false
        · simp only [if_pos hc]
        · simp only [if_neg hc]
          have hlive := lookup_live ho hdir hl
          exact ih r.2 (some d) (by omega) hlive (passable_of_not hc) (h.dir d hlive)

/-- `resolve_path` on a volume whose tree is in order. -/
theorem TreeOk.pathOutcome_eq (hg : Geometry g) (h : TreeOk g disk chains) {fuel : ℕ}
    (hfuel : g.clusterCount.toNat < fuel) (path : List UInt8) :
    pathOutcome g disk fuel path =
      if path.head? ≠ some slash then .error .invalid
      else
        match walkPath g disk chains (path.length + 1) path none with
        | none => .error .notFound
        | some o =>
          .ok (if path.length = 1 then ⟨directoryEntry g.bpb.rootCluster, 0, 0⟩ else foundOf g disk o) := by
  rw [pathOutcome]
  by_cases hp : path.head? ≠ some slash
  · rw [if_pos hp, if_pos hp]
  · rw [if_neg hp, if_neg hp]
    have hresolve := h.resolveOutcome_eq hg hfuel (path.length + 1) path none (by omega)
      Live.root (Or.inr rfl) (fun _ => h.root)
    rw [foundOf] at hresolve
    rw [hresolve]
    cases walkPath g disk chains (path.length + 1) path none <;> rfl

/-- What `fs_open` opens: the file of a live entry. -/
theorem TreeOk.openOutcome_ok (hg : Geometry g) (h : TreeOk g disk chains) {fuel : ℕ}
    (hfuel : g.clusterCount.toNat < fuel) {path : List UInt8} {mode : UInt8} {file : FSFile}
    (ho : openOutcome g disk fuel path mode = .ok file) :
    ∃ d, Live g disk chains (some d) ∧ (entryAt g disk d).isDirectory = false ∧
      (mode &&& fsOpenWrite ≠ 0 → (entryAt g disk d).attr &&& fsAttrReadOnly = 0) ∧
      walkPath g disk chains (path.length + 1) path none = some (some d) ∧
      file = openedFile (foundAt g disk d) mode := by
  have hroot : ∀ c, (directoryEntry c).isDirectory = true := fun c => by
    simp [FATDirEntry.isDirectory, directoryEntry, fsAttrDirectory]
  rw [openOutcome, h.pathOutcome_eq hg hfuel] at ho
  split at ho
  · simp at ho
  · split at ho
    · simp at ho
    · by_cases hp : path.head? ≠ some slash
      · simp [if_pos hp] at ho
      · rw [if_neg hp] at ho
        cases hw : walkPath g disk chains (path.length + 1) path none with
        | none => simp [hw] at ho
        | some o =>
          simp only [hw] at ho
          by_cases hl : path.length = 1
          · simp [hl, hroot] at ho
          · cases o with
            | none => simp [hl, foundOf, hroot] at ho
            | some d =>
              have hlive := walkPath_live _ Live.root (Or.inr rfl) hw
              simp only [if_neg hl, foundOf, foundAt] at ho
              split at ho
              · simp at ho
              · split at ho
                · simp at ho
                · rename_i hdir hwrite
                  refine ⟨d, hlive, by simpa using hdir, ?_, rfl, ?_⟩
                  · intro hm
                    by_contra hro
                    exact hwrite ⟨hm, hro⟩
                  · simpa [foundAt] using ho.symm

/-- `fs_open` returns. -/
theorem TreeOk.openOutcome_returns (hg : Geometry g) (h : TreeOk g disk chains) {fuel : ℕ}
    (hfuel : g.clusterCount.toNat < fuel) (path : List UInt8) (mode : UInt8) :
    openOutcome g disk fuel path mode ≠ .spin := by
  rw [openOutcome, h.pathOutcome_eq hg hfuel]
  cases walkPath g disk chains (path.length + 1) path none with
  | none => split_ifs <;> simp
  | some o => split_ifs <;> simp <;> split_ifs <;> simp

end Paths

section Changes

/-- Two volumes with the same directories, as far as names, attributes and chains go. -/
structure SameTree (g : FSMount) (disk disk' : Memory) (chains chains' : Owner → List UInt32) :
    Prop where
  chain : ∀ o, Live g disk chains o → isDir g disk o = true → chains' o = chains o
  entry : ∀ o, Live g disk chains o → isDir g disk o = true → ∀ d ∈ slots g (chains o),
    (entryAt g disk' d).name = (entryAt g disk d).name ∧
      (entryAt g disk' d).attr = (entryAt g disk d).attr

lemma mem_liveSlots {l : List UInt32} {d : Slot} (h : d ∈ liveSlots g disk l) : d ∈ slots g l :=
  (List.takeWhile_sublist _).mem (List.mem_of_mem_filter h)

lemma Live.slot {d : Slot} (hd : Live g disk chains (some d)) :
    ∃ o, Live g disk chains o ∧ isDir g disk o = true ∧ d ∈ slots g (chains o) := by
  cases hd with
  | entry ho hdir hd _ => exact ⟨_, ho, hdir, mem_liveSlots hd⟩

lemma takeWhile_congr {α : Type} {p q : α → Bool} {l : List α} (h : ∀ x ∈ l, p x = q x) :
    l.takeWhile p = l.takeWhile q := by
  induction l with
  | nil => rfl
  | cons x l ih =>
    have hx := h x (by simp)
    have hl := ih (fun y hy => h y (by simp [hy]))
    simp only [List.takeWhile_cons, hx, hl]

lemma liveSlots_congr {l : List UInt32}
    (h : ∀ d ∈ slots g l, (entryAt g disk' d).name = (entryAt g disk d).name ∧
      (entryAt g disk' d).attr = (entryAt g disk d).attr) :
    liveSlots g disk' l = liveSlots g disk l := by
  have hmark : ∀ d ∈ slots g l, (entryAt g disk' d).mark = (entryAt g disk d).mark := by
    intro d hd
    rw [FATDirEntry.mark, FATDirEntry.mark, (h d hd).1]
  rw [liveSlots, liveSlots, takeWhile_congr (fun d hd => by rw [hmark d hd])]
  apply List.filter_congr
  intro d hd
  have hd' := (List.takeWhile_sublist _).mem hd
  rw [FATDirEntry.skipped, FATDirEntry.skipped, hmark d hd', (h d hd').2]

lemma isDot_congr {e e' : FATDirEntry} (h : e'.name = e.name) : e'.isDot = e.isDot := by
  rw [FATDirEntry.isDot, FATDirEntry.isDot, h]

namespace SameTree

variable (h : SameTree g disk disk' chains chains')

include h

lemma slot {d : Slot} (hd : Live g disk chains (some d)) :
    (entryAt g disk' d).name = (entryAt g disk d).name ∧
      (entryAt g disk' d).attr = (entryAt g disk d).attr := by
  cases hd with
  | entry ho hdir hd _ => exact h.entry _ ho hdir _ (mem_liveSlots hd)

lemma isDir {o : Owner} (ho : Live g disk chains o) : isDir g disk' o = isDir g disk o := by
  cases o with
  | none => rfl
  | some d =>
    have hd := h.slot ho
    rw [Fat32.isDir, Fat32.isDir, FATDirEntry.isDirectory, FATDirEntry.isDirectory, hd.2]

lemma liveSlots {o : Owner} (ho : Live g disk chains o) (hdir : Fat32.isDir g disk o = true) :
    liveSlots g disk' (chains' o) = liveSlots g disk (chains o) := by
  rw [h.chain o ho hdir]
  exact liveSlots_congr (h.entry o ho hdir)

/-- The same entries are live. -/
theorem live (o : Owner) : Live g disk' chains' o ↔ Live g disk chains o := by
  constructor
  · intro ho
    induction ho with
    | root => exact Live.root
    | entry _ hdir hd hdot ih =>
      rw [h.isDir ih] at hdir
      rw [h.liveSlots ih hdir] at hd
      have hsame := h.entry _ ih hdir _ (mem_liveSlots hd)
      rw [isDot_congr hsame.1] at hdot
      exact Live.entry ih hdir hd hdot
  · intro ho
    induction ho with
    | root => exact Live.root
    | entry ho hdir hd hdot ih =>
      have hsame := h.entry _ ho hdir _ (mem_liveSlots hd)
      rw [← h.isDir ho] at hdir
      rw [← h.liveSlots ho (h.isDir ho ▸ hdir)] at hd
      rw [← isDot_congr hsame.1] at hdot
      exact Live.entry ih hdir hd hdot

lemma lookup {o : Owner} (ho : Live g disk chains o) (hdir : Fat32.isDir g disk o = true)
    (name : List UInt8) :
    lookup g disk' (chains' o) name = lookup g disk (chains o) name := by
  rw [Fat32.lookup, Fat32.lookup, h.liveSlots ho hdir]
  apply List.find?_congr
  intro d hd
  rw [(h.entry o ho hdir d (mem_liveSlots hd)).1]

/-- Paths lead to the same owners. -/
theorem walkPath (n : ℕ) {cursor : List UInt8} {o : Owner} (ho : Live g disk chains o)
    (hp : Passable g disk cursor o) :
    walkPath g disk' chains' n cursor o = walkPath g disk chains n cursor o := by
  induction n generalizing cursor o with
  | zero => rfl
  | succ n ih =>
    rw [Fat32.walkPath, Fat32.walkPath]
    cases hnext : nextComponent cursor 32 with
    | none => rfl
    | some r =>
      have hdir : Fat32.isDir g disk o = true := hp.resolve_left (by simp [hnext])
      simp only [h.lookup ho hdir]
      cases hl : Fat32.lookup g disk (chains o) (fatNameFromPathComponent r.1) with
      | none => rfl
      | some d =>
        have hlive := lookup_live ho hdir hl
        have hsame := h.isDir hlive
        simp only [Fat32.isDir] at hsame
        simp only [hsame]
        by_cases hc : r.2 ≠ [] ∧ (entryAt g disk d).isDirectory = false
        · rw [if_pos hc, if_pos hc]
        · rw [if_neg hc, if_neg hc]
          exact ih hlive (passable_of_not hc)

/-- Changes compose. -/
theorem trans {disk'' : Memory} {chains'' : Owner → List UInt32}
    (h' : SameTree g disk' disk'' chains' chains'') : SameTree g disk disk'' chains chains'' where
  chain o ho hdir := by
    rw [h'.chain o ((h.live o).mpr ho) (h.isDir ho ▸ hdir), h.chain o ho hdir]
  entry o ho hdir d hd := by
    have hfirst := h.entry o ho hdir d hd
    have hsecond := h'.entry o ((h.live o).mpr ho) (h.isDir ho ▸ hdir) d (h.chain o ho hdir ▸ hd)
    exact ⟨hsecond.1.trans hfirst.1, hsecond.2.trans hfirst.2⟩

end SameTree

lemma SameTree.refl (g : FSMount) (disk : Memory) (chains : Owner → List UInt32) :
    SameTree g disk disk chains chains :=
  ⟨fun _ _ _ => rfl, fun _ _ _ _ _ => ⟨rfl, rfl⟩⟩

end Changes

end SBoy28.Fat32
