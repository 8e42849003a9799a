import SBoy28.Fat32.Validation
import SBoy28.Lib.Words
import Mathlib.Data.List.DropRight

/-!
# The components of a path

`resolve_path` takes a path apart with a buffer of 32 bytes. A longer name is taken in pieces, and a
path that only consists of slashes is the root directory for it only if it has a single one.
-/

namespace SBoy28.Fat32
open Lib

variable {g : FSMount} {path path' : List UInt8} {comps : List (List UInt8)}

section Tokens

/-- The components that the loop of `resolve_path` takes from a path in at most `n` turns. -/
def components : ℕ → List UInt8 → Option (List (List UInt8))
  | 0, _ => none
  | n + 1, cursor =>
    match nextComponent cursor 32 with
    | none => some []
    | some (comp, cursor) => (components n cursor).map (comp :: ·)

lemma nextComponent_eq (path : List UInt8) : nextComponent path 32 = cutWord slash 31 path := by
  rw [nextComponent, cutWord]
  cases path.dropWhile (· = slash) <;> rfl

lemma components_eq (n : ℕ) (path : List UInt8) : components n path = cutWords slash 31 n path := by
  induction n generalizing path with
  | zero => rfl
  | succ n ih =>
    rw [components, cutWords, nextComponent_eq]
    cases cutWord slash 31 path with
    | none => rfl
    | some r => simp only [ih]

/-- The loop ends, with each run of characters other than `/` as one component, cut to its first 31
characters. -/
def Tokenised (path : List UInt8) : Prop :=
  ∃ comps, (∀ n, path.length < n → components n path = some comps) ∧
    comps = (words slash path).map (List.take 31)

lemma short_of_tokenised (h : Tokenised path) : ∀ w ∈ words slash path, w.length ≤ 31 := by
  simp only [Tokenised, components_eq] at h
  exact (cutWords_iff (by decide) path).mp h

/-- A path is tokenised just if no name in it has more than 31 characters. -/
theorem tokenised_iff (path : List UInt8) : Tokenised path ↔ ∀ w ∈ words slash path, w.length ≤ 31 := by
  refine ⟨short_of_tokenised, fun h => ?_⟩
  simp only [Tokenised, components_eq]
  exact (cutWords_iff (by decide) path).mpr h

/-- A name of 32 characters is taken in two pieces. -/
theorem tokenised_long : ¬Tokenised (slash :: List.replicate 32 0x41) := by
  intro h
  have hword : words slash (slash :: List.replicate 32 0x41) = [List.replicate 32 0x41] := by
    rw [words_cons_sep, words_of_notMem (by decide) (by decide)]
  have hlen := short_of_tokenised h
  rw [hword] at hlen
  exact absurd (hlen _ (List.mem_singleton.mpr rfl)) (by decide)

lemma components_of_short (h : ∀ w ∈ words slash path, w.length ≤ 31) {n : ℕ} (hn : path.length < n) :
    components n path = some (words slash path) := by
  obtain ⟨ws, hws, -, hwords⟩ := cutWords_spec slash (show 0 < 31 by decide) path
  rw [components_eq, hws n hn, hwords h]

end Tokens

section Resolve

/-- The loop of `resolve_path` over components. -/
def resolveComponents (g : FSMount) (disk : Memory) (fuel : ℕ) :
    List (List UInt8) → UInt32 → Found → Outcome FSErr Found
  | [], _, current => .ok current
  | comp :: comps, cluster, _ =>
    match findOutcome g disk fuel cluster (fatNameFromPathComponent comp) with
    | .ok found =>
      if comps ≠ [] ∧ found.entry.isDirectory = false then .error .notFound
      else resolveComponents g disk fuel comps found.entry.firstCluster found
    | .error e => .error e
    | .spin => .spin

lemma nextComponent_cursor {comp cursor : List UInt8} (h : nextComponent path 32 = some (comp, cursor)) :
    cursor.dropWhile (· = slash) = cursor := by
  rw [nextComponent] at h
  split at h
  · cases h
  · obtain ⟨-, rfl⟩ := Prod.mk.inj (Option.some.inj h)
    exact List.dropWhile_idempotent _ _

lemma components_nil {n : ℕ} {cursor : List UInt8} (hcursor : cursor.dropWhile (· = slash) = cursor)
    (h : components n cursor = some comps) : comps = [] ↔ cursor = [] := by
  cases n with
  | zero => cases h
  | succ n =>
    rw [components, nextComponent, hcursor] at h
    cases cursor with
    | nil =>
      obtain rfl := Option.some.inj h
      simp
    | cons c cursor =>
      obtain ⟨rest, -, rfl⟩ := Option.map_eq_some_iff.mp h
      simp

lemma resolveOutcome_components (disk : Memory) (fuel : ℕ) {n : ℕ} {cursor : List UInt8} (cluster : UInt32)
    (current : Found) (h : components n cursor = some comps) :
    resolveOutcome g disk fuel n cursor cluster current = resolveComponents g disk fuel comps cluster current := by
  induction n generalizing cursor comps cluster current with
  | zero => cases h
  | succ n ih =>
    rw [components] at h
    rw [resolveOutcome]
    cases hnext : nextComponent cursor 32 with
    | none =>
      simp only [hnext, Option.some.injEq] at h
      subst h
      rfl
    | some r =>
      simp only [hnext, Option.map_eq_some_iff] at h
      obtain ⟨rest, hrest, rfl⟩ := h
      have hnil := components_nil (nextComponent_cursor hnext) hrest
      simp only [resolveComponents, ne_eq, hnil]
      cases findOutcome g disk fuel cluster (fatNameFromPathComponent r.1) with
      | ok found => simp only [ih _ _ hrest]
      | error e => rfl
      | spin => rfl

/-- What `resolve_path` does depends on the components and on whether the path is `/`. -/
theorem pathOutcome_components (disk : Memory) (fuel : ℕ) (hslash : path.head? = some slash)
    (hshort : ∀ w ∈ words slash path, w.length ≤ 31) : pathOutcome g disk fuel path =
      match resolveComponents g disk fuel (words slash path) g.bpb.rootCluster ⟨directoryEntry 0, 0, 0⟩ with
      | .ok found => .ok (if path.length = 1 then ⟨directoryEntry g.bpb.rootCluster, 0, 0⟩ else found)
      | .error e => .error e
      | .spin => .spin := by
  have hhead : ¬path.head? ≠ some slash := fun h => h hslash
  have hresolve := resolveOutcome_components (g := g) disk fuel g.bpb.rootCluster ⟨directoryEntry 0, 0, 0⟩
    (components_of_short hshort (Nat.lt_succ_self _))
  cases hfound : resolveComponents g disk fuel (words slash path) g.bpb.rootCluster ⟨directoryEntry 0, 0, 0⟩ with
  | ok found => simp only [pathOutcome, if_neg hhead, hresolve, hfound]
  | error e => simp only [pathOutcome, if_neg hhead, hresolve, hfound]
  | spin => simp only [pathOutcome, if_neg hhead, hresolve, hfound]

end Resolve

section Slashes

/-- The entry that `resolve_path` fills in. -/
def resolvedEntry (g : FSMount) (fuel : ℕ) (path : List UInt8) : Fs FATDirEntry := do
  let found ← resolvePath g fuel path
  return found.entry

/-- `resolve_path` gives the same return code and entry for both paths, and `fs_list_dir` the same
entries. -/
def Interchangeable (g : FSMount) (path path' : List UInt8) : Prop :=
  ∀ fuel s, (resolvedEntry g fuel path).run (handler g) s = (resolvedEntry g fuel path').run (handler g) s ∧
    ∀ maxEntries, (fsListDir g fuel path maxEntries).run (handler g) s =
      (fsListDir g fuel path' maxEntries).run (handler g) s

lemma interchangeable_of_outcome (hpath : ∀ disk fuel, pathOutcome g disk fuel path = pathOutcome g disk fuel path')
    (hlen : path.length = 1 ↔ path'.length = 1) : Interchangeable g path path' := by
  intro fuel s
  refine ⟨?_, fun maxEntries => ?_⟩
  · simp only [resolvedEntry, Program.run_bind, run_resolvePath, hpath]
  · simp only [run_fsListDir, listOutcome, hpath, hlen]

lemma length_eq_one (h : path.head? = some slash) : path.length = 1 ↔ path = [slash] := by
  cases path with
  | nil => cases h
  | cons c path =>
    obtain rfl : c = slash := Option.some.inj h
    simp

lemma directoryEntry_zero {cluster : UInt32} (h : directoryEntry cluster = directoryEntry 0) : cluster = 0 := by
  have hhi := congrArg (fun e => e.fstClusHi.toNat) h
  have hlo := congrArg (fun e => e.fstClusLo.toNat) h
  have hlt := cluster.toNat_lt
  simp [directoryEntry, Nat.shiftRight_eq_div_pow] at hhi hlo
  apply UInt32.toNat_inj.mp
  rw [UInt32.toNat_zero]
  omega

/-- Of a path of slashes `resolve_path` makes the root directory, or an entry without a cluster. -/
lemma run_resolvedEntry_slashes (fuel : ℕ) (s : State) (hp : path.head? = some slash) (hw : words slash path = []) :
    (resolvedEntry g fuel path).run (handler g) s =
      (.ok (directoryEntry (if path = [slash] then g.bpb.rootCluster else 0)), s) := by
  have hout : pathOutcome g s.disk fuel path = _ := pathOutcome_components s.disk fuel hp (by simp [hw])
  rw [hw, resolveComponents] at hout
  simp only [length_eq_one hp] at hout
  simp only [resolvedEntry, Program.run_bind, run_resolvePath, hout]
  split_ifs <;> rfl

lemma not_interchangeable (hroot : g.bpb.rootCluster ≠ 0) (hp : path.head? = some slash) (hw : words slash path = [])
    (hne : path ≠ [slash]) : ¬Interchangeable g [slash] path := by
  intro h
  have hentry := (h 0 ⟨fun _ => 0, ⟨0, 0, 0, 0, 0, 0, false⟩⟩).1
  rw [run_resolvedEntry_slashes _ _ rfl (by simp), run_resolvedEntry_slashes _ _ hp hw, if_pos rfl,
    if_neg hne] at hentry
  simp only [Prod.mk.injEq, Outcome.ok.injEq, and_true] at hentry
  exact hroot (directoryEntry_zero hentry)

lemma Interchangeable.symm (h : Interchangeable g path path') : Interchangeable g path' path :=
  fun fuel s => ⟨(h fuel s).1.symm, fun maxEntries => ((h fuel s).2 maxEntries).symm⟩

/-- Redundant slashes do not matter, unless they are all there is and just one of the paths is `/`. -/
theorem interchangeable_iff {g₀ : FSMount} {device : FSBlockDevice} {contents : Memory}
    (hm : fsMountFat32 g₀ device contents = (.ok (), g)) (hp : path.head? = some slash)
    (hp' : path'.head? = some slash) (hsame : words slash path = words slash path')
    (hshort : ∀ w ∈ words slash path, w.length ≤ 31) :
    Interchangeable g path path' ↔ words slash path ≠ [] ∨ (path = [slash] ↔ path' = [slash]) := by
  have hroot : g.bpb.rootCluster ≠ 0 := by
    intro h0
    have htwo := rootCluster_of_mounted hm
    rw [h0] at htwo
    exact absurd htwo (by decide)
  constructor
  · intro h
    by_contra hc
    simp only [not_or, ne_eq, not_not] at hc
    obtain ⟨hw, hone⟩ := hc
    by_cases hps : path = [slash]
    · subst hps
      exact not_interchangeable hroot hp' (hsame ▸ hw) (fun he => hone (by simp [he])) h
    · by_cases hps' : path' = [slash]
      · subst hps'
        exact not_interchangeable hroot hp hw hps h.symm
      · exact hone (by simp [hps, hps'])
  · intro hc
    have hlen : path.length = 1 ↔ path'.length = 1 := by
      rw [length_eq_one hp, length_eq_one hp']
      rcases hc with hne | hiff
      · constructor
        · rintro rfl
          simp at hne
        · rintro rfl
          rw [hsame] at hne
          simp at hne
      · exact hiff
    refine interchangeable_of_outcome (fun disk fuel => ?_) hlen
    rw [pathOutcome_components disk fuel hp hshort, pathOutcome_components disk fuel hp' (hsame ▸ hshort), hsame]
    simp only [hlen]

theorem interchangeable_iff_formatted :
    Interchangeable formattedMount [slash, slash, 0x41] [slash, 0x41, slash] :=
  (interchangeable_iff formatted_mounted rfl rfl (by rfl) (by decide)).mpr (Or.inl (by decide))

/-- `//` is not the root directory. -/
theorem interchangeable_double : ¬∀ path path', path.head? = some slash → path'.head? = some slash →
    words slash path = words slash path' → (∀ w ∈ words slash path, w.length ≤ 31) →
      Interchangeable formattedMount path path' := by
  intro h
  have hroot : formattedMount.bpb.rootCluster ≠ 0 := by decide
  have hsame := h [slash] [slash, slash] rfl rfl (by simp) (by simp)
  exact not_interchangeable hroot rfl (by simp) (by decide) hsame

end Slashes

end SBoy28.Fat32
