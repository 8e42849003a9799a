import SBoy28.Fat32.Codec

/-!
# Short names and paths

A short name is written into a path and read back, in any letter case, and a path of short names
leads from directory to directory.
-/

namespace SBoy28.Fat32
open Lib

variable {g : FSMount} {disk : Memory} {chains : Owner → List UInt32} {o : Owner}
  {comp rest : List UInt8} {comps : List (List UInt8)}

/-- A name of at most eight bytes with an extension of at most three. -/
structure ShortName where
  base : List UInt8
  ext : List UInt8
  base_ne : base ≠ []
  base_le : base.length ≤ 8
  ext_le : ext.length ≤ 3
  base_byte : ∀ b ∈ base, NameByte b
  ext_byte : ∀ b ∈ ext, NameByte b
  head : base.head? ≠ some 0xE5

/-- The 11 bytes of the name in a directory entry. -/
def ShortName.raw (n : ShortName) : List UInt8 := padded 8 n.base ++ padded 3 n.ext

/-- The name as it is listed. -/
def ShortName.text (n : ShortName) : List UInt8 := n.base ++ if n.ext = [] then [] else dot :: n.ext

/-- A path component that spells the name, in any letter case. -/
def ShortName.Spells (n : ShortName) (comp : List UInt8) : Prop := comp.map toUpper = n.text

section Codec

namespace ShortName

/-- Without the condition on its first byte. -/
def canonical (n : ShortName) : CanonicalName where
  base := n.base
  ext := n.ext
  base_ne := n.base_ne
  base_le := n.base_le
  ext_le := n.ext_le
  base_byte := n.base_byte
  ext_byte := n.ext_byte

/-- `decode_short_name`. -/
theorem decode (n : ShortName) : decodeShortName n.raw = n.text := n.canonical.decode

variable {n : ShortName}

lemma Spells.canonical (h : n.Spells comp) : n.canonical.Spells comp := h

/-- `fat_name_from_path_component` undoes `decode_short_name`, in any letter case. -/
theorem Spells.encode (h : n.Spells comp) : fatNameFromPathComponent comp = n.raw := h.canonical.encode

end ShortName

end Codec

section Paths

/-- Components, each after a slash. -/
def joined (comps : List (List UInt8)) : List UInt8 := comps.flatMap (slash :: ·)

/-- The path of a directory: the root, or its components, each after a slash. -/
def dirPath (comps : List (List UInt8)) : List UInt8 := if comps = [] then [slash] else joined comps

/-- A component as `next_component` reads it whole. -/
structure IsComponent (comp : List UInt8) : Prop where
  ne : comp ≠ []
  slash : slash ∉ comp
  length : comp.length ≤ 31

lemma ShortName.Spells.isComponent {n : ShortName} (h : n.Spells comp) : IsComponent comp where
  ne := h.canonical.length.1
  slash hs := (h.canonical.bytes hs).1 rfl
  length := Nat.le_trans h.canonical.length.2 (by omega)

/-- The owner that components lead to from another one. -/
def walkNames (g : FSMount) (disk : Memory) (chains : Owner → List UInt32) :
    List (List UInt8) → Owner → Option Owner
  | [], o => some o
  | comp :: comps, o =>
    match lookup g disk (chains o) (fatNameFromPathComponent comp) with
    | none => none
    | some d =>
      if comps ≠ [] ∧ (entryAt g disk d).isDirectory = false then none
      else walkNames g disk chains comps (some d)

lemma nextComponent_append (hc : IsComponent comp) (hr : ∀ c ∈ rest.head?, c = slash) :
    nextComponent (comp ++ rest) 32 = some (comp, rest.dropWhile (· = slash)) := by
  obtain ⟨c, l, rfl⟩ := List.exists_cons_of_ne_nil hc.ne
  have hfirst : c ≠ slash := fun he => hc.slash (by simp [he])
  have hdrop : (c :: l ++ rest).dropWhile (· = slash) = c :: l ++ rest := by simp [hfirst]
  have htake : (c :: l ++ rest).takeWhile (· ≠ slash) = c :: l := by
    rw [List.takeWhile_append_of_pos]
    · cases rest with
      | nil => simp
      | cons b rest => simp [hr b rfl]
    · intro b hb
      have hne : b ≠ slash := fun he => hc.slash (he ▸ hb)
      simpa using hne
  have hlen : (c :: l).take 31 = c :: l := List.take_of_length_le hc.length
  rw [nextComponent, hdrop]
  simp only [List.cons_append, Nat.reduceSub] at htake hlen ⊢
  rw [htake, hlen]
  simp

lemma walkPath_dropWhile (n : ℕ) (cursor : List UInt8) (o : Owner) :
    walkPath g disk chains n (cursor.dropWhile (· = slash)) o = walkPath g disk chains n cursor o := by
  cases n with
  | zero => rfl
  | succ n => simp only [walkPath, nextComponent, List.dropWhile_idempotent]

lemma joined_cons : joined (comp :: comps) = slash :: (comp ++ joined comps) := by
  simp [joined]

lemma joined_head : ∀ c ∈ (joined comps).head?, c = slash := by
  intro c hc
  cases comps with
  | nil => simp [joined] at hc
  | cons comp comps =>
    rw [joined_cons] at hc
    simpa using hc.symm

lemma joined_dropWhile (hc : ∀ comp ∈ comps, IsComponent comp) :
    (joined comps).dropWhile (· = slash) = [] ↔ comps = [] := by
  cases comps with
  | nil => simp [joined]
  | cons comp comps =>
    have hcomp := hc comp (by simp)
    obtain ⟨c, l, rfl⟩ := List.exists_cons_of_ne_nil hcomp.ne
    have hfirst : c ≠ slash := fun he => hcomp.slash (by simp [he])
    simp [joined_cons, hfirst]

lemma walkPath_joined (n : ℕ) (hn : comps.length < n) (hc : ∀ comp ∈ comps, IsComponent comp) (o : Owner) :
    walkPath g disk chains n (joined comps) o = walkNames g disk chains comps o := by
  induction comps generalizing n o with
  | nil =>
    obtain ⟨n, rfl⟩ : ∃ m, n = m + 1 := ⟨n - 1, by omega⟩
    rfl
  | cons comp comps ih =>
    obtain ⟨n, rfl⟩ : ∃ m, n = m + 1 := ⟨n - 1, by omega⟩
    have hrest : ∀ c ∈ comps, IsComponent c := fun c hm => hc c (by simp [hm])
    have hnext : nextComponent (comp ++ joined comps) 32 = some (comp, _) :=
      nextComponent_append (hc comp (by simp)) joined_head
    have hskip : walkPath g disk chains (n + 1) (slash :: (comp ++ joined comps)) o =
        walkPath g disk chains (n + 1) (comp ++ joined comps) o := by
      rw [← walkPath_dropWhile, List.dropWhile_cons_of_pos (by simp), walkPath_dropWhile]
    rw [joined_cons, hskip, walkPath, hnext, walkNames]
    simp only [ne_eq, joined_dropWhile hrest, walkPath_dropWhile]
    cases lookup g disk (chains o) (fatNameFromPathComponent comp) with
    | none => rfl
    | some d =>
      simp only [ih n (by simpa using hn) hrest]

lemma walkNames_append (hdir : isDir g disk o = true) :
    walkNames g disk chains (comps ++ [comp]) o =
      match walkNames g disk chains comps o with
      | none => none
      | some o' =>
        if isDir g disk o' = false then none
        else (lookup g disk (chains o') (fatNameFromPathComponent comp)).map some := by
  induction comps generalizing o with
  | nil =>
    simp only [List.nil_append, walkNames, hdir]
    cases lookup g disk (chains o) (fatNameFromPathComponent comp) <;> simp
  | cons first comps ih =>
    simp only [List.cons_append, walkNames]
    cases lookup g disk (chains o) (fatNameFromPathComponent first) with
    | none => rfl
    | some d =>
      by_cases hd : (entryAt g disk d).isDirectory = true
      · have ih := ih (o := some d) hd
        simp [hd, ih]
      · have hd : (entryAt g disk d).isDirectory = false := by simpa using hd
        cases comps with
        | nil => simp [hd, walkNames, isDir]
        | cons second comps => simp [hd]

end Paths

end SBoy28.Fat32
