import Mathlib.Data.List.DropRight
import SBoy28.Fat32.Tree
import SBoy28.Lib.Stores

/-!
# Short names

The eight and three bytes of a name are read as the name with a dot in it, and a name with a dot in it is taken
apart again. Neither of the two writes behind its array.
-/

namespace SBoy28.Fat32
open Lib

variable {comp rest : List UInt8}

/-- A byte of a short name. -/
structure NameByte (b : UInt8) : Prop where
  nul : b ≠ 0
  space : b ≠ space
  dot : b ≠ dot
  slash : b ≠ slash
  upper : ¬(0x61 ≤ b ∧ b ≤ 0x7A)

/-- A name of at most eight bytes with an extension of at most three. -/
structure CanonicalName where
  base : List UInt8
  ext : List UInt8
  base_ne : base ≠ []
  base_le : base.length ≤ 8
  ext_le : ext.length ≤ 3
  base_byte : ∀ b ∈ base, NameByte b
  ext_byte : ∀ b ∈ ext, NameByte b

/-- Each part is padded with spaces at its end. -/
def CanonicalName.raw (n : CanonicalName) : List UInt8 := padded 8 n.base ++ padded 3 n.ext

def CanonicalName.text (n : CanonicalName) : List UInt8 := n.base ++ if n.ext = [] then [] else dot :: n.ext

/-- A component that is the name, in any letter case. -/
def CanonicalName.Spells (n : CanonicalName) (comp : List UInt8) : Prop := comp.map toUpper = n.text

/-- A byte of a name in any letter case. -/
structure ComponentByte (b : UInt8) : Prop where
  nul : b ≠ 0
  space : b ≠ space
  dot : b ≠ dot
  slash : b ≠ slash

/-- A component `b` or `b.e` of a path. -/
structure Component where
  base : List UInt8
  ext : List UInt8
  base_ne : base ≠ []
  base_le : base.length ≤ 8
  ext_le : ext.length ≤ 3
  base_byte : ∀ b ∈ base, ComponentByte b
  ext_byte : ∀ b ∈ ext, ComponentByte b

def Component.text (c : Component) : List UInt8 := c.base ++ if c.ext = [] then [] else dot :: c.ext

section Codec

lemma toUpper_eq_slash {c : UInt8} (h : c = slash) : toUpper c = slash := by
  rw [h]
  rfl

lemma takeUpper_append {stop : List UInt8} (n : ℕ) (hc : ∀ c ∈ comp, c ∉ stop) (hn : comp.length ≤ n)
    (hr : comp.length = n ∨ ∀ c ∈ rest.head?, c ∈ stop) :
    takeUpper stop n (comp ++ rest) = (comp.map toUpper, rest) := by
  induction comp generalizing n with
  | nil =>
    cases n with
    | zero => rfl
    | succ n =>
      have hstop := hr.resolve_left (by simp)
      cases rest with
      | nil => rfl
      | cons c rest => simp [takeUpper, hstop c rfl]
  | cons c comp ih =>
    cases n with
    | zero => simp at hn
    | succ n =>
      have hcc := hc c (by simp)
      have ih := ih n (fun b hb => hc b (by simp [hb])) (by simpa using hn) (by simpa using hr)
      simp [takeUpper, hcc, ih]

lemma takeWhile_padded {l : List UInt8} (n : ℕ) (h : ∀ b ∈ l, NameByte b) :
    (padded n l).takeWhile (· ≠ space) = l := by
  rw [padded, List.takeWhile_append_of_pos (fun b hb => by simpa using (h b hb).space)]
  cases n - l.length <;> simp [List.replicate_succ]

lemma padded_length {l : List UInt8} {n : ℕ} (h : l.length ≤ n) : (padded n l).length = n := by
  simp [padded]
  omega

namespace CanonicalName

variable (n : CanonicalName)

/-- `decode_short_name`. -/
theorem decode : decodeShortName n.raw = n.text := by
  have hlen := padded_length n.base_le
  have hbase : n.raw.take 8 = padded 8 n.base := by
    rw [raw, List.take_left' hlen]
  have hext : n.raw.drop 8 = padded 3 n.ext := by
    rw [raw, List.drop_left' hlen]
  rw [decodeShortName, hbase, hext, takeWhile_padded _ n.base_byte, takeWhile_padded _ n.ext_byte, text]
  congr 1
  cases he : n.ext with
  | nil => rfl
  | cons b l =>
    have hb := (n.ext_byte b (by simp [he])).space
    simp [padded, hb]

variable {n}

lemma Spells.bytes (h : n.Spells comp) {c : UInt8} (hc : c ∈ comp) : c ≠ slash ∧ toUpper c ∈ n.text := by
  have hmem : toUpper c ∈ n.text := by
    rw [← h]
    exact List.mem_map_of_mem hc
  refine ⟨?_, hmem⟩
  intro he
  rw [toUpper_eq_slash he, text, List.mem_append] at hmem
  rcases hmem with hb | hb
  · exact (n.base_byte _ hb).slash rfl
  · split at hb
    · cases hb
    · rcases List.mem_cons.mp hb with hd | hb
      · exact absurd hd (by decide)
      · exact (n.ext_byte _ hb).slash rfl

lemma Spells.split (h : n.Spells comp) :
    ∃ base rest, comp = base ++ rest ∧ base.map toUpper = n.base ∧
      ((n.ext = [] ∧ rest = []) ∨ ∃ ext, rest = dot :: ext ∧ ext.map toUpper = n.ext) := by
  obtain ⟨base, rest, hcomp, hbase, hrest⟩ := List.map_eq_append_iff.mp h
  refine ⟨base, rest, hcomp, hbase, ?_⟩
  by_cases he : n.ext = []
  · rw [if_pos he, List.map_eq_nil_iff] at hrest
    exact Or.inl ⟨he, hrest⟩
  · rw [if_neg he, List.map_eq_cons_iff] at hrest
    obtain ⟨d, ext, rfl, hd, hext⟩ := hrest
    have hdot : d = dot := by
      by_contra hne
      exact toUpper_ne_dot hne hd
    exact Or.inr ⟨ext, by rw [hdot], hext⟩

lemma not_stop {l m : List UInt8} (hm : ∀ b ∈ m, NameByte b) (hl : l.map toUpper = m) {c : UInt8}
    (hc : c ∈ l) : c ∉ [slash, dot] := by
  have hb := hm (toUpper c) (by rw [← hl]; exact List.mem_map_of_mem hc)
  intro hs
  rcases List.mem_cons.mp hs with rfl | hs
  · exact hb.slash rfl
  · rw [List.mem_singleton] at hs
    subst hs
    exact hb.dot rfl

/-- `fat_name_from_path_component` undoes `decode_short_name`, in any letter case. -/
theorem Spells.encode (h : n.Spells comp) : fatNameFromPathComponent comp = n.raw := by
  obtain ⟨base, rest, rfl, hbase, hrest⟩ := h.split
  have hlen : base.length = n.base.length := by rw [← hbase, List.length_map]
  have htake : takeUpper [slash, dot] 8 (base ++ rest) = (n.base, rest) := by
    rw [takeUpper_append 8 (fun c hc => not_stop n.base_byte hbase hc) (by rw [hlen]; exact n.base_le),
      hbase]
    right
    intro c hc
    rcases hrest with ⟨-, rfl⟩ | ⟨ext, rfl, -⟩
    · cases hc
    · have hd : dot = c := by simpa using hc
      simp [← hd]
  rw [fatNameFromPathComponent, htake, raw]
  rcases hrest with ⟨hext, rfl⟩ | ⟨ext, rfl, hext⟩
  · simp [hext]
  · have hlen' : ext.length = n.ext.length := by rw [← hext, List.length_map]
    have htake' : takeUpper [slash] 3 (ext ++ []) = (n.ext, []) := by
      rw [takeUpper_append 3 _ (by rw [hlen']; exact n.ext_le) (Or.inr (by simp)), hext]
      intro c hc hs
      exact not_stop n.ext_byte hext hc (by simpa using Or.inl (by simpa using hs))
    rw [List.append_nil] at htake'
    simp [htake']

lemma Spells.length (h : n.Spells comp) : comp ≠ [] ∧ comp.length ≤ 12 := by
  obtain ⟨base, rest, rfl, hbase, hrest⟩ := h.split
  have hlen : base.length = n.base.length := by rw [← hbase, List.length_map]
  have hne := n.base_ne
  have hle := n.base_le
  have hle' := n.ext_le
  constructor
  · rw [← hbase] at hne
    simp only [ne_eq, List.map_eq_nil_iff] at hne
    simp [hne]
  · rcases hrest with ⟨-, rfl⟩ | ⟨ext, rfl, hext⟩
    · simp
      omega
    · have hlen' : ext.length = n.ext.length := by rw [← hext, List.length_map]
      simp
      omega

end CanonicalName

end Codec

section Calls

/-- `for (; i < i + k && name[i] != ' '; ++i) out[n++] = name[i];`, with the last `n`. -/
def copyPart (name : ℕ → UInt8) : ℕ → ℕ → ℕ → ℕ × List (ℕ × UInt8)
  | 0, _, n => (n, [])
  | k + 1, i, n =>
    if name i ≠ space then
      let r := copyPart name k (i + 1) (n + 1)
      (r.1, (n, name i) :: r.2)
    else (n, [])

/-- The stores of `decode_short_name` into `out`. -/
def decodeStores (name : ℕ → UInt8) : List (ℕ × UInt8) :=
  let base := copyPart name 8 0 0
  if name 8 ≠ space then
    let ext := copyPart name 3 8 (base.1 + 1)
    base.2 ++ (base.1, dot) :: ext.2 ++ [(ext.1, 0)]
  else base.2 ++ [(base.1, 0)]

/-- A loop that writes a part in upper case, from index `idx` on and at most `k` bytes, with the rest of the
component. -/
def writePart (stop : List UInt8) : ℕ → ℕ → List UInt8 → List UInt8 × List (ℕ × UInt8)
  | k + 1, idx, c :: comp =>
    if c ∈ stop then (c :: comp, [])
    else
      let r := writePart stop k (idx + 1) comp
      (r.1, (idx, toUpper c) :: r.2)
  | _, _, comp => (comp, [])

/-- The stores of `fat_name_from_path_component` into `out_name`. -/
def encodeStores (comp : List UInt8) : List (ℕ × UInt8) :=
  let blanks := row 0 11 fun _ => space
  let base := writePart [slash, dot] 8 0 comp
  match base.1 with
  | c :: rest => if c = dot then blanks ++ base.2 ++ (writePart [slash] 3 8 rest).2 else blanks ++ base.2
  | [] => blanks ++ base.2

lemma copyPart_eq (name : ℕ → UInt8) (l : List UInt8) (i n : ℕ) (h : ∀ j < l.length, name (i + j) = l.getD j 0) :
    copyPart name l.length i n =
      (n + (l.takeWhile (· ≠ space)).length, rowOf n (l.takeWhile (· ≠ space))) := by
  induction l generalizing i n with
  | nil => rfl
  | cons c l ih =>
    have hc : name i = c := h 0 (by simp)
    have hrest : ∀ j < l.length, name (i + 1 + j) = l.getD j 0 := by
      intro j hj
      have hj' := h (j + 1) (by simpa using hj)
      rwa [List.getD_cons_succ, Nat.add_comm j, ← Nat.add_assoc] at hj'
    rw [List.length_cons, copyPart, hc]
    by_cases hspace : c = space
    · rw [if_neg (by simpa using hspace), List.takeWhile_cons_of_neg (by simpa using hspace)]
      rfl
    · rw [if_pos hspace, List.takeWhile_cons_of_pos (by simpa using hspace), ih (i + 1) (n + 1) hrest, rowOf,
        List.length_cons, Nat.add_right_comm, Nat.add_assoc]

/-- The listed name is written, with a NUL behind it. -/
theorem decodeStores_eq {name : List UInt8} (hname : name.length = 11) :
    decodeStores (fun i => name.getD i 0) = rowOf 0 (decodeShortName name ++ [0]) := by
  have hbase := copyPart_eq (fun i => name.getD i 0) (name.take 8) 0 0 fun j hj => by
    rw [List.length_take] at hj
    simp only [List.getD_eq_getElem?_getD, List.getElem?_take, Nat.zero_add]
    rw [if_pos (by omega)]
  have hext := fun n => copyPart_eq (fun i => name.getD i 0) (name.drop 8) 8 n fun j hj => by
    simp only [List.getD_eq_getElem?_getD, List.getElem?_drop]
  have hlength : (name.take 8).length = 8 ∧ (name.drop 8).length = 3 := by
    rw [List.length_take, List.length_drop]
    omega
  rw [hlength.1] at hbase
  simp only [hlength.2] at hext
  have hhead : (name.drop 8).head? = some (name.getD 8 0) := by
    rw [List.head?_drop, List.getD_eq_getElem?_getD, List.getElem?_eq_getElem (by omega)]
    rfl
  unfold decodeStores decodeShortName
  simp only [hbase, hext, hhead, Option.some.injEq, Nat.zero_add]
  by_cases hspace : name.getD 8 0 = space
  · simp only [hspace, ne_eq, not_true_eq_false, if_false, if_true, List.append_nil, rowOf_append, rowOf,
      Nat.zero_add]
  · simp only [hspace, ne_eq, not_false_eq_true, if_true, if_false, List.append_assoc, rowOf_append, rowOf,
      List.cons_append, Nat.zero_add]

lemma length_decodeShortName {name : List UInt8} (hname : name.length = 11) : (decodeShortName name).length ≤ 12 := by
  have hbase : ((name.take 8).takeWhile (· ≠ space)).length ≤ _ := (List.takeWhile_sublist _).length_le
  have hext : ((name.drop 8).takeWhile (· ≠ space)).length ≤ _ := (List.takeWhile_sublist _).length_le
  rw [List.length_take] at hbase
  rw [List.length_drop] at hext
  unfold decodeShortName
  rw [List.length_append]
  split
  · rw [List.length_nil]
    omega
  · rw [List.length_cons]
    omega

lemma writePart_eq (stop : List UInt8) (k idx : ℕ) (comp : List UInt8) :
    writePart stop k idx comp = ((takeUpper stop k comp).2, rowOf idx (takeUpper stop k comp).1) := by
  induction k generalizing idx comp with
  | zero => rfl
  | succ k ih =>
    cases comp with
    | nil => rfl
    | cons c comp =>
      unfold writePart takeUpper
      by_cases hc : c ∈ stop
      · rw [if_pos hc, if_pos hc]
        rfl
      · rw [if_neg hc, if_neg hc, ih, rowOf]

lemma length_takeUpper (stop : List UInt8) (k : ℕ) (comp : List UInt8) : (takeUpper stop k comp).1.length ≤ k := by
  induction k generalizing comp with
  | zero => exact Nat.le_refl 0
  | succ k ih =>
    cases comp with
    | nil => exact Nat.zero_le _
    | cons c comp =>
      unfold takeUpper
      split
      · exact Nat.zero_le _
      · have hrest := ih comp
        rw [List.length_cons]
        omega

lemma getD_padded (n : ℕ) (l : List UInt8) (i : ℕ) :
    (padded n l).getD i 0 = if i < l.length then l.getD i 0 else if i < n then space else 0 := by
  unfold padded
  by_cases hi : i < l.length
  · rw [if_pos hi, List.getD_append _ _ _ _ hi]
  · rw [if_neg hi, List.getD_append_right _ _ _ _ (by omega)]
    by_cases hn : i < n
    · rw [if_pos hn, List.getD_replicate _ (by omega)]
    · rw [if_neg hn, List.getD_eq_default _ _ (by rw [List.length_replicate]; omega)]

/-- A part over the spaces is the padded part. -/
lemma storeAll_parts (out : ℕ → UInt8) {base ext : List UInt8} (hbase : base.length ≤ 8) (hext : ext.length ≤ 3)
    (i : ℕ) :
    storeAll out (row 0 11 (fun _ => space) ++ rowOf 0 base ++ rowOf 8 ext) i =
      if i < 11 then (padded 8 base ++ padded 3 ext).getD i 0 else out i := by
  have hlength := padded_length hbase
  rw [storeAll_append, storeAll_append, storeAll_rowOf _ 8 ext 0, storeAll_rowOf _ 0 base 0, storeAll_row]
  by_cases hi : i < 8
  · rw [if_neg (by omega), if_pos (by omega : i < 11), List.getD_append _ _ _ _ (by omega), getD_padded, Nat.sub_zero]
    by_cases hb : i < base.length
    · rw [if_pos (by omega), if_pos hb]
    · rw [if_neg (by omega), if_pos (by omega), if_neg hb, if_pos hi]
  · by_cases hi' : i < 11
    · rw [if_pos hi', List.getD_append_right _ _ _ _ (by omega), getD_padded, hlength]
      by_cases he : i - 8 < ext.length
      · rw [if_pos (by omega), if_pos he]
      · rw [if_neg (by omega), if_neg (by omega), if_pos (by omega), if_neg he, if_pos (by omega)]
    · rw [if_neg (by omega), if_neg (by omega), if_neg (by omega), if_neg hi']

/-- The name is written into the eleven bytes, and nothing behind them. -/
theorem storeAll_encodeStores (out : ℕ → UInt8) (comp : List UInt8) (i : ℕ) :
    storeAll out (encodeStores comp) i =
      if i < 11 then (fatNameFromPathComponent comp).getD i 0 else out i := by
  have hbase := length_takeUpper [slash, dot] 8 comp
  have hnone := storeAll_parts out hbase (show ([] : List UInt8).length ≤ 3 from Nat.zero_le 3) i
  rw [rowOf, List.append_nil] at hnone
  unfold encodeStores fatNameFromPathComponent
  simp only [writePart_eq]
  cases (takeUpper [slash, dot] 8 comp).2 with
  | nil => exact hnone
  | cons c rest =>
    by_cases hc : c = dot
    · simp only [if_pos hc]
      exact storeAll_parts out hbase (length_takeUpper [slash] 3 rest) i
    · simp only [if_neg hc]
      exact hnone

end Calls

section RoundTrips

lemma toUpper_of_nameByte {b : UInt8} (h : NameByte b) : toUpper b = b := if_neg h.upper

lemma map_toUpper {l : List UInt8} (h : ∀ b ∈ l, NameByte b) : l.map toUpper = l := by
  conv_rhs => rw [← List.map_id' l]
  exact List.map_congr_left fun b hb => toUpper_of_nameByte (h b hb)

/-- The listed name is a spelling of the name. -/
lemma CanonicalName.spells_text (n : CanonicalName) : n.Spells n.text := by
  unfold Spells text
  rw [List.map_append, map_toUpper n.base_byte]
  split
  · rfl
  · rw [List.map_cons, map_toUpper n.ext_byte]
    rfl

/-- A letter is turned into another letter, and no letter is one of the excluded bytes. -/
lemma ComponentByte.upper {b : UInt8} (h : ComponentByte b) : NameByte (toUpper b) := by
  by_cases hletter : 0x61 ≤ b ∧ b ≤ 0x7A
  · have hlo : 0x61 ≤ b.toNat := UInt8.le_iff_toNat_le.mp hletter.1
    have hhi : b.toNat ≤ 0x7A := UInt8.le_iff_toNat_le.mp hletter.2
    have hval : (toUpper b).toNat = b.toNat - 0x20 := by
      rw [toUpper, if_pos hletter]
      exact UInt8.toNat_sub_of_le _ _ (UInt8.le_iff_toNat_le.mpr (Nat.le_trans (by decide) hlo))
    have hne : ∀ a : UInt8, a.toNat < 0x41 → toUpper b ≠ a := by
      rintro a ha rfl
      omega
    refine ⟨hne _ (by decide), hne _ (by decide), hne _ (by decide), hne _ (by decide), ?_⟩
    rintro ⟨hlow, -⟩
    have hlow' : 0x61 ≤ (toUpper b).toNat := UInt8.le_iff_toNat_le.mp hlow
    omega
  · have hsame : toUpper b = b := if_neg hletter
    rw [hsame]
    exact ⟨h.nul, h.space, h.dot, h.slash, hletter⟩

namespace Component

def upper (c : Component) : CanonicalName where
  base := c.base.map toUpper
  ext := c.ext.map toUpper
  base_ne := by simpa using c.base_ne
  base_le := by simpa using c.base_le
  ext_le := by simpa using c.ext_le
  base_byte := by
    intro b hb
    obtain ⟨a, ha, rfl⟩ := List.mem_map.mp hb
    exact (c.base_byte a ha).upper
  ext_byte := by
    intro b hb
    obtain ⟨a, ha, rfl⟩ := List.mem_map.mp hb
    exact (c.ext_byte a ha).upper

lemma upper_spells (c : Component) : c.upper.Spells c.text := by
  have hnil : c.upper.ext = [] ↔ c.ext = [] := List.map_eq_nil_iff
  unfold CanonicalName.Spells CanonicalName.text text
  rw [List.map_append]
  congr 1
  by_cases he : c.ext = []
  · rw [if_pos he, if_pos (hnil.mpr he), List.map_nil]
  · rw [if_neg he, if_neg fun h => he (hnil.mp h)]
    rfl

end Component

/-- Both ways around nothing is lost but the letter case, and eleven bytes never give more than thirteen. -/
theorem short_name_codec :
    (∀ n : CanonicalName, fatNameFromPathComponent (decodeShortName n.raw) = n.raw) ∧
      (∀ c : Component, decodeShortName (fatNameFromPathComponent c.text) = c.text.map toUpper) ∧
        (∀ (comp : List UInt8) (out : ℕ → UInt8) (i : ℕ), storeAll out (encodeStores comp) i =
          if i < 11 then (fatNameFromPathComponent comp).getD i 0 else out i) ∧
          ∀ name : List UInt8, name.length = 11 →
            decodeStores (fun i => name.getD i 0) = rowOf 0 (decodeShortName name ++ [0]) ∧
              Below 13 (decodeStores fun i => name.getD i 0) ∧
                (decodeStores fun i => name.getD i 0).length ≤ 13 := by
  refine ⟨?_, ?_, ?_, ?_⟩
  · intro n
    rw [n.decode, n.spells_text.encode]
  · intro c
    rw [c.upper_spells.encode, c.upper.decode, c.upper_spells]
  · exact fun comp out i => storeAll_encodeStores out comp i
  · intro name hname
    have hlength := length_decodeShortName hname
    rw [decodeStores_eq hname]
    refine ⟨rfl, below_rowOf ?_, ?_⟩
    · rw [List.length_append, List.length_singleton]
      omega
    · rw [length_rowOf, List.length_append, List.length_singleton]
      omega

end RoundTrips

end SBoy28.Fat32
