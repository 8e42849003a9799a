import SBoy28.Fat32.Names
import SBoy28.Fat32.Paths

/-!
# What a path opens

A path component is cut to the 11 bytes of a short name before it is looked up. A component that has
a short name of its own opens what it spells, and any other one opens what some other name spells.
-/

namespace SBoy28.Fat32
open Lib

variable {g : FSMount} {disk : Memory} {comp : List UInt8} {comps : List (List UInt8)} {c : UInt32} {d d' : Slot}
  {e e' : FATDirEntry} {name : List UInt8}

section ShortForms

/-- At most eight characters, and maybe a dot and one to three further characters, without spaces. -/
structure ShortForm (comp : List UInt8) : Prop where
  base : (comp.takeWhile (· ≠ dot)).length ≤ 8
  ext : (comp.dropWhile (· ≠ dot)).tail.length ≤ 3
  dotted : dot ∈ comp → (comp.dropWhile (· ≠ dot)).tail ≠ []
  space : space ∉ comp

lemma toUpper_eq_space {b : UInt8} : toUpper b = space ↔ b = space := by
  constructor
  · intro h
    rw [toUpper] at h
    split at h
    · rename_i hb
      have hlo := UInt8.le_iff_toNat_le.mp hb.1
      have hhi := UInt8.le_iff_toNat_le.mp hb.2
      have hsub := congrArg UInt8.toNat h
      simp only [UInt8.toNat_sub, space] at hsub hlo hhi
      simp at hsub hlo hhi
      omega
    · exact h
  · rintro rfl
    rfl

lemma takeWhile_toUpper (l : List UInt8) :
    (l.map toUpper).takeWhile (· ≠ space) = (l.takeWhile (· ≠ space)).map toUpper := by
  rw [List.takeWhile_map]
  congr 2
  funext b
  simp [toUpper_eq_space]

lemma takeWhile_padded_space (n : ℕ) (l : List UInt8) :
    (padded n l).takeWhile (· ≠ space) = l.takeWhile (· ≠ space) := by
  induction l generalizing n with
  | nil => cases n <;> simp [padded, List.replicate_succ]
  | cons b l ih =>
    have hcons : padded n (b :: l) = b :: padded (n - 1) l := by
      simp only [padded, List.length_cons, List.cons_append]
      rw [Nat.sub_sub, Nat.add_comm]
    by_cases hb : b = space
    · rw [hcons, hb]
      simp
    · rw [hcons, List.takeWhile_cons_of_pos (by simpa using hb), ih, List.takeWhile_cons_of_pos (by simpa using hb)]

lemma decode_parts {base ext : List UInt8} (hbase : base.length ≤ 8) (hext : ext.length ≤ 3) :
    decodeShortName (padded 8 base ++ padded 3 ext) = base.takeWhile (· ≠ space) ++
      if ext = [] ∨ ext.head? = some space then [] else dot :: ext.takeWhile (· ≠ space) := by
  have hlen := padded_length hbase
  rw [decodeShortName, List.take_left' hlen, List.drop_left' hlen, takeWhile_padded_space,
    takeWhile_padded_space]
  cases ext with
  | nil => simp [padded, List.replicate_succ]
  | cons b ext => simp [padded]

/-- The characters before the first dot of a component, and those from it on. -/
lemma split_dot (hslash : slash ∉ comp) : ∃ base after, comp = base ++ after ∧
    comp.takeWhile (· ≠ dot) = base ∧ comp.dropWhile (· ≠ dot) = after ∧ (∀ b ∈ base, b ∉ [slash, dot]) ∧
      (after = [] ∧ dot ∉ comp ∨ ∃ ext, after = dot :: ext ∧ slash ∉ ext ∧ dot ∈ comp) := by
  refine ⟨_, _, List.takeWhile_append_dropWhile.symm, rfl, rfl, ?_, ?_⟩
  · intro b hb
    have hne : b ≠ dot := by simpa using List.mem_takeWhile_imp hb
    have hslash' : b ≠ slash := fun he => hslash (he ▸ (List.takeWhile_prefix _).mem hb)
    simp [hne, hslash']
  · cases ha : comp.dropWhile (· ≠ dot) with
    | nil =>
      left
      refine ⟨rfl, fun hm => ?_⟩
      simpa using List.dropWhile_eq_nil_iff.mp ha dot hm
    | cons b ext =>
      right
      have hstop := List.head?_dropWhile_not (fun b => decide (b ≠ dot)) comp
      rw [ha] at hstop
      obtain rfl : b = dot := by simpa using hstop
      have hsub : ∀ x ∈ dot :: ext, x ∈ comp := by
        intro x hx
        rw [← ha] at hx
        exact (List.dropWhile_suffix _).mem hx
      exact ⟨ext, rfl, fun hs => hslash (hsub slash (List.mem_cons_of_mem _ hs)), hsub dot List.mem_cons_self⟩

/-- The 11 bytes of a component: the first eight characters before a dot, and the first three after
it unless the dot comes too late. -/
lemma fatName_parts {base after : List UInt8} (hbase : ∀ b ∈ base, b ∉ [slash, dot])
    (hafter : after = [] ∨ ∃ ext, after = dot :: ext ∧ slash ∉ ext) :
    fatNameFromPathComponent (base ++ after) = padded 8 ((base.take 8).map toUpper) ++
      padded 3 (if base.length ≤ 8 then (after.tail.take 3).map toUpper else []) := by
  have htake : takeUpper [slash, dot] 8 (base ++ after) = ((base.take 8).map toUpper, base.drop 8 ++ after) := by
    have hsplit : base ++ after = base.take 8 ++ (base.drop 8 ++ after) := by
      rw [← List.append_assoc, List.take_append_drop]
    rw [hsplit]
    refine takeUpper_append 8 (fun b hb => hbase b (List.mem_of_mem_take hb)) (List.length_take_le _ _) ?_
    by_cases hlen : 8 ≤ base.length
    · left
      rw [List.length_take, Nat.min_eq_left hlen]
    · right
      rw [List.drop_eq_nil_of_le (by omega), List.nil_append]
      rcases hafter with rfl | ⟨ext, rfl, -⟩
      · simp
      · simp
  rw [fatNameFromPathComponent, htake]
  congr 2
  by_cases hlen : base.length ≤ 8
  · rw [if_pos hlen, List.drop_eq_nil_of_le hlen, List.nil_append]
    rcases hafter with rfl | ⟨ext, rfl, hslash⟩
    · rfl
    · have hext : takeUpper [slash] 3 ext = ((ext.take 3).map toUpper, ext.drop 3) := by
        have htake3 : takeUpper [slash] 3 (ext.take 3 ++ ext.drop 3) = _ :=
          takeUpper_append 3 (fun b hb hs => hslash (List.mem_singleton.mp hs ▸ List.mem_of_mem_take hb))
            (List.length_take_le _ _) ?_
        · rwa [List.take_append_drop] at htake3
        · by_cases h3 : 3 ≤ ext.length
          · left
            rw [List.length_take, Nat.min_eq_left h3]
          · right
            rw [List.drop_eq_nil_of_le (by omega)]
            simp
      simp [hext]
  · rw [if_neg hlen]
    obtain ⟨b, rest, hdrop⟩ : ∃ b rest, base.drop 8 = b :: rest := by
      apply List.exists_cons_of_ne_nil
      rw [ne_eq, List.drop_eq_nil_iff]
      exact hlen
    have hb : b ≠ dot := by
      rintro rfl
      have hm : dot ∈ base := List.mem_of_mem_drop (hdrop ▸ List.mem_cons_self)
      exact hbase dot hm (by simp)
    simp [hdrop, hb]

lemma takeWhile_of_notMem {l : List UInt8} (h : space ∉ l) :
    (l.map toUpper).takeWhile (· ≠ space) = l.map toUpper := by
  rw [takeWhile_toUpper, List.takeWhile_eq_self_iff.mpr]
  intro b hb
  have hne : b ≠ space := fun he => h (he ▸ hb)
  simpa using hne

/-- A part is only listed whole if it is short and has no space. -/
lemma part_whole {l : List UInt8} {n : ℕ}
    (h : l.length ≤ (((l.take n).map toUpper).takeWhile (· ≠ space)).length) : l.length ≤ n ∧ space ∉ l := by
  rw [takeWhile_toUpper, List.length_map] at h
  have hprefix : (l.take n).takeWhile (· ≠ space) <+: l := (List.takeWhile_prefix _).trans (List.take_prefix n l)
  have hwhole := hprefix.eq_of_length_le h
  have hle := (List.takeWhile_prefix (· ≠ space) (l := l.take n)).length_le
  rw [hwhole, List.length_take] at hle
  refine ⟨by omega, fun hm => ?_⟩
  rw [← hwhole] at hm
  simpa using List.mem_takeWhile_imp hm

lemma listed_length_le (base : List UInt8) :
    (((base.take 8).map toUpper).takeWhile (· ≠ space)).length ≤ base.length ∧
      (((base.take 8).map toUpper).takeWhile (· ≠ space)).length ≤ 8 := by
  have hle := (List.takeWhile_prefix (· ≠ space) (l := (base.take 8).map toUpper)).length_le
  rw [List.length_map, List.length_take] at hle
  omega

/-- A name with an extension is listed as it is spelled just if both parts are. -/
lemma decode_dotted {base ext : List UInt8} (hshort : base.length ≤ 8) :
    (base ++ dot :: ext).map toUpper = (base.map toUpper).takeWhile (· ≠ space) ++
        (if (ext.take 3).map toUpper = [] ∨ ((ext.take 3).map toUpper).head? = some space then []
          else dot :: ((ext.take 3).map toUpper).takeWhile (· ≠ space)) ↔
      ext.length ≤ 3 ∧ ext ≠ [] ∧ space ∉ base ∧ space ∉ ext := by
  constructor
  · intro h
    have hlen := congrArg List.length h
    have hbase := (listed_length_le base).1
    rw [List.take_of_length_le hshort] at hbase
    rw [List.length_map, List.length_append, List.length_append, List.length_cons] at hlen
    split_ifs at hlen with hnone
    · rw [List.length_nil] at hlen
      omega
    · rw [List.length_cons] at hlen
      have hexts := (List.takeWhile_prefix (· ≠ space) (l := (ext.take 3).map toUpper)).length_le
      rw [List.length_map, List.length_take] at hexts
      obtain ⟨hext3, hspace⟩ := part_whole (l := ext) (n := 3) (by omega)
      obtain ⟨-, hspace'⟩ := part_whole (l := base) (n := 8) (by rw [List.take_of_length_le hshort]; omega)
      refine ⟨hext3, ?_, hspace', hspace⟩
      rintro rfl
      exact hnone (Or.inl rfl)
  · rintro ⟨hext3, hne, hspace, hspace'⟩
    obtain ⟨b, ext, rfl⟩ := List.exists_cons_of_ne_nil hne
    have hb : toUpper b ≠ space := fun he => hspace' (toUpper_eq_space.mp he ▸ List.mem_cons_self)
    have hsome : ¬(((b :: ext).take 3).map toUpper = [] ∨ (((b :: ext).take 3).map toUpper).head? = some space) := by
      simp [hb]
    rw [if_neg hsome, List.take_of_length_le hext3, takeWhile_of_notMem hspace, takeWhile_of_notMem hspace',
      List.map_append, List.map_cons]
    rfl

/-- A component is listed as it is spelled, in upper case, just if it is a short name. -/
theorem decode_fatName_iff (hslash : slash ∉ comp) :
    comp.map toUpper = decodeShortName (fatNameFromPathComponent comp) ↔ ShortForm comp := by
  obtain ⟨base, after, hcomp, hbase, hafter, hstop, hcase⟩ := split_dot hslash
  have hform : ShortForm comp ↔
      base.length ≤ 8 ∧ after.tail.length ≤ 3 ∧ (dot ∈ comp → after.tail ≠ []) ∧ space ∉ comp := by
    rw [← hbase, ← hafter]
    exact ⟨fun h => ⟨h.base, h.ext, h.dotted, h.space⟩, fun ⟨h₁, h₂, h₃, h₄⟩ => ⟨h₁, h₂, h₃, h₄⟩⟩
  have hparts := fatName_parts hstop (hcase.imp And.left fun ⟨ext, h, hs, _⟩ => ⟨ext, h, hs⟩)
  have hlong : ((base.take 8).map toUpper).length ≤ 8 := by
    rw [List.length_map]
    exact List.length_take_le 8 base
  have hext : (if base.length ≤ 8 then (after.tail.take 3).map toUpper else []).length ≤ 3 := by
    split_ifs
    · rw [List.length_map]
      exact List.length_take_le 3 after.tail
    · simp
  have hdecode := decode_parts hlong hext
  rw [← hparts, ← hcomp] at hdecode
  rw [hform, hdecode]
  by_cases hshort : base.length ≤ 8
  · rw [if_pos hshort, List.take_of_length_le hshort]
    rcases hcase with ⟨rfl, hdot⟩ | ⟨ext, rfl, -, hdot⟩
    · rw [List.append_nil] at hcomp
      subst hcomp
      constructor
      · intro h
        have hwhole := part_whole (l := comp) (n := 8) (by
          rw [List.take_of_length_le hshort]
          simpa using (congrArg List.length h).le)
        exact ⟨hshort, by simp, fun hm => absurd hm hdot, hwhole.2⟩
      · rintro ⟨-, -, -, hspace⟩
        simpa using (takeWhile_of_notMem hspace).symm
    · have hspaces : space ∉ comp ↔ space ∉ base ∧ space ∉ ext := by
        rw [hcomp]
        simp [show space ≠ dot by decide]
      rw [hspaces, List.tail_cons]
      rw [hcomp, decode_dotted hshort, ← hcomp]
      tauto
  · -- nothing but the first eight characters is listed
    rw [if_neg hshort]
    constructor
    · intro h
      have hlen := congrArg List.length h
      have hle := (listed_length_le base).2
      rw [hcomp, List.length_map, List.length_append, if_pos (Or.inl rfl), List.append_nil] at hlen
      omega
    · intro h
      exact absurd h.1 hshort

end ShortForms

section Scans

/-- The entry in a slot, as the scan of a directory sees it. -/
def slotEntry (g : FSMount) (disk : Memory) (d : Slot) : Except FSErr FATDirEntry :=
  (readSector g disk d.sector g.stack).map fun sec => FATDirEntry.load sec d.offset.toNat

/-- The slot of the entry is found from the cluster on, and the entries before it are passed. -/
inductive ScansTo (g : FSMount) (disk : Memory) (pass : FATDirEntry → Prop) :
    UInt32 → Slot → FATDirEntry → Prop where
  | here {c : UInt32} {before after : List Slot} {d : Slot} {e : FATDirEntry} (hc : 2 ≤ c ∧ c < 0x0FFFFFF8)
      (hslots : slots g [c] = before ++ d :: after)
      (hbefore : ∀ x ∈ before, ∃ e, slotEntry g disk x = .ok e ∧ pass e) (hd : slotEntry g disk d = .ok e) :
      ScansTo g disk pass c d e
  | next {c next : UInt32} {d : Slot} {e : FATDirEntry} (hc : 2 ≤ c ∧ c < 0x0FFFFFF8)
      (hall : ∀ x ∈ slots g [c], ∃ e, slotEntry g disk x = .ok e ∧ pass e)
      (hnext : fatEntry g disk c = .ok next) (hrest : ScansTo g disk pass next d e) : ScansTo g disk pass c d e

/-- In use, neither deleted nor part of a long name. -/
def FATDirEntry.InUse (e : FATDirEntry) : Prop := e.mark ≠ 0 ∧ e.skipped = false

/-- The entries that the search for a name goes past. -/
def Passed (name : List UInt8) (e : FATDirEntry) : Prop := e.mark ≠ 0 ∧ (e.skipped = false → e.name ≠ name)

/-- The first live entry of a directory with these 11 bytes. -/
def FirstNamed (g : FSMount) (disk : Memory) (name : List UInt8) (c : UInt32) (d : Slot) (e : FATDirEntry) : Prop :=
  ScansTo g disk (Passed name) c d e ∧ e.InUse ∧ e.name = name

lemma ScansTo.slotEntry {pass : FATDirEntry → Prop} (h : ScansTo g disk pass c d e) :
    slotEntry g disk d = .ok e := by
  induction h with
  | here hc hslots hbefore hd => exact hd
  | next hc hall hnext hrest ih => exact ih

lemma ScansTo.unique {pass : FATDirEntry → Prop} (h : ScansTo g disk pass c d e) (he : ¬pass e)
    (h' : ScansTo g disk pass c d' e') (he' : ¬pass e') : d = d' ∧ e = e' := by
  have hpassed : ∀ {l : List Slot} {x : Slot} {y : FATDirEntry},
      (∀ x ∈ l, ∃ e, Fat32.slotEntry g disk x = .ok e ∧ pass e) → Fat32.slotEntry g disk x = .ok y → ¬pass y →
        x ∉ l := by
    intro l x y hl hx hy hm
    obtain ⟨z, hz, hpass⟩ := hl x hm
    rw [hx, Except.ok.injEq] at hz
    exact hy (hz ▸ hpass)
  induction h with
  | @here c before after d e hc hslots hbefore hd =>
    cases h' with
    | here hc' hslots' hbefore' hd' =>
      have hdd : d = d' := by
        rw [hslots] at hslots'
        rcases List.append_eq_append_iff.mp hslots' with ⟨as, hb, ha⟩ | ⟨as, hb, ha⟩
        · cases as with
          | nil => exact (List.cons.inj ha).1
          | cons x as =>
            obtain rfl : d = x := (List.cons.inj ha).1
            exact absurd (hb ▸ List.mem_append_right _ List.mem_cons_self) (hpassed hbefore' hd he)
        · cases as with
          | nil => exact (List.cons.inj ha).1.symm
          | cons x as =>
            obtain rfl : d' = x := (List.cons.inj ha).1
            exact absurd (hb ▸ List.mem_append_right _ List.mem_cons_self) (hpassed hbefore hd' he')
      subst hdd
      rw [hd, Except.ok.injEq] at hd'
      exact ⟨rfl, hd'⟩
    | next hc' hall' hnext' hrest' =>
      exact absurd (hslots ▸ List.mem_append_right _ List.mem_cons_self) (hpassed hall' hd he)
  | next hc hall hnext hrest ih =>
    cases h' with
    | here hc' hslots' hbefore' hd' =>
      exact absurd (hslots' ▸ List.mem_append_right _ List.mem_cons_self) (hpassed hall hd' he')
    | next hc' hall' hnext' hrest' =>
      rw [hnext, Except.ok.injEq] at hnext'
      subst hnext'
      exact ih he hrest'

lemma FirstNamed.unique (h : FirstNamed g disk name c d e) (h' : FirstNamed g disk name c d' e') :
    d = d' ∧ e = e' :=
  h.1.unique (fun hp => hp.2 h.2.1.2 h.2.2) h'.1 (fun hp => hp.2 h'.2.1.2 h'.2.2)

lemma findInSector_none {sec : Memory} {offs : List ℕ} (h : findInSector name sec offs = none) :
    ∀ off ∈ offs, Passed name (FATDirEntry.load sec off) := by
  induction offs with
  | nil => simp
  | cons off offs ih =>
    rw [findInSector] at h
    split_ifs at h with hmark hskip hname
    · intro o ho
      rcases List.mem_cons.mp ho with rfl | ho
      · exact ⟨hmark, fun hno => absurd hskip (by simp [hno])⟩
      · exact ih h o ho
    · intro o ho
      rcases List.mem_cons.mp ho with rfl | ho
      · exact ⟨hmark, fun _ => hname⟩
      · exact ih h o ho

lemma findInSector_some {sec : Memory} {offs : List ℕ} {off : ℕ}
    (h : findInSector name sec offs = some (.ok off)) : ∃ before after, offs = before ++ off :: after ∧
      (∀ o ∈ before, Passed name (FATDirEntry.load sec o)) ∧ (FATDirEntry.load sec off).InUse ∧
        (FATDirEntry.load sec off).name = name := by
  induction offs with
  | nil => simp [findInSector] at h
  | cons o offs ih =>
    have hcons : ∀ {before : List ℕ}, Passed name (FATDirEntry.load sec o) →
        (∀ o ∈ before, Passed name (FATDirEntry.load sec o)) →
        ∀ x ∈ o :: before, Passed name (FATDirEntry.load sec x) := by
      intro before ho hb x hx
      rcases List.mem_cons.mp hx with rfl | hx
      · exact ho
      · exact hb x hx
    rw [findInSector] at h
    split_ifs at h with hmark hskip hname
    · simp at h
    · obtain ⟨before, after, rfl, hbefore, huse⟩ := ih h
      exact ⟨o :: before, after, rfl, hcons ⟨hmark, fun hno => absurd hskip (by simp [hno])⟩ hbefore, huse⟩
    · obtain rfl : o = off := by simpa using h
      exact ⟨[], offs, rfl, by simp, ⟨hmark, by simpa using hskip⟩, hname⟩
    · obtain ⟨before, after, rfl, hbefore, huse⟩ := ih h
      exact ⟨o :: before, after, rfl, hcons ⟨hmark, fun _ => hname⟩ hbefore, huse⟩

lemma toNat_offset {off : ℕ} (h : off ∈ entryOffsets g) : (UInt32.ofNat off).toNat = off := by
  have hlt := g.bps.toNat_lt
  simp only [entryOffsets, List.mem_map, List.mem_range] at h
  obtain ⟨k, hk, rfl⟩ := h
  exact toNat_ofNat_of_lt (by omega)

lemma slotEntry_offset {sec : Memory} {sector : UInt32} {off : ℕ} (hsec : readSector g disk sector g.stack = .ok sec)
    (h : off ∈ entryOffsets g) : slotEntry g disk ⟨sector, UInt32.ofNat off⟩ = .ok (FATDirEntry.load sec off) := by
  simp only [slotEntry, hsec, toNat_offset h, Except.map]

lemma sectorSlots_passed {sec : Memory} {sector : UInt32} (hsec : readSector g disk sector g.stack = .ok sec)
    {offs : List ℕ} (hoffs : ∀ off ∈ offs, off ∈ entryOffsets g)
    (h : ∀ off ∈ offs, Passed name (FATDirEntry.load sec off)) :
    ∀ x ∈ offs.map fun off => (⟨sector, UInt32.ofNat off⟩ : Slot),
      ∃ e, slotEntry g disk x = .ok e ∧ Passed name e := by
  intro x hx
  obtain ⟨off, hoff, rfl⟩ := List.mem_map.mp hx
  exact ⟨_, slotEntry_offset hsec (hoffs off hoff), h off hoff⟩

lemma scanSectors_none {sectors : List UInt32} (h : scanSectors g disk name sectors = .ok none) :
    ∀ x ∈ sectors.flatMap (sectorSlots g), ∃ e, slotEntry g disk x = .ok e ∧ Passed name e := by
  induction sectors with
  | nil => simp
  | cons sector sectors ih =>
    rw [scanSectors] at h
    cases hsec : readSector g disk sector g.stack with
    | error e => simp [hsec] at h
    | ok sec =>
      simp only [hsec] at h
      cases hf : findInSector name sec (entryOffsets g) with
      | some r => cases r <;> simp [hf] at h
      | none =>
        simp only [hf] at h
        intro x hx
        rcases List.mem_append.mp (List.flatMap_cons ▸ hx) with hx | hx
        · exact sectorSlots_passed hsec (fun _ ho => ho) (findInSector_none hf) x hx
        · exact ih h x hx

lemma scanSectors_some {sectors : List UInt32} {found : Found}
    (h : scanSectors g disk name sectors = .ok (some found)) : ∃ before after,
      sectors.flatMap (sectorSlots g) = before ++ ⟨found.sector, found.offset⟩ :: after ∧
      (∀ x ∈ before, ∃ e, slotEntry g disk x = .ok e ∧ Passed name e) ∧
      slotEntry g disk ⟨found.sector, found.offset⟩ = .ok found.entry ∧ found.entry.InUse ∧
      found.entry.name = name := by
  induction sectors with
  | nil => simp [scanSectors] at h
  | cons sector sectors ih =>
    rw [scanSectors] at h
    cases hsec : readSector g disk sector g.stack with
    | error e => simp [hsec] at h
    | ok sec =>
      simp only [hsec] at h
      rw [List.flatMap_cons]
      cases hf : findInSector name sec (entryOffsets g) with
      | none =>
        simp only [hf] at h
        obtain ⟨before, after, hslots, hbefore, hrest⟩ := ih h
        refine ⟨sectorSlots g sector ++ before, after, by rw [hslots, List.append_assoc], ?_, hrest⟩
        intro x hx
        rcases List.mem_append.mp hx with hx | hx
        · exact sectorSlots_passed hsec (fun _ ho => ho) (findInSector_none hf) x hx
        · exact hbefore x hx
      | some r =>
        cases r with
        | error e => simp [hf] at h
        | ok off =>
          simp only [hf, Except.ok.injEq, Option.some.injEq] at h
          subst h
          obtain ⟨before, after, hoffs, hbefore, huse, hname⟩ := findInSector_some hf
          have hmem : ∀ o ∈ before ++ off :: after, o ∈ entryOffsets g := fun o ho => hoffs ▸ ho
          refine ⟨before.map fun off => ⟨sector, UInt32.ofNat off⟩,
            (after.map fun off => ⟨sector, UInt32.ofNat off⟩) ++ sectors.flatMap (sectorSlots g), ?_, ?_, ?_,
            huse, hname⟩
          · rw [sectorSlots, hoffs, List.map_append, List.map_cons, List.append_assoc, List.cons_append]
          · exact sectorSlots_passed hsec (fun o ho => hmem o (List.mem_append_left _ ho)) hbefore
          · exact slotEntry_offset hsec (hmem off (by simp))

/-- `find_entry_in_dir` finds the first live entry with the name. -/
theorem findOutcome_firstNamed {fuel : ℕ} {found : Found} (h : findOutcome g disk fuel c name = .ok found) :
    FirstNamed g disk name c ⟨found.sector, found.offset⟩ found.entry := by
  rw [findOutcome] at h
  split_ifs at h with hbps
  have hslots : ∀ c, slots g [c] = (clusterSectors g c).flatMap (sectorSlots g) := fun c => by simp [slots]
  induction fuel generalizing c with
  | zero => simp [Outcome.ofLoop] at h
  | succ fuel ih =>
    by_cases hc : 2 ≤ c ∧ c < 0x0FFFFFF8
    · cases hscan : scanSectors g disk name (clusterSectors g c) with
      | error e =>
        rw [loop_succ_inr (r := .error e) (by simp [findStep, hc, hscan])] at h
        simp [Outcome.ofLoop, Outcome.ofExcept] at h
      | ok o =>
        cases o with
        | some f =>
          rw [loop_succ_inr (r := .ok f) (by simp [findStep, hc, hscan])] at h
          obtain rfl : f = found := by simpa [Outcome.ofLoop, Outcome.ofExcept] using h
          obtain ⟨before, after, hsplit, hbefore, hentry, huse, hname⟩ := scanSectors_some hscan
          exact ⟨ScansTo.here hc ((hslots c).trans hsplit) hbefore hentry, huse, hname⟩
        | none =>
          cases hfat : fatEntry g disk c with
          | error e =>
            rw [loop_succ_inr (r := .error e) (by simp [findStep, hc, hscan, hfat])] at h
            simp [Outcome.ofLoop, Outcome.ofExcept] at h
          | ok next =>
            rw [loop_succ_inl (show findStep g disk name c = .inl next by simp [findStep, hc, hscan, hfat])] at h
            obtain ⟨hrest, huse⟩ := ih h
            exact ⟨ScansTo.next hc (hslots c ▸ scanSectors_none hscan) hfat hrest, huse⟩
    · rw [loop_succ_inr (r := .error .notFound) (by simp [findStep, hc])] at h
      simp [Outcome.ofLoop, Outcome.ofExcept] at h

end Scans

section Specification

def fsAttrVolumeId : UInt8 := 0x08

/-- Each component finds an entry in the directory that the ones before it lead to. -/
inductive NameWalk (R : List UInt8 → UInt32 → Slot → FATDirEntry → Prop) :
    List (List UInt8) → UInt32 → Slot → FATDirEntry → Prop where
  | last {comp : List UInt8} {c : UInt32} {d : Slot} {e : FATDirEntry} (h : R comp c d e) : NameWalk R [comp] c d e
  | step {comp : List UInt8} {comps : List (List UInt8)} {c : UInt32} {d d' : Slot} {e e' : FATDirEntry}
      (h : R comp c d e) (hdir : e.isDirectory = true) (hrest : NameWalk R comps e.firstCluster d' e') :
      NameWalk R (comp :: comps) c d' e'

/-- The entry of the component: the first live one with its 11 bytes. -/
def Named (g : FSMount) (disk : Memory) (comp : List UInt8) : UInt32 → Slot → FATDirEntry → Prop :=
  FirstNamed g disk (fatNameFromPathComponent comp)

/-- The entry of the component is listed under the name that the component spells. -/
def Spells (g : FSMount) (disk : Memory) (comp : List UInt8) (c : UInt32) (d : Slot) (e : FATDirEntry) : Prop :=
  Named g disk comp c d e ∧ comp.map toUpper = decodeShortName e.name

/-- The handle denotes a regular file whose path is spelled by the components. -/
def OpenedByName (g : FSMount) (disk : Memory) (path : List UInt8) (file : FSFile) : Prop :=
  ∃ d e, NameWalk (Spells g disk) (words slash path) g.bpb.rootCluster d e ∧ e.isDirectory = false ∧
    e.attr &&& fsAttrVolumeId = 0 ∧ file.dirEntrySector = d.sector ∧ file.dirEntryOffset = d.offset ∧
    file.firstCluster = e.firstCluster ∧ file.size = e.fileSize

end Specification

section Results

variable {fuel : ℕ} {s s' : State} {path : List UInt8} {mode : UInt8}

lemma NameWalk.unique (h : NameWalk (Named g disk) comps c d e) (h' : NameWalk (Named g disk) comps c d' e') :
    d = d' ∧ e = e' := by
  induction h with
  | last hn =>
    cases h' with
    | last hn' => exact hn.unique hn'
    | step hn' hdir hrest => cases hrest
  | step hn hdir hrest ih =>
    cases h' with
    | last hn' => cases hrest
    | step hn' hdir' hrest' =>
      obtain ⟨-, rfl⟩ := hn.unique hn'
      exact ih hrest'

lemma nameWalk_spells (hslash : ∀ comp ∈ comps, slash ∉ comp) :
    NameWalk (Spells g disk) comps c d e ↔
      NameWalk (Named g disk) comps c d e ∧ ∀ comp ∈ comps, ShortForm comp := by
  have hform : ∀ {comp c d e}, slash ∉ comp → Named g disk comp c d e →
      (Spells g disk comp c d e ↔ ShortForm comp) := by
    intro comp c d e hc hn
    rw [Spells, hn.2.2, decode_fatName_iff hc]
    exact and_iff_right hn
  constructor
  · intro h
    induction h with
    | last hs =>
      refine ⟨NameWalk.last hs.1, fun comp hm => ?_⟩
      obtain rfl := List.mem_singleton.mp hm
      exact (hform (hslash _ hm) hs.1).mp hs
    | step hs hdir hrest ih =>
      obtain ⟨hwalk, hforms⟩ := ih fun comp hm => hslash comp (List.mem_cons_of_mem _ hm)
      refine ⟨NameWalk.step hs.1 hdir hwalk, fun comp hm => ?_⟩
      rcases List.mem_cons.mp hm with rfl | hm
      · exact (hform (hslash _ List.mem_cons_self) hs.1).mp hs
      · exact hforms comp hm
  · rintro ⟨hwalk, hforms⟩
    induction hwalk with
    | last hn => exact NameWalk.last ((hform (hslash _ List.mem_cons_self) hn).mpr (hforms _ List.mem_cons_self))
    | step hn hdir hrest ih =>
      refine NameWalk.step ((hform (hslash _ List.mem_cons_self) hn).mpr (hforms _ List.mem_cons_self)) hdir ?_
      exact ih (fun comp hm => hslash comp (List.mem_cons_of_mem _ hm))
        (fun comp hm => hforms comp (List.mem_cons_of_mem _ hm))

lemma resolveComponents_walk {current found : Found} (hne : comps ≠ [])
    (h : resolveComponents g disk fuel comps c current = .ok found) :
    NameWalk (Named g disk) comps c ⟨found.sector, found.offset⟩ found.entry := by
  induction comps generalizing c current with
  | nil => exact absurd rfl hne
  | cons comp comps ih =>
    rw [resolveComponents] at h
    cases hf : findOutcome g disk fuel c (fatNameFromPathComponent comp) with
    | error e => simp [hf] at h
    | spin => simp [hf] at h
    | ok f =>
      have hn : Named g disk comp c _ _ := findOutcome_firstNamed hf
      simp only [hf] at h
      split_ifs at h with hdir
      by_cases hnil : comps = []
      · subst hnil
        obtain rfl : f = found := Outcome.ok.inj h
        exact NameWalk.last hn
      · have hd : f.entry.isDirectory = true := by
          by_contra hd
          exact hdir ⟨hnil, by simpa using hd⟩
        exact NameWalk.step hn hd (ih hnil h)

lemma fsOpen_walk (hshort : ∀ w ∈ words slash path, w.length ≤ 31)
    (hopen : (fsOpen g fuel path mode).run (handler g) s = (.ok (), s')) : ∃ d e,
      NameWalk (Named g s.disk) (words slash path) g.bpb.rootCluster d e ∧ e.isDirectory = false ∧
      s'.file.dirEntrySector = d.sector ∧ s'.file.dirEntryOffset = d.offset ∧
      s'.file.firstCluster = e.firstCluster ∧ s'.file.size = e.fileSize := by
  rw [run_fsOpen] at hopen
  cases ho : openOutcome g s.disk fuel path mode with
  | error e => simp [ho] at hopen
  | spin => simp [ho] at hopen
  | ok file =>
    obtain rfl : { s with file := file } = s' := by simpa [ho] using hopen
    rw [openOutcome] at ho
    split_ifs at ho with hmounted hmode
    cases hp : pathOutcome g s.disk fuel path with
    | error e => simp [hp] at ho
    | spin => simp [hp] at ho
    | ok found =>
      simp only [hp] at ho
      split_ifs at ho with hdir hwrite
      obtain rfl := Outcome.ok.inj ho
      have hdirectory : ∀ cluster, (directoryEntry cluster).isDirectory = true := by
        intro cluster
        simp [FATDirEntry.isDirectory, directoryEntry, fsAttrDirectory]
      have hslash : path.head? = some slash := by
        by_contra hno
        rw [pathOutcome, if_pos hno] at hp
        cases hp
      rw [pathOutcome_components s.disk fuel hslash hshort] at hp
      cases hr : resolveComponents g s.disk fuel (words slash path) g.bpb.rootCluster ⟨directoryEntry 0, 0, 0⟩ with
      | error e => simp [hr] at hp
      | spin => simp [hr] at hp
      | ok f =>
        simp only [hr, Outcome.ok.injEq] at hp
        split_ifs at hp with hlen
        · rw [← hp] at hdir
          exact absurd (hdirectory _) hdir
        · subst hp
          have hne : words slash path ≠ [] := by
            intro hnil
            rw [hnil, resolveComponents, Outcome.ok.injEq] at hr
            rw [← hr] at hdir
            exact absurd (hdirectory _) hdir
          exact ⟨_, _, resolveComponents_walk hne hr, by simpa using hdir, rfl, rfl, rfl, rfl⟩

/-- `fs_open` opens the file that the path spells just if every component is a short name and the
entry it ends at is not the label of the volume. Components that are short names only open the same
entry if they agree in upper case. -/
theorem opened_by_name_iff (hshort : ∀ w ∈ words slash path, w.length ≤ 31)
    (hopen : (fsOpen g fuel path mode).run (handler g) s = (.ok (), s')) :
    (OpenedByName g s.disk path s'.file ↔ (∀ comp ∈ words slash path, ShortForm comp) ∧
      ∀ d e, NameWalk (Named g s.disk) (words slash path) g.bpb.rootCluster d e → e.attr &&& fsAttrVolumeId = 0) ∧
    ∀ comp comp' c c' d e e', Spells g s.disk comp c d e → Spells g s.disk comp' c' d e' →
      comp.map toUpper = comp'.map toUpper := by
  have hslash : ∀ comp ∈ words slash path, slash ∉ comp := fun comp hm => (mem_words hm).2
  obtain ⟨d, e, hwalk, hdir, hsector, hoffset, hcluster, hsize⟩ := fsOpen_walk hshort hopen
  refine ⟨?_, ?_⟩
  · constructor
    · rintro ⟨d', e', hspells, -, hlabel, -⟩
      obtain ⟨hwalk', hforms⟩ := (nameWalk_spells hslash).mp hspells
      refine ⟨hforms, fun d₁ e₁ h₁ => ?_⟩
      rw [(h₁.unique hwalk').2]
      exact hlabel
    · rintro ⟨hforms, hlabel⟩
      exact ⟨d, e, (nameWalk_spells hslash).mpr ⟨hwalk, hforms⟩, hdir, hlabel d e hwalk, hsector, hoffset,
        hcluster, hsize⟩
  · intro comp comp' c c' d e e' h h'
    have hsame : e = e' := Except.ok.inj (h.1.1.slotEntry.symm.trans h'.1.1.slotEntry)
    rw [h.2, h'.2, hsame]

/-- The formatted volume, with the handle of a program. -/
def unopenedState : State := ⟨formattedDisk, ⟨0, 0, 0, 0, 0, 0, false⟩⟩

def openedA : State := ((fsOpen formattedMount 1 pathA fsOpenRead).run (handler formattedMount) unopenedState).2

lemma openedA_run : (fsOpen formattedMount 1 pathA fsOpenRead).run (handler formattedMount) unopenedState =
    (.ok (), openedA) :=
  Prod.ext (by decide +kernel) rfl

lemma formatted_named : Named formattedMount formattedDisk [0x41] 2 formattedSlot
    ⟨0x41 :: List.replicate 10 0x20, 0x20, 0, 0, 0⟩ := by
  have hfound : findOutcome formattedMount formattedDisk 1 2 (fatNameFromPathComponent [0x41]) =
      .ok ⟨⟨0x41 :: List.replicate 10 0x20, 0x20, 0, 0, 0⟩, 1025, 0⟩ := by rfl
  exact findOutcome_firstNamed hfound

theorem opened_by_name_iff_formatted : OpenedByName formattedMount formattedDisk pathA openedA.file := by
  have hwords : words slash pathA = [[0x41]] := by decide
  refine (opened_by_name_iff (by decide) openedA_run).1.mpr ⟨?_, ?_⟩
  · rw [hwords]
    rintro comp hm
    obtain rfl := List.mem_singleton.mp hm
    exact ⟨by decide, by decide, by decide, by decide⟩
  · rw [hwords]
    intro d e hwalk
    rw [(hwalk.unique (NameWalk.last formatted_named)).2]
    decide

/-- The formatted volume with its file renamed to `ABCDEFGH`. -/
def longNameDisk : Memory := fun a =>
  if 524800 ≤ a ∧ a < 524808 then UInt8.ofNat (0x41 + (a - 524800)) else formattedDisk a

/-- The path `/ABCDEFGHI.TXT`. -/
def longPath : List UInt8 := slash :: (List.range 9).map (fun i => UInt8.ofNat (0x41 + i)) ++ [dot, 0x54, 0x58, 0x54]

/-- The path of another file opens the file `ABCDEFGH`. -/
theorem opened_by_name_cut : ¬∀ (s s' : State) (path : List UInt8) (mode : UInt8),
    (∀ w ∈ words slash path, w.length ≤ 31) →
    (fsOpen formattedMount 1 path mode).run (handler formattedMount) s = (.ok (), s') →
      OpenedByName formattedMount s.disk path s'.file := by
  intro h
  have hwords : words slash longPath = [longPath.tail] := by decide
  have hopen : (fsOpen formattedMount 1 longPath fsOpenRead).run (handler formattedMount)
      ⟨longNameDisk, ⟨0, 0, 0, 0, 0, 0, false⟩⟩ = (.ok (), _) := Prod.ext (by decide +kernel) rfl
  obtain ⟨d, e, hspells, -⟩ := h _ _ longPath fsOpenRead (by rw [hwords]; decide) hopen
  rw [hwords] at hspells
  have hforms := ((nameWalk_spells (by decide)).mp hspells).2 _ (List.mem_singleton.mpr rfl)
  exact absurd hforms.base (by decide)

end Results

end SBoy28.Fat32
