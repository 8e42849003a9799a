import Mathlib.Data.List.GetD
import SBoy28.Lib.Strings
import SBoy28.Windows.Table

/-!
# The class registry as a map

A program registers procedures under names and creates windows by name. The names are stored cut to
63 characters and compared in full, so a longer name is registered and never found.
-/

namespace SBoy28.Windows
open Lib

section Specification

structure Registration where
  name : CString
  proc : WndProc
deriving DecidableEq

def Os.register (os : Os) (c : Registration) : UInt32 × Os :=
  registerClass os (some ⟨some c.proc, some c.name.1⟩)

/-- One class, with the name "a", and no window. -/
def singleClass : Os := (Os.boot.register ⟨⟨[97], by decide⟩, 1⟩).2

def Os.registerAll (os : Os) (calls : List Registration) : Os := calls.foldl (fun os c => (os.register c).2) os

/-- One of the calls was made with this name and this procedure, and succeeded. -/
def Registered (os : Os) (calls : List Registration) (c : Registration) : Prop :=
  ∃ earlier later, calls = earlier ++ c :: later ∧ ((os.registerAll earlier).register c).1 ≠ 0

/-- What the callers rely on after a sequence of calls. -/
structure ClassMap (os : Os) (calls : List Registration) : Prop where
  created : ∀ c, Registered os calls c → ∀ args : CreateArgs, args.className = some c.name.1 →
    (∃ i, ((os.registerAll calls).windows i).inUse = false) → ∃ i k,
      ((os.registerAll calls).create args).1 = some i ∧
      (((os.registerAll calls).create args).2.windows i).inUse = true ∧
      (((os.registerAll calls).create args).2.windows i).windowClass = some k ∧
      (((os.registerAll calls).create args).2.classes k).wndProc = some c.proc
  refused : ∀ c, Registered os calls c → ∀ proc, ((os.registerAll calls).register ⟨c.name, proc⟩).1 = 0
  unknown : ∀ name, (∀ proc, ¬Registered os calls ⟨name, proc⟩) → ∀ args : CreateArgs,
    args.className = some name.1 → ((os.registerAll calls).create args).1 = none

def shortNames (calls : List Registration) : Finset CString :=
  ((calls.map Registration.name).filter fun name => name.1.length ≤ 63).toFinset

/-- Sixteen shorter names come before every name of 64 characters or more. -/
def LongNamesLate (calls : List Registration) : Prop :=
  ∀ earlier c later, calls = earlier ++ c :: later → 63 < c.name.1.length → 16 ≤ (shortNames earlier).card

end Specification

variable {os : Os} {entries calls : List Registration} {c c' : Registration} {name : CString} {k : Fin 16}

section Names

lemma strcmpLoop_eq_zero {a : ℕ → UInt8} {t : List UInt8} (ht : (0 : UInt8) ∉ t) {n i : ℕ}
    (hend : ∃ j, i ≤ j ∧ j < i + n ∧ a j = 0) : strcmpLoop a t n i = 0 ↔ stringAt a i n = t.drop i := by
  induction n generalizing i with
  | zero => obtain ⟨j, hij, hj, -⟩ := hend; omega
  | succ n ih =>
    have hsub : ∀ x y : UInt8, (x.toNat : ℤ) - y.toNat = 0 ↔ x = y := by
      intro x y
      rw [← UInt8.toNat_inj]
      omega
    unfold strcmpLoop stringAt
    rcases Nat.lt_or_ge i t.length with hi | hi
    · -- inside the second string
      have hget : t.getD i 0 = t[i] := List.getD_eq_getElem _ _ hi
      have hne : t[i] ≠ 0 := fun he => ht (he ▸ List.getElem_mem hi)
      rw [hget, List.drop_eq_getElem_cons hi]
      by_cases ha : a i = 0
      · rw [if_neg (by simp [ha]), hsub, if_pos ha, ha]
        exact iff_of_false hne.symm (List.cons_ne_nil _ _).symm
      · rw [if_pos ⟨ha, hne⟩, if_neg ha]
        by_cases heq : a i = t[i]
        · have hnext : ∃ j, i + 1 ≤ j ∧ j < i + 1 + n ∧ a j = 0 := by
            obtain ⟨j, hij, hj, hzero⟩ := hend
            refine ⟨j, ?_, by omega, hzero⟩
            have : j ≠ i := fun he => ha (he ▸ hzero)
            omega
          rw [if_neg (by simp [heq]), ih hnext, heq, List.cons.injEq]
          simp only [true_and]
        · rw [if_pos heq, hsub, List.cons.injEq]
          simp only [heq, false_and]
    · -- past the second string
      have hget : t.getD i 0 = 0 := List.getD_eq_default _ _ hi
      rw [hget, if_neg (by simp), hsub, List.drop_eq_nil_of_le hi]
      by_cases ha : a i = 0 <;> simp [ha]

lemma strcmp_eq_zero {a : ℕ → UInt8} {t : List UInt8} (ht : (0 : UInt8) ∉ t) (hend : ∃ j < 64, a j = 0) :
    strcmp a t = 0 ↔ string a 64 = t := by
  obtain ⟨j, hj, hzero⟩ := hend
  rw [strcmp, strcmpLoop_eq_zero ht ⟨j, Nat.zero_le j, by omega, hzero⟩, List.drop_zero, string]

variable (old : ℕ → UInt8) (text : List UInt8) (n : ℕ) {j : ℕ}

/-- What the callers of `strncpy` do: they end the string themselves. At most 63 characters are kept. -/
lemma strncpy_lt (hj : j < min text.length (min n 63)) :
    Function.update (strncpy old text n) n 0 j = text.getD j 0 := by
  have hlt : j < n ∧ j < 64 := by omega
  have hn : j ≠ n := by omega
  have h63 : j ≠ 63 := by omega
  rw [Function.update_of_ne hn, strncpy]
  by_cases hcap : 64 ≤ n
  · simp only [if_pos hcap, Function.update_of_ne h63, if_pos hlt]
  · simp only [if_neg hcap, if_pos hlt]

lemma strncpy_outside (hj : n < j) : Function.update (strncpy old text n) n 0 j = old j := by
  have hlt : ¬(j < n ∧ j < 64) := by omega
  rw [Function.update_of_ne (Nat.ne_of_gt hj), strncpy]
  by_cases hcap : 64 ≤ n
  · have h63 : j ≠ 63 := by omega
    simp only [if_pos hcap, Function.update_of_ne h63, if_neg hlt]
  · simp only [if_neg hcap, if_neg hlt]

lemma strncpy_end : Function.update (strncpy old text n) n 0 (min text.length (min n 63)) = 0 := by
  by_cases hn : min text.length (min n 63) = n
  · rw [hn, Function.update_self]
  rw [Function.update_of_ne hn, strncpy]
  have hlt : min text.length (min n 63) < n ∧ min text.length (min n 63) < 64 := by omega
  by_cases hcap : 64 ≤ n
  · by_cases h63 : min text.length (min n 63) = 63
    · simp only [if_pos hcap, h63, Function.update_self]
    · have hlen : min text.length (min n 63) = text.length := by omega
      simp only [if_pos hcap, Function.update_of_ne h63, if_pos hlt]
      rw [hlen]
      exact List.getD_eq_default _ _ (Nat.le_refl _)
  · have hlen : min text.length (min n 63) = text.length := by omega
    simp only [if_neg hcap, if_pos hlt]
    rw [hlen]
    exact List.getD_eq_default _ _ (Nat.le_refl _)

lemma string_strncpy (htext : (0 : UInt8) ∉ text) :
    string (Function.update (strncpy old text n) n 0) (n + 1) = text.take (min n 63) := by
  have hlen : (text.take (min n 63)).length = min text.length (min n 63) := by
    rw [List.length_take, Nat.min_comm]
  refine string_eq (fun h => htext (List.mem_of_mem_take h)) (by rw [hlen]; omega) ?_ ?_
  · intro j hj
    rw [hlen] at hj
    have hlt : j < min n 63 := by omega
    rw [strncpy_lt old text n hj, List.getD_eq_getElem?_getD, List.getD_eq_getElem?_getD, List.getElem?_take,
      if_pos hlt]
  · intro _
    rw [hlen]
    exact strncpy_end old text n

end Names

section Registry

/-- A stored name is the new name, or all slots are taken. -/
def Refused (entries : List Registration) (c : Registration) : Prop :=
  (∃ c' ∈ entries, c'.name.1.take 63 = c.name.1) ∨ entries.length = 16

instance (entries : List Registration) (c : Registration) : Decidable (Refused entries c) :=
  inferInstanceAs (Decidable (_ ∨ _))

def accept (entries : List Registration) (c : Registration) : List Registration :=
  if Refused entries c then entries else entries ++ [c]

def accepted (calls : List Registration) : List Registration := calls.foldl accept []

/-- The slots hold the registrations in their order. -/
structure Registry (os : Os) (entries : List Registration) : Prop where
  room : entries.length ≤ 16
  used : ∀ (k : Fin 16) (c : Registration), entries[k.1]? = some c →
    (os.classes k).inUse = true ∧ (os.classes k).wndProc = some c.proc ∧
      string (os.classes k).className 64 = c.name.1.take 63 ∧ (os.classes k).className 63 = 0
  free : ∀ k : Fin 16, entries.length ≤ k → (os.classes k).inUse = false
  atom : os.nextAtom.toNat = entries.length + 1

lemma Registry.boot (windows : Fin 16 → Window) : Registry { Os.boot with windows := windows } [] where
  room := Nat.zero_le 16
  used k c h := by simp at h
  free k _ := rfl
  atom := rfl

/-- What `find_class_by_name` tests of a slot. -/
lemma Registry.found (h : Registry os entries) (name : CString) (k : Fin 16) :
    ((os.classes k).inUse && strcmp (os.classes k).className name.1 == 0) = true ↔
      ∃ c, entries[k.1]? = some c ∧ c.name.1.take 63 = name.1 := by
  rw [Bool.and_eq_true, beq_iff_eq]
  rcases Nat.lt_or_ge k entries.length with hk | hk
  · have hget : entries[k.1]? = some entries[k.1] := List.getElem?_eq_getElem hk
    obtain ⟨huse, -, hname, hend⟩ := h.used k _ hget
    rw [strcmp_eq_zero name.2 ⟨63, by omega, hend⟩, hname, hget]
    simp [huse]
  · have hget : entries[k.1]? = none := List.getElem?_eq_none hk
    simp [h.free k hk, hget]

lemma Registry.find_some (h : Registry os entries) (hfind : findClassByName os (some name.1) = some k) :
    ∃ c, entries[k.1]? = some c ∧ c.name.1.take 63 = name.1 := by
  unfold findClassByName at hfind
  have htest := List.find?_some hfind
  exact (h.found name k).mp htest

lemma Registry.find_isSome (h : Registry os entries) (name : CString) :
    (findClassByName os (some name.1)).isSome = true ↔ ∃ c ∈ entries, c.name.1.take 63 = name.1 := by
  constructor
  · intro hsome
    obtain ⟨k, hk⟩ := Option.isSome_iff_exists.mp hsome
    obtain ⟨c, hget, hname⟩ := h.find_some hk
    exact ⟨c, List.mem_of_getElem? hget, hname⟩
  · rintro ⟨c, hc, hname⟩
    obtain ⟨i, hi, rfl⟩ := List.mem_iff_getElem.mp hc
    have hi16 : i < 16 := Nat.lt_of_lt_of_le hi h.room
    refine List.find?_isSome.mpr ⟨⟨i, hi16⟩, List.mem_finRange _, ?_⟩
    exact (h.found name ⟨i, hi16⟩).mpr ⟨_, List.getElem?_eq_getElem hi, hname⟩

lemma Registry.firstFree (h : Registry os entries) :
    ((List.finRange 16).find? fun i => !(os.classes i).inUse) =
      if hlen : entries.length < 16 then some ⟨entries.length, hlen⟩ else none := by
  by_cases hlen : entries.length < 16
  · rw [dif_pos hlen]
    refine List.find?_eq_some_iff_getElem.mpr ⟨by simp [h.free ⟨_, hlen⟩ (Nat.le_refl _)],
      entries.length, by simpa using hlen, by simp, ?_⟩
    intro j hj
    have huse := (h.used ⟨j, by omega⟩ _ (List.getElem?_eq_getElem hj)).1
    simp [huse]
  · rw [dif_neg hlen, List.find?_eq_none]
    intro k _
    have hk : k.1 < entries.length := by omega
    simp [(h.used k _ (List.getElem?_eq_getElem hk)).1]

/-- `RegisterClass` accepts the call or refuses it. -/
theorem Registry.register (h : Registry os entries) (c : Registration) :
    Registry (os.register c).2 (accept entries c) ∧ ((os.register c).1 = 0 ↔ Refused entries c) := by
  unfold Os.register registerClass accept
  simp only
  by_cases hfound : ∃ c' ∈ entries, c'.name.1.take 63 = c.name.1
  · have hr : Refused entries c := Or.inl hfound
    rw [if_pos ((h.find_isSome c.name).mpr hfound), if_pos hr]
    exact ⟨h, iff_of_true rfl hr⟩
  rw [if_neg (fun hsome => hfound ((h.find_isSome c.name).mp hsome)), h.firstFree]
  by_cases hlen : entries.length < 16
  · have hr : ¬Refused entries c := by
      rintro (hf | hl)
      · exact hfound hf
      · omega
    have hatom : os.nextAtom ≠ 0 := by
      intro h0
      have := h.atom
      rw [h0] at this
      simp at this
    rw [dif_pos hlen, if_neg hr]
    have hroom : (entries ++ [c]).length ≤ 16 := by simp; omega
    refine ⟨⟨hroom, ?_, ?_, ?_⟩, iff_of_false hatom hr⟩
    · intro k c' hk
      rcases Nat.lt_trichotomy k entries.length with hlt | heq | hgt
      · have hold : k ≠ ⟨entries.length, hlen⟩ := fun he => by simp [he] at hlt
        rw [List.getElem?_append_left hlt] at hk
        simpa [Function.update_of_ne hold] using h.used k c' hk
      · have hnew : k = ⟨entries.length, hlen⟩ := Fin.ext heq
        have hc : c = c' := by simpa [hnew] using hk
        subst hc
        subst hnew
        simp only [Function.update_self]
        exact ⟨trivial, trivial, string_strncpy _ _ 63 c.name.2, trivial⟩
      · rw [List.getElem?_eq_none (by simp; omega)] at hk
        cases hk
    · intro k hk
      rw [List.length_append, List.length_singleton] at hk
      have hold : k ≠ ⟨entries.length, hlen⟩ := fun he => by
        rw [he] at hk
        exact Nat.not_succ_le_self _ hk
      simpa [Function.update_of_ne hold] using h.free k (by omega)
    · have h1 : (1 : UInt32).toNat = 1 := rfl
      simp only [List.length_append, List.length_singleton]
      rw [toNat_add_of_lt (by rw [h1, h.atom]; omega), h1, h.atom]
  · have hr : Refused entries c := Or.inr (by have := h.room; omega)
    rw [dif_neg hlen, if_pos hr]
    exact ⟨h, iff_of_true rfl hr⟩

end Registry

section Sequences

lemma accepted_concat (calls : List Registration) (c : Registration) :
    accepted (calls ++ [c]) = accept (accepted calls) c := by
  simp [accepted]

lemma registerAll_concat (os : Os) (calls : List Registration) (c : Registration) :
    os.registerAll (calls ++ [c]) = ((os.registerAll calls).register c).2 := by
  simp [Os.registerAll]

lemma registry_run (h : Registry os []) (calls : List Registration) :
    Registry (os.registerAll calls) (accepted calls) := by
  induction calls using List.reverseRecOn with
  | nil => exact h
  | append_singleton calls c ih =>
    rw [registerAll_concat, accepted_concat]
    exact (ih.register c).1

/-- The calls that succeeded are the registrations in the slots. -/
lemma registered_iff (h : Registry os []) (c : Registration) : Registered os calls c ↔ c ∈ accepted calls := by
  induction calls using List.reverseRecOn with
  | nil =>
    refine iff_of_false ?_ (by simp [accepted])
    rintro ⟨earlier, later, he, -⟩
    simp at he
  | append_singleton calls c' ih =>
    have hcall := ((registry_run h calls).register c').2
    have hsplit : Registered os (calls ++ [c']) c ↔
        Registered os calls c ∨ c = c' ∧ ¬Refused (accepted calls) c' := by
      constructor
      · rintro ⟨earlier, later, he, hne⟩
        rcases List.eq_nil_or_concat later with rfl | ⟨later, d, rfl⟩
        · obtain ⟨rfl, hc⟩ := List.append_inj' he rfl
          obtain rfl : c' = c := by simpa using hc
          exact Or.inr ⟨rfl, fun hr => hne (hcall.mpr hr)⟩
        · rw [List.concat_eq_append, ← List.cons_append, ← List.append_assoc] at he
          exact Or.inl ⟨earlier, later, (List.append_inj' he rfl).1, hne⟩
      · rintro (⟨earlier, later, rfl, hne⟩ | ⟨rfl, hr⟩)
        · exact ⟨earlier, later ++ [c'], by simp, hne⟩
        · exact ⟨calls, [], rfl, fun h0 => hr (hcall.mp h0)⟩
    rw [hsplit, ih, accepted_concat, accept]
    by_cases hr : Refused (accepted calls) c'
    · simp [hr]
    · simp [hr]

def AllShort (entries : List Registration) : Prop := ∀ c ∈ entries, c.name.1.length ≤ 63

lemma AllShort.take (h : AllShort entries) (hc : c ∈ entries) : c.name.1.take 63 = c.name.1 :=
  List.take_of_length_le (h c hc)

lemma subset_accept (entries : List Registration) (c : Registration) : entries ⊆ accept entries c := by
  unfold accept
  by_cases hr : Refused entries c
  · rw [if_pos hr]
    exact List.Subset.refl _
  · rw [if_neg hr]
    exact List.subset_append_left _ _

lemma mem_shortNames {name : CString} : name ∈ shortNames calls ↔
    (∃ c ∈ calls, c.name = name) ∧ name.1.length ≤ 63 := by
  simp [shortNames]

lemma accepted_subset (calls : List Registration) : accepted calls ⊆ calls := by
  induction calls using List.reverseRecOn with
  | nil => exact List.Subset.refl _
  | append_singleton calls c ih =>
    rw [accepted_concat, accept]
    by_cases hr : Refused (accepted calls) c
    · rw [if_pos hr]
      exact List.Subset.trans ih (List.subset_append_left _ _)
    · rw [if_neg hr]
      intro c' hc'
      rcases List.mem_append.mp hc' with hold | hnew
      · exact List.mem_append_left _ (ih hold)
      · exact List.mem_append_right _ hnew

lemma names_nodup (h : AllShort (accepted calls)) : ((accepted calls).map Registration.name).Nodup := by
  induction calls using List.reverseRecOn with
  | nil => exact List.nodup_nil
  | append_singleton calls c ih =>
    have hold : AllShort (accepted calls) := fun c' hc' =>
      h c' (by rw [accepted_concat]; exact subset_accept _ _ hc')
    rw [accepted_concat, accept]
    by_cases hr : Refused (accepted calls) c
    · rw [if_pos hr]
      exact ih hold
    · rw [if_neg hr, List.map_append, List.map_singleton, ← List.concat_eq_append]
      refine (ih hold).concat ?_
      rw [List.mem_map]
      rintro ⟨c', hc', hname⟩
      exact hr (Or.inl ⟨c', hc', by rw [hold.take hc', hname]⟩)

/-- Without a cut name, every shorter name has a slot or the slots are all taken. -/
lemma slots_of_short (h : AllShort (accepted calls)) : (accepted calls).length = 16 ∨
    ∀ name ∈ shortNames calls, name ∈ (accepted calls).map Registration.name := by
  induction calls using List.reverseRecOn with
  | nil => exact Or.inr fun name hname => by simp [shortNames] at hname
  | append_singleton calls c ih =>
    have hold : AllShort (accepted calls) := fun c' hc' =>
      h c' (by rw [accepted_concat]; exact subset_accept _ _ hc')
    rw [accepted_concat, accept]
    by_cases hr : Refused (accepted calls) c
    · rw [if_pos hr]
      rcases hr with ⟨c', hc', hname⟩ | hfull
      · refine (ih hold).imp_right fun hall name hmem => ?_
        rw [mem_shortNames] at hmem
        obtain ⟨⟨d, hd, rfl⟩, hlen⟩ := hmem
        rcases List.mem_append.mp hd with hd | hd
        · exact hall _ (mem_shortNames.mpr ⟨⟨d, hd, rfl⟩, hlen⟩)
        · obtain rfl : d = c := by simpa using hd
          exact List.mem_map.mpr ⟨c', hc', Subtype.ext (by rw [← hname, hold.take hc'])⟩
      · exact Or.inl hfull
    · rw [if_neg hr]
      rcases ih hold with hfull | hall
      · exact absurd (Or.inr hfull) hr
      · refine Or.inr fun name hmem => ?_
        rw [mem_shortNames] at hmem
        obtain ⟨⟨d, hd, rfl⟩, hlen⟩ := hmem
        rw [List.map_append, List.mem_append]
        rcases List.mem_append.mp hd with hd | hd
        · exact Or.inl (hall _ (mem_shortNames.mpr ⟨⟨d, hd, rfl⟩, hlen⟩))
        · exact Or.inr (List.mem_map.mpr ⟨d, hd, rfl⟩)

lemma accepted_room (calls : List Registration) : (accepted calls).length ≤ 16 :=
  (registry_run (Registry.boot fun _ => .zero) calls).room

lemma full_iff (h : AllShort (accepted calls)) :
    (accepted calls).length = 16 ↔ 16 ≤ (shortNames calls).card := by
  have hcard : ((accepted calls).map Registration.name).toFinset.card = (accepted calls).length := by
    rw [List.toFinset_card_of_nodup (names_nodup h), List.length_map]
  constructor
  · intro hfull
    rw [← hfull, ← hcard]
    refine Finset.card_le_card fun name hname => ?_
    obtain ⟨c, hc, rfl⟩ := List.mem_map.mp (List.mem_toFinset.mp hname)
    exact mem_shortNames.mpr ⟨⟨c, accepted_subset calls hc, rfl⟩, h c hc⟩
  · intro hmany
    rcases slots_of_short h with hfull | hall
    · exact hfull
    · have hle := Finset.card_le_card fun name hname => List.mem_toFinset.mpr (hall name hname)
      rw [hcard] at hle
      exact Nat.le_antisymm (accepted_room calls) (hmany.trans hle)

/-- The names are never cut just if each of the longer ones comes when the table is full. -/
theorem longNamesLate_iff : LongNamesLate calls ↔ AllShort (accepted calls) := by
  induction calls using List.reverseRecOn with
  | nil =>
    refine iff_of_true (fun earlier c later he => by simp at he) fun c hc => by simp [accepted] at hc
  | append_singleton calls c ih =>
    have hsplit : LongNamesLate (calls ++ [c]) ↔
        LongNamesLate calls ∧ (63 < c.name.1.length → 16 ≤ (shortNames calls).card) := by
      constructor
      · intro h
        refine ⟨fun earlier c' later he hlong => ?_, h calls c [] rfl⟩
        exact h earlier c' (later ++ [c]) (by simp [he]) hlong
      · rintro ⟨h, hlast⟩ earlier c' later he hlong
        rcases List.eq_nil_or_concat later with rfl | ⟨later, d, rfl⟩
        · obtain ⟨rfl, hc⟩ := List.append_inj' he rfl
          obtain rfl : c = c' := by simpa using hc
          exact hlast hlong
        · rw [List.concat_eq_append, ← List.cons_append, ← List.append_assoc] at he
          exact h earlier c' later (List.append_inj' he rfl).1 hlong
    rw [hsplit, ih, accepted_concat]
    constructor
    · rintro ⟨hold, hlast⟩ c' hc'
      rw [accept] at hc'
      by_cases hr : Refused (accepted calls) c
      · rw [if_pos hr] at hc'
        exact hold c' hc'
      · rw [if_neg hr] at hc'
        rcases List.mem_append.mp hc' with hc' | hc'
        · exact hold c' hc'
        · obtain rfl : c' = c := by simpa using hc'
          by_contra hlong
          exact hr (Or.inr ((full_iff hold).mpr (hlast (Nat.lt_of_not_le hlong))))
    · intro h
      have hold : AllShort (accepted calls) := fun c' hc' => h c' (subset_accept _ _ hc')
      refine ⟨hold, fun hlong => (full_iff hold).mp ?_⟩
      rw [accept] at h
      by_cases hr : Refused (accepted calls) c
      · rcases hr with ⟨c', -, hname⟩ | hfull
        · have hcut := congrArg List.length hname
          rw [List.length_take] at hcut
          omega
        · exact hfull
      · rw [if_neg hr] at h
        exact absurd (h c (by simp)) (Nat.not_le_of_lt hlong)

end Sequences

section Laws

/-- Without a cut name, the registry is a map. -/
theorem classMap_of_short (h : Registry os []) (hs : AllShort (accepted calls)) : ClassMap os calls where
  created c hc args hargs hfree := by
    rw [registered_iff h] at hc
    have hreg := registry_run h calls
    obtain ⟨k, hk⟩ := Option.isSome_iff_exists.mp ((hreg.find_isSome c.name).mpr ⟨c, hc, hs.take hc⟩)
    obtain ⟨c', hget, hname⟩ := hreg.find_some hk
    have hc' : c' ∈ accepted calls := List.mem_of_getElem? hget
    rw [hs.take hc'] at hname
    obtain rfl : c' = c := List.inj_on_of_nodup_map (names_nodup hs) hc' hc (Subtype.ext hname)
    rcases create_spec (os.registerAll calls) args with ⟨-, hnone⟩ | ⟨k', i, hk', -, hcall⟩
    · rw [hargs, hk] at hnone
      obtain ⟨i, hi⟩ := hfree
      have huse := freeSlot_none (hnone.resolve_left (by simp)) i
      rw [hi] at huse
      cases huse
    · rw [hargs, hk] at hk'
      obtain rfl : k = k' := by simpa using hk'
      refine ⟨i, k, by rw [hcall], by simp [hcall, CreateArgs.window, newWindow],
        by simp [hcall, CreateArgs.window, newWindow], ?_⟩
      simpa [hcall] using (hreg.used k c' hget).2.1
  refused c hc proc := by
    rw [registered_iff h] at hc
    exact ((registry_run h calls).register ⟨c.name, proc⟩).2.mpr (Or.inl ⟨c, hc, hs.take hc⟩)
  unknown name hname args hargs := by
    have hreg := registry_run h calls
    have hnone : findClassByName (os.registerAll calls) (some name.1) = none := by
      rw [← Option.not_isSome_iff_eq_none, hreg.find_isSome]
      rintro ⟨c, hc, hcut⟩
      rw [hs.take hc] at hcut
      obtain rfl : c.name = name := Subtype.ext hcut
      exact hname c.proc ((registered_iff h c).mpr hc)
    rcases create_spec (os.registerAll calls) args with ⟨hcall, -⟩ | ⟨k, i, hk, -, -⟩
    · rw [hcall]
    · rw [hargs, hnone] at hk
      cases hk

lemma not_classMap (h : Registry os []) (hfree : ∃ i, ((os.registerAll calls).windows i).inUse = false)
    (hc : c ∈ accepted calls) (hlong : 63 < c.name.1.length) : ¬ClassMap os calls := by
  intro hmap
  let args : CreateArgs := ⟨0, some c.name.1, none, 0, 0, 0, 0, 0⟩
  obtain ⟨i, k, hcreate, -⟩ := hmap.created c ((registered_iff h c).mpr hc) args rfl hfree
  rcases create_spec (os.registerAll calls) args with ⟨hcall, -⟩ | ⟨k, i, hk, -, -⟩
  · rw [hcall] at hcreate
    cases hcreate
  · obtain ⟨c', -, hname⟩ := (registry_run h calls).find_some hk
    have hlen := congrArg List.length hname
    rw [List.length_take] at hlen
    omega

lemma registerAll_windows (os : Os) (calls : List Registration) : (os.registerAll calls).windows = os.windows := by
  induction calls using List.reverseRecOn with
  | nil => rfl
  | append_singleton calls c ih =>
    rw [registerAll_concat, ← ih]
    have hspec := register_spec (os.registerAll calls) (some ⟨some c.proc, some c.name.1⟩)
    rcases hspec with hsame | ⟨k, proc, name, -, hcall⟩
    · rw [Os.register, hsame]
    · rw [Os.register, hcall]

/-- The registry is a map by name, whatever windows there are, just if no longer name is given a slot. -/
theorem class_map_iff (calls : List Registration) :
    (∀ windows, ClassMap { Os.boot with windows := windows } calls) ↔ LongNamesLate calls := by
  rw [longNamesLate_iff]
  constructor
  · intro h c hc
    by_contra hlong
    refine not_classMap (Registry.boot fun _ => .zero) ⟨0, ?_⟩ hc (Nat.lt_of_not_le hlong) (h _)
    rw [registerAll_windows]
    rfl
  · exact fun hs windows => classMap_of_short (Registry.boot windows) hs

/-- A name of 64 characters is registered, and no window of its class can be created. -/
theorem class_map_long : ¬ClassMap Os.boot [⟨⟨List.replicate 64 97, by decide⟩, 1⟩] :=
  not_classMap (c := ⟨⟨List.replicate 64 97, by decide⟩, 1⟩) (Registry.boot fun _ => .zero)
    ⟨0, by rw [registerAll_windows]; rfl⟩ (by decide) (by decide)

end Laws

end SBoy28.Windows
