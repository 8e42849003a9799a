import SBoy28.Fat32.Agreement
import SBoy28.Fat32.Mount

/-!
# Free clusters and the contents of files

Two volumes that only differ in free clusters are run side by side. What the calls return does not
depend on those bytes, and what they read does not either, as long as no write starts behind the end
of its file.
-/

namespace SBoy28.Fat32
open Lib

variable {g : FSMount} {fuel : ℕ} {v w : Volume} {fam : Family} {h : ℕ} {r : Request} {o : Owner}
  {disk disk' : Memory} {file : FSFile} {d : Slot}

section Relation

/-- The same handles, FATs and directories. -/
structure SameMeta (g : FSMount) (fam : Family) (v w : Volume) : Prop where
  files : w.files = v.files
  low : ∀ a < dataBase g, w.disk a = v.disk a
  dirs : ∀ o, Alive g v.disk fam o → isDir g v.disk o = true → ∀ c ∈ chainOf g v.disk fam o, ∀ a,
    InData g c a → w.disk a = v.disk a

/-- The same contents of a file, up to the size in its entry and up to that of every handle on it. -/
structure SameFile (g : FSMount) (fam : Family) (d : Slot) (v w : Volume) : Prop where
  entry : Alive g v.disk fam (some d) → ∀ i < (entryAt g v.disk d).fileSize.toNat,
    content g w.disk (chainOf g v.disk fam (some d)) i = content g v.disk (chainOf g v.disk fam (some d)) i
  handle : ∀ h, (v.files h).valid = true → (v.files h).slot = d → ∀ i < (v.files h).size.toNat,
    content g w.disk (fam (v.files h).firstCluster) i = content g v.disk (fam (v.files h).firstCluster) i

namespace SameMeta

variable (hs : SameMeta g fam v w) (hc : Consistent g v fam)

include hs hc

lemma slot_eq (hg : Geometry g) (ho : Alive g v.disk fam o) (hdir : isDir g v.disk o = true) {d : Slot}
    (hd : d ∈ slots g (chainOf g v.disk fam o)) : entryAt g w.disk d = entryAt g v.disk d := by
  obtain ⟨-, -, -, c, hcc, hin⟩ := mem_slots hg (hc.fat.range _) hd
  exact entryAt_congr (fun i hi => hs.dirs o ho hdir c hcc _ (hin i hi))

lemma entry_eq (hg : Geometry g) {d : Slot} (hd : Alive g v.disk fam (some d)) :
    entryAt g w.disk d = entryAt g v.disk d := by
  obtain ⟨o, ho, hdir, hslot⟩ := hd.slot
  exact hs.slot_eq hc hg ho hdir hslot

lemma firstOf_eq (hg : Geometry g) (ho : Alive g v.disk fam o) : firstOf g w.disk o = firstOf g v.disk o := by
  cases o with
  | none => rfl
  | some d => rw [firstOf, firstOf, hs.entry_eq hc hg ho]

/-- The same directory tree. -/
theorem sameTree (hg : Geometry g) :
    SameTree g v.disk w.disk (chainOf g v.disk fam) (chainOf g w.disk fam) where
  chain o ho _ := by rw [chainOf, hs.firstOf_eq hc hg ho, chainOf]
  entry o ho hdir d hd := by
    rw [hs.slot_eq hc hg ho hdir hd]
    exact ⟨rfl, rfl⟩

/-- The other volume is consistent, with the same chains. -/
theorem consistent (hg : Geometry g) : Consistent g w fam := by
  have htree := hs.sameTree hc hg
  refine ⟨hc.fat.congr hg hs.low, hc.head, hc.root, ?_, ?_, ?_, ?_⟩
  · intro d hd
    have hd' := (htree.live _).mp hd
    rw [hs.entry_eq hc hg hd']
    exact hc.entry d hd'
  · intro o o' ho ho' he hne
    have hlive := (htree.live _).mp ho
    have hlive' := (htree.live _).mp ho'
    rw [hs.firstOf_eq hc hg hlive] at he hne
    rw [hs.firstOf_eq hc hg hlive'] at he
    exact hc.entriesApart o o' hlive hlive' he hne
  · intro h hv
    rw [hs.files] at hv ⊢
    have hok := hc.handle h hv
    have hentry := hs.entry_eq hc hg hok.live
    refine ⟨(htree.live _).mpr hok.live, by rw [hentry]; exact hok.isFile, hok.first, hok.size, ?_,
      by rw [hentry]; exact hok.writable⟩
    intro o ho he hne
    have ho' := (htree.live _).mp ho
    rw [hs.firstOf_eq hc hg ho'] at he
    exact hok.own o ho' he hne
  · rw [hs.files]
    exact hc.handlesApart

omit hc in
/-- Steps that keep equal bytes equal and the directories in place. -/
theorem step {v' w' : Volume} {fam' : Family} (hfiles : w'.files = v'.files)
    (htree : SameTree g v.disk v'.disk (chainOf g v.disk fam) (chainOf g v'.disk fam'))
    (hcloser : ∀ a, w.disk a = v.disk a → w'.disk a = v'.disk a) : SameMeta g fam' v' w' where
  files := hfiles
  low a ha := hcloser a (hs.low a ha)
  dirs o ho hdir c hcc a ha := by
    have ho' := (htree.live _).mp ho
    have hdir' := htree.isDir ho'
    rw [hdir] at hdir'
    rw [htree.chain o ho' hdir'.symm] at hcc
    exact hcloser a (hs.dirs o ho' hdir'.symm c hcc a ha)

end SameMeta

end Relation

section Specification

/-- The return code of a call. -/
def returnCode : Outcome FSErr Reply → Outcome FSErr Unit
  | .ok _ => .ok ()
  | .error e => .error e
  | .spin => .spin

/-- The volume after a sequence of calls. -/
def Volume.after (g : FSMount) (fuel : ℕ) (v : Volume) (calls : List (ℕ × Request)) : Volume :=
  calls.foldl (fun v c => (callOn g fuel v c.1 c.2).2) v

/-- A write of some bytes to file `d` does not start behind the end of the file. -/
def WritesInside (d : Slot) (v : Volume) (h : ℕ) : Request → Prop
  | .write _ n => Writing v h → (v.files h).slot = d → n ≠ 0 → (v.files h).position ≤ (v.files h).size
  | _ => True

/-- No write of the sequence to file `d` starts behind the end of the file. -/
def Gapless (g : FSMount) (fuel : ℕ) (d : Slot) : Volume → List (ℕ × Request) → Prop
  | _, [] => True
  | v, (h, r) :: calls => WritesInside d v h r ∧ Gapless g fuel d (callOn g fuel v h r).2 calls

/-- The two contents of the device differ in clusters whose FAT entry is 0, and nowhere else. -/
def DiffersInFree (g : FSMount) (disk disk' : Memory) : Prop :=
  ∀ a, disk' a ≠ disk a → ∃ c, InRange g c ∧ fatValue g disk c = 0 ∧ InData g c a

/-- The calls return the same code and keep the volumes alike. They return the same bytes if `Q` holds,
and keep file `d` alike if `P` holds. -/
def Matches (g : FSMount) (d : Slot) (Q P : Prop) (x y : Outcome FSErr Reply × Volume) : Prop :=
  returnCode y.1 = returnCode x.1 ∧ (Q → y.1 = x.1) ∧
    ∃ fam, Consistent g x.2 fam ∧ SameMeta g fam x.2 y.2 ∧ (P → SameFile g fam d x.2 y.2)

end Specification

section Calls

variable {P Q : Prop} {out : Outcome FSErr Reply}

lemma SameMeta.setFile (hs : SameMeta g fam v w) (h : ℕ) (file : FSFile) :
    SameMeta g fam (v.setFile h file) (w.setFile h file) where
  files := by rw [Volume.setFile, Volume.setFile, hs.files]
  low := hs.low
  dirs := hs.dirs

lemma SameFile.setFile (hs : SameFile g fam d v w) (h : ℕ) (hfile : file.valid = true → file.slot = d →
    ∀ i < file.size.toNat, content g w.disk (fam file.firstCluster) i =
      content g v.disk (fam file.firstCluster) i) :
    SameFile g fam d (v.setFile h file) (w.setFile h file) where
  entry := hs.entry
  handle h' hv := by
    by_cases hh : h' = h
    · subst hh
      simp only [Volume.setFile, Function.update_self] at hv ⊢
      exact hfile hv
    · simp only [Volume.setFile, Function.update_of_ne hh] at hv ⊢
      exact hs.handle h' hv

lemma matches_same (hc : Consistent g v fam) (hs : SameMeta g fam v w) (hP : P → SameFile g fam d v w) :
    Matches g d Q P (out, v) (out, w) := ⟨rfl, fun _ => rfl, fam, hc, hs, hP⟩

lemma matches_setFile {out' : Outcome FSErr Reply} (hs : SameMeta g fam v w)
    (hc : Consistent g (v.setFile h file) fam) (hcode : returnCode out' = returnCode out)
    (hout : Q → out' = out) (hP : P → SameFile g fam d v w)
    (hfile : P → file.valid = true → file.slot = d → ∀ i < file.size.toNat,
      content g w.disk (fam file.firstCluster) i = content g v.disk (fam file.firstCluster) i) :
    Matches g d Q P (out, v.setFile h file) (out', w.setFile h file) :=
  ⟨hcode, hout, fam, hc, hs.setFile h file, fun hp => (hP hp).setFile h (hfile hp)⟩

end Calls

section Steps

variable {P Q : Prop}

lemma SameMeta.openOutcome_eq (hs : SameMeta g fam v w) (hg : Geometry g) (hc : Consistent g v fam)
    (hfuel : g.clusterCount.toNat < fuel) (path : List UInt8) (mode : UInt8) :
    openOutcome g w.disk fuel path mode = openOutcome g v.disk fuel path mode := by
  have htree := hs.sameTree hc hg
  have hpath : pathOutcome g w.disk fuel path = pathOutcome g v.disk fuel path := by
    rw [hc.tree.pathOutcome_eq hg hfuel, (hs.consistent hc hg).tree.pathOutcome_eq hg hfuel,
      htree.walkPath _ Live.root (Or.inr rfl)]
    cases hwalk : walkPath g v.disk (chainOf g v.disk fam) (path.length + 1) path none with
    | none => rfl
    | some o =>
      have hfound : foundOf g w.disk o = foundOf g v.disk o := by
        cases o with
        | none => rfl
        | some d =>
          have hd := walkPath_live _ Live.root (Or.inr rfl) hwalk
          rw [foundOf, foundOf, foundAt, foundAt, hs.entry_eq hc hg hd]
      simp only [hfound]
  rw [openOutcome, openOutcome, hpath]

lemma matches_open (hg : Geometry g) (hc : Consistent g v fam) (hfuel : g.clusterCount.toNat < fuel)
    (hs : SameMeta g fam v w) (hP : P → SameFile g fam d v w) (path : List UInt8) (mode : UInt8) :
    Matches g d Q P (callOn g fuel v h (.openFile path mode)) (callOn g fuel w h (.openFile path mode)) := by
  rw [callOn_openFile, callOn_openFile, hs.openOutcome_eq hg hc hfuel]
  cases ho : openOutcome g v.disk fuel path mode with
  | error e => exact matches_same hc hs hP
  | spin => exact matches_same hc hs hP
  | ok file =>
    obtain ⟨d', hlive, hfile, hwritable, hpath, rfl⟩ := hc.tree.openOutcome_ok hg hfuel ho
    have hcons := (Change.opened (h := h) hlive hfile hwritable hpath).consistent hg hc
    refine matches_setFile hs hcons rfl (fun _ => rfl) hP ?_
    rintro hp - rfl
    exact (hP hp).entry hlive

lemma matches_seek (hg : Geometry g) (hc : Consistent g v fam) (hs : SameMeta g fam v w)
    (hP : P → SameFile g fam d v w) (position : UInt32) :
    Matches g d Q P (callOn g fuel v h (.seek position)) (callOn g fuel w h (.seek position)) := by
  rw [callOn_seek, callOn_seek, hs.files]
  by_cases hv : (v.files h).valid = true
  · rw [if_pos hv, if_pos hv]
    have hch : Change g fam v h (.seek position) _ _ _ := Change.moved hv
    have hcons := hch.consistent hg hc
    exact matches_setFile hs hcons rfl (fun _ => rfl) hP (fun hp _ => (hP hp).handle h hv)
  · rw [if_neg hv, if_neg hv]
    exact matches_same hc hs hP

lemma bytesRead_congr (hsame : ∀ i < file.size.toNat, content g disk' (fam file.firstCluster) i =
    content g disk (fam file.firstCluster) i) (out : Memory) (n : UInt32) :
    bytesRead g fam disk' file out n = bytesRead g fam disk file out n := by
  rw [bytesRead, bytesRead]
  congr 1
  apply copyTo_congr
  intro i hi
  exact hsame _ (by omega)

/-- `fs_read` returns the same bytes if the files are alike. -/
lemma matches_read (hg : Geometry g) (hm : g.mounted = true) (hc : Consistent g v fam)
    (hs : SameMeta g fam v w) (hQ : Q → SameFile g fam d v w ∧ (v.files h).slot = d)
    (hP : P → SameFile g fam d v w) (out : Memory) (n : UInt32) :
    Matches g d Q P (callOn g fuel v h (.read out n)) (callOn g fuel w h (.read out n)) := by
  rw [callOn_read fuel hg hm hc, callOn_read fuel hg hm (hs.consistent hc hg), hs.files]
  by_cases hv : (v.files h).valid = false
  · rw [if_pos hv, if_pos hv]
    exact matches_same hc hs hP
  · rw [if_neg hv, if_neg hv]
    by_cases hr : (v.files h).canRead = false
    · rw [if_pos hr, if_pos hr]
      exact matches_same hc hs hP
    · rw [if_neg hr, if_neg hr]
      have hv : (v.files h).valid = true := by simpa using hv
      have hch : Change g fam v h (.read out n) _ _ _ := Change.read hv (by simpa using hr) rfl
      have hcons := hch.consistent hg hc
      refine matches_setFile hs hcons rfl ?_ hP (fun hp _ => (hP hp).handle h hv)
      intro hq
      obtain ⟨hfile, hslot⟩ := hQ hq
      have hbytes := bytesRead_congr (hfile.handle h hv hslot) out n
      rw [hbytes]

lemma putEntry_closer {a : ℕ} (ha : disk' a = disk a) : putEntry g disk' file a = putEntry g disk file a := by
  simp only [putEntry, storeAt, store16, store32, ha]

lemma matches_close (hg : Geometry g) (hm : g.mounted = true) (hc : Consistent g v fam)
    (hs : SameMeta g fam v w) (hP : P → SameFile g fam d v w) :
    Matches g d Q P (callOn g fuel v h .close) (callOn g fuel w h .close) := by
  rw [callOn_close fuel hg hm hc, callOn_close fuel hg hm (hs.consistent hc hg), hs.files]
  by_cases hv : (v.files h).valid = false
  · rw [if_pos hv, if_pos hv]
    exact matches_same hc hs hP
  · rw [if_neg hv, if_neg hv]
    have hv : (v.files h).valid = true := by simpa using hv
    by_cases hw : (v.files h).canWrite = false
    · rw [if_pos hw, if_pos hw]
      have hcons := (Change.released hv hw).consistent hg hc
      exact matches_setFile hs hcons rfl (fun _ => rfl) hP (fun _ hn => absurd hn (by simp))
    · rw [if_neg hw, if_neg hw]
      have hok := hc.handle h hv
      have htree := hc.sameTree_close hok hg
      refine ⟨rfl, fun _ => rfl, fam, hc.close hg hv, hs.step rfl htree (fun _ ha => putEntry_closer ha), ?_⟩
      intro hp
      refine ⟨?_, ?_⟩
      · intro hd i hi
        have hlive := (htree.live _).mp hd
        have hfirst := hc.firstOf_close hok hg hlive
        apply putEntry_closer
        by_cases hslot : d = (v.files h).slot
        · subst hslot
          rw [if_pos rfl] at hfirst
          rw [entryAt_putEntry] at hi
          rw [chainOf, hfirst]
          exact (hP hp).handle h hv rfl i hi
        · rw [if_neg (fun he => hslot (Option.some.inj he))] at hfirst
          rw [hc.liveEntry_close hok hg hlive hslot] at hi
          rw [chainOf, hfirst]
          exact (hP hp).entry hlive i hi
      · intro h' hv' hd i hi
        apply putEntry_closer
        by_cases hh : h' = h
        · subst hh
          simp at hv'
        · simp only [Function.update_of_ne hh] at hv' hd hi ⊢
          exact (hP hp).handle h' hv' hd i hi

/-- A write takes the same clusters on both volumes. -/
lemma write_pair (fuel : ℕ) (hg : Geometry g) (hm : g.mounted = true) (hc : Consistent g v fam)
    (hs : SameMeta g fam v w) (hw : Writing v h) (data : Memory) (n : UInt32) :
    ∃ s' t' l' k out,
      callOn g fuel v h (.write data n) = (out, ⟨s'.disk, Function.update v.files h s'.file⟩) ∧
      callOn g fuel w h (.write data n) = (out, ⟨t'.disk, Function.update w.files h t'.file⟩) ∧
      SameFat g s' t' ∧ k ≤ n.toNat ∧
      Wrote g fam (v.files h).firstCluster ⟨v.disk, v.files h⟩ s' l' data k ∧
      Wrote g fam (v.files h).firstCluster ⟨w.disk, v.files h⟩ t' l' data k := by
  have hst : SameFat g ⟨v.disk, v.files h⟩ ⟨w.disk, v.files h⟩ := ⟨rfl, hs.low⟩
  have hhead := (hc.handle h hw.1).first
  obtain ⟨s', l', k, hwrote, -, hres⟩ :=
    run_fsWrite (s := ⟨v.disk, v.files h⟩) hg hm hc.fat hw.1 hw.2 hhead data n
  obtain ⟨t', l'', k', hwrote', -, hres'⟩ :=
    run_fsWrite (s := ⟨w.disk, v.files h⟩) hg hm (hs.consistent hc hg).fat hw.1 hw.2 hhead data n
  have hrun : ∃ o, (fsWrite g data n).run (handler g) ⟨v.disk, v.files h⟩ = (o, s') ∧ k ≤ n.toNat := by
    rcases hres with ⟨hk, hrun⟩ | ⟨hk, -, hrun⟩
    · exact ⟨_, hrun, by omega⟩
    · exact ⟨_, hrun, by omega⟩
  have hrun' : ∃ o, (fsWrite g data n).run (handler g) ⟨w.disk, v.files h⟩ = (o, t') := by
    rcases hres' with ⟨-, hrun⟩ | ⟨-, -, hrun⟩
    · exact ⟨_, hrun⟩
    · exact ⟨_, hrun⟩
  obtain ⟨o, hrun, hk⟩ := hrun
  obtain ⟨o', hrun'⟩ := hrun'
  have halike := hst.fsWrite hg hm hc.fat hhead data n
  rw [hrun, hrun'] at halike
  obtain ⟨rfl, hst'⟩ := halike
  obtain ⟨rfl, rfl⟩ := hwrote.same hg hst hst' hwrote'
  rw [← hs.files] at hrun'
  exact ⟨s', t', l'', k', _, callOn_write hrun, callOn_write hrun', hst', hk, hwrote, hwrote'⟩

lemma sameFile_write {s' t' : State} {l' : List UInt32} {data : Memory} {k : ℕ} (hg : Geometry g)
    (hc : Consistent g v fam) (hfile : SameFile g fam d v w) (hw : Writing v h)
    (hst : SameFat g ⟨v.disk, v.files h⟩ ⟨w.disk, v.files h⟩) (hst' : SameFat g s' t')
    (hwrote : Wrote g fam (v.files h).firstCluster ⟨v.disk, v.files h⟩ s' l' data k)
    (hwrote' : Wrote g fam (v.files h).firstCluster ⟨w.disk, v.files h⟩ t' l' data k)
    (hinside : (v.files h).slot = d → k ≠ 0 → (v.files h).position ≤ (v.files h).size) :
    SameFile g (Function.update fam s'.file.firstCluster l') d
      ⟨s'.disk, Function.update v.files h s'.file⟩ ⟨t'.disk, Function.update w.files h t'.file⟩ := by
  have hr := hc.rewritten hw.1 hwrote
  have htree := hc.sameTree_write hw.1 hg hwrote
  -- what a file had before, its longer chain still has
  have hkept : ∀ {l₀ l₁ : List UInt32}, l₀ <+: l₁ → ∀ {i : ℕ}, i < l₀.length * clusterBytes g →
      content g w.disk l₀ i = content g v.disk l₀ i → content g t'.disk l₁ i = content g s'.disk l₁ i := by
    intro l₀ l₁ hpre i hi hsame
    rw [content, content, contentAddr_prefix hg hpre hi]
    exact hwrote.closer hg hst hst' hwrote' hsame
  refine ⟨?_, ?_⟩
  · intro hd i hi
    have hlive := (htree.live _).mp hd
    simp only [hc.liveEntry_write hw.1 hg hwrote hlive] at hi
    have hsize := (hc.entry d hlive).size
    simp only [chainOf, hc.firstOf_write hw.1 hg hwrote hlive]
    exact hkept (hr.mono _) (Nat.lt_of_lt_of_le hi hsize) (hfile.entry hlive i hi)
  · intro h' hv' hd i hi
    by_cases hh : h' = h
    · subst hh
      simp only [Function.update_self] at hd hi ⊢
      have hd : (v.files h').slot = d := by rwa [hwrote.file] at hd
      have hok := hc.handle h' hw.1
      by_cases hold : i < (v.files h').size.toNat
      · exact hkept hwrote.pre (Nat.lt_of_lt_of_le hold hok.size) (hfile.handle h' hw.1 hd i hold)
      · -- a byte behind the old end has just been written
        have hsize := hwrote.size
        have hroom := hwrote.room
        simp only at hsize hroom
        by_cases hk : k = 0
        · rw [if_pos hk] at hsize
          omega
        · rw [if_neg hk] at hsize
          have hle := UInt32.le_iff_toNat_le.mp (hinside hd hk)
          have hlt : i < l'.length * clusterBytes g := by omega
          obtain ⟨j, rfl⟩ := Nat.exists_eq_add_of_le (show (v.files h').position.toNat ≤ i by omega)
          rw [hwrote.bytes _ hlt, hwrote'.bytes _ hlt, copyTo_inside _ _ _ _ _ (by omega),
            copyTo_inside _ _ _ _ _ (by omega)]
    · simp only [Function.update_of_ne hh] at hv' hd hi ⊢
      exact hkept (hr.mono _) (Nat.lt_of_lt_of_le hi (hc.handle h' hv').size) (hfile.handle h' hv' hd i hi)

lemma matches_write (hg : Geometry g) (hm : g.mounted = true) (hc : Consistent g v fam)
    (hs : SameMeta g fam v w) (data : Memory) (n : UInt32)
    (hP : P → SameFile g fam d v w ∧ WritesInside d v h (.write data n)) :
    Matches g d Q P (callOn g fuel v h (.write data n)) (callOn g fuel w h (.write data n)) := by
  by_cases hw : Writing v h
  · obtain ⟨s', t', l', k, out, hcall, hcall', hst', hk, hwrote, hwrote'⟩ :=
      write_pair fuel hg hm hc hs hw data n
    have hst : SameFat g ⟨v.disk, v.files h⟩ ⟨w.disk, v.files h⟩ := ⟨rfl, hs.low⟩
    rw [hcall, hcall']
    refine ⟨rfl, fun _ => rfl, _, hc.write hw.1 hg hwrote, ?_, ?_⟩
    · exact hs.step (by rw [hs.files, hst'.file]) (hc.sameTree_write hw.1 hg hwrote)
        (fun _ ha => hwrote.closer hg hst hst' hwrote' ha)
    · intro hp
      obtain ⟨hfile, hinside⟩ := hP hp
      apply sameFile_write hg hc hfile hw hst hst' hwrote hwrote'
      intro hslot hne
      apply hinside hw hslot
      rintro rfl
      simp at hk
      omega
  · have hw' : ¬Writing w h := by
      rw [Writing, hs.files]
      exact hw
    rw [callOn_write_refused hm hw, callOn_write_refused hm hw', hs.files]
    exact matches_same hc hs (fun hp => (hP hp).1)

/-- One call on each of the two volumes. -/
theorem matches_call (hg : Geometry g) (hm : g.mounted = true) (hfuel : g.clusterCount.toNat < fuel)
    (hc : Consistent g v fam) (hs : SameMeta g fam v w) (hr : ∀ path n, r ≠ .listDir path n)
    (hQ : Q → SameFile g fam d v w ∧ (v.files h).slot = d)
    (hP : P → SameFile g fam d v w ∧ WritesInside d v h r) :
    Matches g d Q P (callOn g fuel v h r) (callOn g fuel w h r) := by
  have hfile : P → SameFile g fam d v w := fun hp => (hP hp).1
  cases r with
  | openFile path mode => exact matches_open hg hc hfuel hs hfile path mode
  | seek position => exact matches_seek hg hc hs hfile position
  | read out n => exact matches_read hg hm hc hs hQ hfile out n
  | write data n => exact matches_write hg hm hc hs data n hP
  | close => exact matches_close hg hm hc hs hfile
  | listDir path n => exact absurd rfl (hr path n)

/-- A sequence of calls keeps the volumes alike, and a file too if no write to it leaves a gap. -/
theorem same_after (hg : Geometry g) (hm : g.mounted = true) (hfuel : g.clusterCount.toNat < fuel)
    {calls : List (ℕ × Request)} (hcalls : ∀ c ∈ calls, ∀ path n, c.2 ≠ .listDir path n)
    (hc : Consistent g v fam) (hs : SameMeta g fam v w) (hP : P → SameFile g fam d v w)
    (hgap : P → Gapless g fuel d v calls) :
    ∃ fam', Consistent g (v.after g fuel calls) fam' ∧
      SameMeta g fam' (v.after g fuel calls) (w.after g fuel calls) ∧
      (P → SameFile g fam' d (v.after g fuel calls) (w.after g fuel calls)) := by
  induction calls generalizing v w fam with
  | nil => exact ⟨fam, hc, hs, hP⟩
  | cons c calls ih =>
    obtain ⟨h, r⟩ := c
    have hr := hcalls (h, r) (by simp)
    obtain ⟨-, -, fam', hc', hs', hP'⟩ :=
      matches_call (Q := False) hg hm hfuel hc hs hr (fun hq => hq.elim) (fun hp => ⟨hP hp, (hgap hp).1⟩)
    exact ih (fun c hmem => hcalls c (by simp [hmem])) hc' hs' hP' (fun hp => (hgap hp).2)

end Steps

section Runs

variable {files : ℕ → FSFile}

lemma DiffersInFree.same (hfree : DiffersInFree g disk disk') (hfat : FatOk g disk fam) {o c : UInt32}
    (hc : c ∈ fam o) {a : ℕ} (ha : InData g c a) : disk' a = disk a := by
  by_contra hne
  obtain ⟨c', hr', hzero, ha'⟩ := hfree a hne
  have hr := hfat.range o c hc
  obtain rfl : c = c' := InData.unique hr hr' ha ha'
  exact (hfat.family.chain o).2 c hc ((fatValue_eq_zero_iff hr).mp hzero)

lemma DiffersInFree.low (hfree : DiffersInFree g disk disk') {a : ℕ} (ha : a < dataBase g) :
    disk' a = disk a := by
  by_contra hne
  obtain ⟨c, -, -, hin⟩ := hfree a hne
  have hge := hin.ge
  omega

lemma DiffersInFree.sameMeta (hfree : DiffersInFree g disk disk') (hfat : FatOk g disk fam) :
    SameMeta g fam ⟨disk, files⟩ ⟨disk', files⟩ where
  files := rfl
  low _ ha := hfree.low ha
  dirs _ _ _ _ hc _ ha := hfree.same hfat hc ha

lemma DiffersInFree.sameFile (hfree : DiffersInFree g disk disk') (hw : WellFormed g disk fam)
    (hclosed : ∀ h, (files h).valid = false) (d : Slot) :
    SameFile g fam d ⟨disk, files⟩ ⟨disk', files⟩ where
  entry hd i hi := by
    have hsize := (hw.entry d hd).size
    obtain ⟨c, hc, hin⟩ := contentAddr_inData hw.geometry (Nat.lt_of_lt_of_le hi hsize)
    exact hfree.same hw.fat hc hin
  handle h hv := absurd hv (by simp [hclosed h])

/-- Whatever free clusters hold, the volume is well formed. -/
theorem WellFormed.differsInFree (hw : WellFormed g disk fam) (hfree : DiffersInFree g disk disk') :
    WellFormed g disk' fam := by
  have hg := hw.geometry
  let files : ℕ → FSFile := fun _ => ⟨0, 0, 0, 0, 0, 0, false⟩
  have hc : Consistent g ⟨disk, files⟩ fam := hw.consistent (fun _ => rfl)
  have hs : SameMeta g fam ⟨disk, files⟩ ⟨disk', files⟩ := hfree.sameMeta hw.fat
  have hc' := hs.consistent hc hg
  refine ⟨hw.mount, hw.layout, hc'.fat, hc'.head, hc'.root, hc'.entry, hc'.entriesApart, ?_⟩
  intro c hne
  obtain ⟨o, ho, rfl⟩ := hw.reached c hne
  exact ⟨o, ((hs.sameTree hc hg).live o).mpr ho, hs.firstOf_eq hc hg ho⟩

/-- Two volumes that differ in free clusters return the same codes, in every sequence of calls. They
return the same bytes of a file as long as no write to the file starts behind its end. -/
theorem no_disclosure (hw : WellFormed g disk fam) (hfuel : g.clusterCount.toNat < fuel)
    (hfree : DiffersInFree g disk disk') (hclosed : ∀ h, (files h).valid = false)
    (calls : List (ℕ × Request)) (hcalls : ∀ c ∈ calls, ∀ path n, c.2 ≠ .listDir path n) (h : ℕ)
    (hr : ∀ path n, r ≠ .listDir path n)
    (hv : v = Volume.after g fuel ⟨disk, files⟩ calls)
    (hw' : w = Volume.after g fuel ⟨disk', files⟩ calls) :
    (callOn g fuel v h r).1 ≠ .spin ∧
      returnCode (callOn g fuel w h r).1 = returnCode (callOn g fuel v h r).1 ∧
      (Gapless g fuel (v.files h).slot ⟨disk, files⟩ calls →
        (callOn g fuel w h r).1 = (callOn g fuel v h r).1) := by
  obtain ⟨fam', hc, hs, hP⟩ := same_after (d := (v.files h).slot)
    (P := Gapless g fuel (v.files h).slot ⟨disk, files⟩ calls) hw.geometry hw.mounted hfuel hcalls
    (hw.consistent hclosed) (hfree.sameMeta hw.fat) (fun _ => hfree.sameFile hw hclosed _) (fun hp => hp)
  rw [← hv, ← hw'] at hs hP
  rw [← hv] at hc
  obtain ⟨fam'', hch⟩ := hc.does hw.geometry hw.mounted hfuel h r
  obtain ⟨hcode, hout, -⟩ := matches_call (P := False) hw.geometry hw.mounted hfuel hc hs hr
    (fun hq => ⟨hP hq, rfl⟩) (fun hp => hp.elim)
  exact ⟨hch.returns hr, hcode, hout⟩

/-- The first byte that a call has read. -/
def firstByte : Outcome FSErr Reply → UInt8
  | .ok (.bytes _ out) => out 0
  | _ => 0

/-- The formatted volume with a byte left in a free cluster. -/
def staleDisk : Memory := fun a => if a = 525312 then 1 else formattedDisk a

lemma stale_differsInFree : DiffersInFree formattedMount formattedDisk staleDisk := by
  intro a ha
  have hr : InRange formattedMount 3 := formatted_inRange.mpr (by decide)
  refine ⟨3, hr, by rw [formatted_fatValue hr]; rfl, ?_⟩
  obtain rfl : a = 525312 := by
    by_contra hn
    exact ha (if_neg hn)
  constructor
  · decide +kernel
  · decide +kernel

/-- A byte is written to `/A`, and the handle moved back. -/
def filledCalls : List (ℕ × Request) :=
  [(0, .openFile pathA 3), (0, .write (fun _ => 7) 1), (0, .seek 0)]

/-- The byte is written behind the end of the file. -/
def gapCalls : List (ℕ × Request) :=
  [(0, .openFile pathA 3), (0, .seek 5), (0, .write (fun _ => 7) 1), (0, .seek 0)]

/-- Reading the byte that has been written. -/
theorem no_disclosure_filled :
    (callOn formattedMount 65526 (Volume.after formattedMount 65526 ⟨staleDisk, formattedVolume.files⟩
        filledCalls) 0 (.read (fun _ => 0) 1)).1 =
      (callOn formattedMount 65526 (formattedAfter filledCalls) 0 (.read (fun _ => 0) 1)).1 := by
  refine (no_disclosure formatted_wellFormed formatted_fuel stale_differsInFree formatted_closed filledCalls
    ?_ 0 (by simp) rfl rfl).2.2 ?_
  · simp [filledCalls]
  · refine ⟨trivial, ?_, trivial, trivial⟩
    intro _ _ _
    decide +kernel

/-- Reading a byte in front of the one that has been written. -/
theorem no_disclosure_gap : ¬∀ (g : FSMount) (fuel : ℕ) (disk disk' : Memory) (fam fam' : Family)
    (files : ℕ → FSFile) (calls : List (ℕ × Request)) (h : ℕ) (r : Request),
      WellFormed g disk fam → WellFormed g disk' fam' → g.clusterCount.toNat < fuel →
        DiffersInFree g disk disk' → (∀ h, (files h).valid = false) →
          (∀ c ∈ calls, ∀ path n, c.2 ≠ .listDir path n) → (∀ path n, r ≠ .listDir path n) →
            (callOn g fuel (Volume.after g fuel ⟨disk', files⟩ calls) h r).1 =
              (callOn g fuel (Volume.after g fuel ⟨disk, files⟩ calls) h r).1 := by
  intro hclaim
  have hsame := hclaim formattedMount 65526 formattedDisk staleDisk formattedChains formattedChains
    formattedVolume.files gapCalls 0 (.read (fun _ => 0) 1) formatted_wellFormed
    (formatted_wellFormed.differsInFree stale_differsInFree) formatted_fuel stale_differsInFree
    formatted_closed (by simp [gapCalls]) (by simp)
  have hbyte := congrArg firstByte hsame
  revert hbyte
  decide +kernel

end Runs

end SBoy28.Fat32
