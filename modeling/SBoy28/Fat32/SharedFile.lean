import SBoy28.Fat32.ByteFile

/-!
# Two handles on one file

A handle has its own copy of the size and first cluster of its file, and `fs_close` stores that
copy whatever the other handles did. When two handles write to one file, the entry is in the end
what the handle that was closed last made of it.
-/

namespace SBoy28.Fat32
open Lib

variable {g : FSMount} {fuel : ℕ} {v v' w : Volume} {fam fam' fam'' fam₀ : Family} {h a b : ℕ}
  {r : Request} {out : Outcome FSErr Reply} {disk : Memory} {files : ℕ → FSFile}
  {path : List UInt8} {d : Slot} {reply : Reply}

/-- A call that has been made, with the volume before and after it. -/
structure Event where
  handle : ℕ
  request : Request
  before : Volume
  after : Volume

/-- The size of a handle after the call, from the one before. -/
def Event.grown (e : Event) (size : ℕ) : ℕ :=
  match e.request with
  | .write _ n => ByteFile.grownSize size (e.before.files e.handle).position.toNat n.toNat
  | _ => size

/-- The call has taken this cluster into use. -/
def Event.Allocated (g : FSMount) (e : Event) (c : UInt32) : Prop :=
  InRange g c ∧ fatValue g e.before.disk c = 0 ∧ fatValue g e.after.disk c ≠ 0

/-- The end of the file after these calls, as far as handle `h` knows. -/
def extent (h : ℕ) : ℕ → List Event → ℕ
  | size, [] => size
  | size, e :: t => extent h (if e.handle = h then e.grown size else size) t

/-- Successful calls of `fs_seek`, `fs_read`, `fs_write` and `fs_close` on two handles. -/
inductive SharedStep (g : FSMount) (fuel a b : ℕ) : Volume → Event → Volume → Prop where
  | call {v : Volume} {h : ℕ} {r : Request} {reply : Reply} (hh : h = a ∨ h = b)
      (hr : r.isData = true ∨ r = .close) (hok : (callOn g fuel v h r).1 = .ok reply) :
      SharedStep g fuel a b v ⟨h, r, v, (callOn g fuel v h r).2⟩ (callOn g fuel v h r).2

def OpensForWriting (g : FSMount) (fuel : ℕ) (path : List UInt8) (v : Volume) (h : ℕ) (v' : Volume) :
    Prop :=
  ∃ mode reply, mode &&& fsOpenWrite ≠ 0 ∧ callOn g fuel v h (.openFile path mode) = (.ok reply, v')

/-- Two handles are opened on one path for writing, used in any order, and closed. -/
structure SharedRun (g : FSMount) (fuel : ℕ) (path : List UInt8) (a b : ℕ) (v₀ : Volume)
    (t : List Event) (v : Volume) : Prop where
  apart : a ≠ b
  opens : ∃ v₁ v₂, OpensForWriting g fuel path v₀ a v₁ ∧ OpensForWriting g fuel path v₁ b v₂ ∧
    Trace (SharedStep g fuel a b) v₂ t v
  closedA : (v.files a).valid = false
  closedB : (v.files b).valid = false

section Extent

lemma grownSize_ge (size p n : ℕ) : size ≤ ByteFile.grownSize size p n := by
  rw [ByteFile.grownSize]
  split <;> omega

lemma extent_ge (h size : ℕ) (t : List Event) : size ≤ extent h size t := by
  induction t generalizing size with
  | nil => exact Nat.le_refl _
  | cons e t ih =>
    apply Nat.le_trans _ (ih _)
    by_cases hh : e.handle = h
    · rw [if_pos hh, Event.grown]
      split
      · exact grownSize_ge _ _ _
      · exact Nat.le_refl _
    · rw [if_neg hh]

lemma extent_append (h size : ℕ) (t t' : List Event) :
    extent h size (t ++ t') = extent h (extent h size t) t' := by
  induction t generalizing size with
  | nil => rfl
  | cons e t ih => exact ih _

/-- The end of every write through a handle is inside its extent. -/
lemma write_le_extent {e : Event} {data : Memory} {n : UInt32} {t : List Event} (he : e ∈ t)
    (hr : e.request = .write data n) (hn : n ≠ 0) (size : ℕ) :
    (e.before.files e.handle).position.toNat + n.toNat ≤ extent e.handle size t := by
  induction t generalizing size with
  | nil => simp at he
  | cons e' t ih =>
    rcases List.mem_cons.mp he with rfl | he
    · apply Nat.le_trans _ (extent_ge _ _ t)
      have hpos : n.toNat ≠ 0 := fun e => hn (UInt32.toNat_inj.mp e)
      simp only [if_true, Event.grown, hr, ByteFile.grownSize, if_neg hpos]
      omega
    · exact ih he _

end Extent

section Calls

lemma Change.file_kept (hch : Change g fam v h r out v' fam')
    (hr : ∀ path mode, r ≠ .openFile path mode) :
    (v'.files h).slot = (v.files h).slot ∧ (v'.files h).mode = (v.files h).mode := by
  cases hch with
  | failed => exact ⟨rfl, rfl⟩
  | listed => exact ⟨rfl, rfl⟩
  | opened => exact absurd rfl (hr _ _)
  | wrote _ _ hwrote _ =>
    simp only [Function.update_self]
    rw [hwrote.file]
    exact ⟨rfl, rfl⟩
  | _ => simp [Volume.setFile, FSFile.slot]

lemma Change.first_kept (hc : Consistent g v fam) (hch : Change g fam v h r out v' fam')
    (hr : ∀ path mode, r ≠ .openFile path mode) (hne : fam (v.files h).firstCluster ≠ []) :
    (v'.files h).firstCluster = (v.files h).firstCluster := by
  cases hch with
  | failed => rfl
  | listed => rfl
  | opened => exact absurd rfl (hr _ _)
  | wrote hv _ hwrote _ =>
    simp only [Function.update_self]
    exact (hc.rewritten hv hwrote).keeps hne
  | _ => simp only [Volume.setFile, Function.update_self]

lemma Change.size_grown (hch : Change g fam v h r (.ok reply) v' fam')
    (hr : ∀ path mode, r ≠ .openFile path mode) :
    (v'.files h).size.toNat = (Event.mk h r v v').grown (v.files h).size.toNat := by
  cases hch with
  | listed => rfl
  | opened => exact absurd rfl (hr _ _)
  | @wrote _ n k _ _ _ _ _ hwrote hout =>
    obtain ⟨-, rfl⟩ : reply = .written n ∧ k = n.toNat := by simpa using hout
    simp only [Function.update_self]
    exact hwrote.size
  | _ => simp only [Volume.setFile, Function.update_self, Event.grown]

/-- A cluster that a call has taken into use is on the chain of its handle. -/
lemma Change.allocated (hg : Geometry g) (hc : Consistent g v fam)
    (hch : Change g fam v h r out v' fam') {c : UInt32} (ha : (Event.mk h r v v').Allocated g c) :
    c ∈ fam' (v'.files h).firstCluster := by
  obtain ⟨hr, hzero, hne⟩ := ha
  rw [fatValue_eq_zero_iff hr] at hzero
  by_contra hn
  apply hne
  rw [fatValue_eq_zero_iff hr, hch.table hg hc, hzero]
  intro i hi
  have hsame : fam' i = fam i := by
    apply hch.chain_other
    rintro - rfl
    exact hn hi
  rw [hsame] at hi
  exact (hc.fat.family.chain i).2 c hi hzero

end Calls

section Runs

/-- What a sequence of calls other than `fs_open` does to handles and chains. -/
structure Extends (g : FSMount) (v : Volume) (fam : Family) (t : List Event) (v' : Volume)
    (fam' : Family) : Prop where
  size : ∀ h, (v'.files h).size.toNat = extent h (v.files h).size.toNat t
  kept : ∀ h, (v'.files h).slot = (v.files h).slot ∧ (v'.files h).mode = (v.files h).mode
  first : ∀ h, fam (v.files h).firstCluster ≠ [] →
    (v'.files h).firstCluster = (v.files h).firstCluster
  chain : ∀ c, fam c <+: fam' c
  allocated : ∀ e ∈ t, ∀ c, e.Allocated g c → c ∈ fam' (v'.files e.handle).firstCluster

lemma Extends.refl (g : FSMount) (v : Volume) (fam : Family) : Extends g v fam [] v fam :=
  ⟨fun _ => rfl, fun _ => ⟨rfl, rfl⟩, fun _ _ => rfl, fun _ => List.prefix_refl _, by simp⟩

lemma Extends.persists {t : List Event} (he : Extends g v fam t v' fam') {c : UInt32}
    (hc : c ∈ fam (v.files h).firstCluster) : c ∈ fam' (v'.files h).firstCluster := by
  rw [he.first h (List.ne_nil_of_mem hc)]
  exact (he.chain _).subset hc

lemma Extends.trans {t t' : List Event} (he : Extends g v fam t v' fam')
    (he' : Extends g v' fam' t' w fam'') : Extends g v fam (t ++ t') w fam'' where
  size h := by rw [he'.size, he.size, extent_append]
  kept h := ⟨(he'.kept h).1.trans (he.kept h).1, (he'.kept h).2.trans (he.kept h).2⟩
  first h hne := by
    have hfirst := he.first h hne
    have hne' : fam' (v'.files h).firstCluster ≠ [] := by
      obtain ⟨c, hc⟩ := List.exists_mem_of_ne_nil _ hne
      exact List.ne_nil_of_mem (he.persists hc)
    rw [he'.first h hne', hfirst]
  chain c := (he.chain c).trans (he'.chain c)
  allocated e hmem c ha := by
    rcases List.mem_append.mp hmem with hmem | hmem
    · exact he'.persists (he.allocated e hmem c ha)
    · exact he'.allocated e hmem c ha

lemma Change.extends (hg : Geometry g) (hc : Consistent g v fam)
    (hch : Change g fam v h r (.ok reply) v' fam') (hr : ∀ path mode, r ≠ .openFile path mode) :
    Extends g v fam [⟨h, r, v, v'⟩] v' fam' where
  size h' := by
    by_cases hh : h' = h
    · subst hh
      rw [hch.size_grown hr, extent, extent, if_pos rfl]
    · rw [hch.files_other hh, extent, extent, if_neg (Ne.symm hh)]
  kept h' := by
    by_cases hh : h' = h
    · subst hh
      exact hch.file_kept hr
    · rw [hch.files_other hh]
      exact ⟨rfl, rfl⟩
  first h' hne := by
    by_cases hh : h' = h
    · subst hh
      exact hch.first_kept hc hr hne
    · rw [hch.files_other hh]
  chain c := (hch.grows hc c).1
  allocated e hmem c ha := by
    obtain rfl := List.mem_singleton.mp hmem
    exact hch.allocated hg hc ha

lemma not_open (hr : r.isData = true ∨ r = .close) (path : List UInt8) (mode : UInt8) :
    r ≠ .openFile path mode := by
  rintro rfl
  simp [Request.isData] at hr

/-- Every run of calls on two handles extends the volume it starts from. -/
theorem shared_extends (hg : Geometry g) (hm : g.mounted = true) (hfuel : g.clusterCount.toNat < fuel)
    {t : List Event} (ht : Trace (SharedStep g fuel a b) v t v') (hc : Consistent g v fam) :
    ∃ fam', Consistent g v' fam' ∧ Extends g v fam t v' fam' := by
  induction t generalizing v fam with
  | nil =>
    rw [trace_nil] at ht
    exact ⟨fam, ht ▸ hc, ht ▸ Extends.refl g v fam⟩
  | cons e t ih =>
    obtain ⟨m, hs, ht⟩ := trace_cons.mp ht
    cases hs with
    | @call h r _ hh hr hok =>
      obtain ⟨fam₁, hch⟩ := hc.does hg hm hfuel h r
      have hc₁ := hch.consistent hg hc
      rw [hok] at hch
      obtain ⟨fam', hc', he⟩ := ih ht hc₁
      exact ⟨fam', hc', (hch.extends hg hc (not_open hr)).trans he⟩

lemma shared_handles {t : List Event} (ht : Trace (SharedStep g fuel a b) v t v') :
    ∀ e ∈ t, e.handle = a ∨ e.handle = b := by
  induction t generalizing v with
  | nil => simp
  | cons e t ih =>
    obtain ⟨m, hs, ht⟩ := trace_cons.mp ht
    intro e' he'
    rcases List.mem_cons.mp he' with rfl | he'
    · cases hs with
      | call hh _ _ => exact hh
    · exact ih ht e' he'

/-- A step after which its handle is closed has stored what the handle knows in its entry. -/
lemma SharedStep.closes {e : Event} (hg : Geometry g) (hm : g.mounted = true)
    (hfuel : g.clusterCount.toNat < fuel) (hc : Consistent g v fam) (hs : SharedStep g fuel a b v e v')
    (hw : (v'.files e.handle).canWrite = true) (hclosed : (v'.files e.handle).valid = false) :
    e.request = .close ∧ v'.disk = putEntry g v.disk (v.files e.handle) ∧
      v'.files e.handle = { v.files e.handle with valid := false } := by
  cases hs with
  | @call h r _ hh hr hok =>
    obtain ⟨fam', hch⟩ := hc.does hg hm hfuel h r
    rw [hok] at hch
    generalize (callOn g fuel v h r).2 = v' at hch hw hclosed ⊢
    simp only at hw hclosed ⊢
    cases hch with
    | listed => simp [Request.isData] at hr
    | opened => simp [Request.isData] at hr
    | moved hv => simp [Volume.setFile, hv] at hclosed
    | read hv _ _ => simp [Volume.setFile, hv] at hclosed
    | wrote hv _ hwrote _ =>
      simp only [Function.update_self] at hclosed
      rw [hwrote.file] at hclosed
      simp [hv] at hclosed
    | closed _ _ => exact ⟨rfl, rfl, Function.update_self _ _ _⟩
    | released _ hn =>
      simp only [Volume.setFile, Function.update_self] at hw
      rw [FSFile.canWrite] at hn hw
      rw [hn] at hw
      exact absurd hw (by simp)

/-- A handle as `fs_open` has filled it in for writing to the file of entry `d`. -/
structure OpenedOn (g : FSMount) (disk : Memory) (d : Slot) (file : FSFile) : Prop where
  valid : file.valid = true
  canWrite : file.canWrite = true
  slot : file.slot = d
  size : file.size = (entryAt g disk d).fileSize
  first : file.firstCluster = (entryAt g disk d).firstCluster

lemma OpensForWriting.opened (hg : Geometry g) (hm : g.mounted = true)
    (hfuel : g.clusterCount.toNat < fuel) (hc : Consistent g v fam)
    (hpath : walkPath g v.disk (chainOf g v.disk fam) (path.length + 1) path none = some (some d))
    (ho : OpensForWriting g fuel path v h v') :
    ∃ file : FSFile, v' = v.setFile h file ∧ Consistent g v' fam ∧ OpenedOn g v.disk d file := by
  obtain ⟨mode, reply, hmode, hcall⟩ := ho
  obtain ⟨fam', hch⟩ := hc.does hg hm hfuel h (.openFile path mode)
  rw [hcall] at hch
  have hc' := hch.consistent hg hc
  cases hch with
  | @opened _ _ d' hd hfile hwritable hpath' =>
    obtain rfl : d = d' := by
      rw [hpath'] at hpath
      exact (Option.some.inj (Option.some.inj hpath)).symm
    exact ⟨_, rfl, hc', rfl, decide_eq_true hmode, rfl, rfl, rfl⟩

lemma SharedRun.opened {t : List Event} (hw : WellFormed g disk fam₀)
    (hclosed : ∀ h, (files h).valid = false) (hfuel : g.clusterCount.toNat < fuel)
    (hpath : walkPath g disk (chainOf g disk fam₀) (path.length + 1) path none = some (some d))
    (hrun : SharedRun g fuel path a b ⟨disk, files⟩ t v) :
    ∃ v₂, Trace (SharedStep g fuel a b) v₂ t v ∧ Consistent g v₂ fam₀ ∧
      ∀ h, h = a ∨ h = b → OpenedOn g disk d (v₂.files h) := by
  obtain ⟨v₁, v₂, hopenA, hopenB, ht⟩ := hrun.opens
  obtain ⟨fileA, rfl, hc₁, hA⟩ :=
    hopenA.opened hw.geometry hw.mounted hfuel (hw.consistent hclosed) hpath
  obtain ⟨fileB, rfl, hc₂, hB⟩ := hopenB.opened hw.geometry hw.mounted hfuel hc₁ hpath
  refine ⟨_, ht, hc₂, ?_⟩
  rintro h (rfl | rfl)
  · simp only [Volume.setFile, Function.update_of_ne hrun.apart, Function.update_self]
    exact hA
  · simp only [Volume.setFile, Function.update_self]
    exact hB

/-- A handle on a file that has clusters keeps the first of them. -/
lemma Extends.first_opened {t : List Event} (he : Extends g v fam t v' fam') (hc : Consistent g v fam)
    (ho : OpenedOn g disk d (v.files h)) (hge : 2 ≤ (entryAt g disk d).firstCluster) :
    (v'.files h).firstCluster = (entryAt g disk d).firstCluster := by
  rw [← ho.first]
  apply he.first
  intro hnil
  have hhead := (hc.handle h ho.valid).first
  rw [hnil, ho.first] at hhead
  have hlt := headOf_eq_none hhead
  rw [UInt32.le_iff_toNat_le] at hge
  rw [UInt32.lt_iff_toNat_lt] at hlt
  omega

/-- When two handles have been opened for writing on one file of a well-formed volume, used and
closed, the entry has the size that the handle closed last knows: that of the entry before, or the
end of its furthest write. All clusters allocated through that handle are on the chain of the file,
and if the file had a cluster to begin with, then so are those allocated through the other one. -/
theorem last_close_wins {t : List Event} (hw : WellFormed g disk fam₀)
    (hclosed : ∀ h, (files h).valid = false) (hfuel : g.clusterCount.toNat < fuel)
    (hpath : walkPath g disk (chainOf g disk fam₀) (path.length + 1) path none = some (some d))
    (hrun : SharedRun g fuel path a b ⟨disk, files⟩ t v) :
    ∃ e ∈ t.getLast?, (e.handle = a ∨ e.handle = b) ∧ e.request = .close ∧
      (entryAt g v.disk d).fileSize.toNat = extent e.handle (entryAt g disk d).fileSize.toNat t ∧
      (∀ e' ∈ t, e'.handle = e.handle → ∀ data n, e'.request = .write data n → n ≠ 0 →
        (e'.before.files e'.handle).position.toNat + n.toNat ≤ (entryAt g v.disk d).fileSize.toNat) ∧
      ∃ fam, Consistent g v fam ∧
        ∀ e' ∈ t, e'.handle = e.handle ∨ 2 ≤ (entryAt g disk d).firstCluster →
          ∀ c, e'.Allocated g c → c ∈ chainOf g v.disk fam (some d) := by
  have hg := hw.geometry
  have hm := hw.mounted
  obtain ⟨v₂, ht, hc₂, hstart⟩ := hrun.opened hw hclosed hfuel hpath
  have hshut : ∀ h, h = a ∨ h = b → (v.files h).valid = false := by
    rintro h (rfl | rfl)
    · exact hrun.closedA
    · exact hrun.closedB
  have hhandles := shared_handles ht
  rcases List.eq_nil_or_concat t with rfl | ⟨t', e, rfl⟩
  · -- somebody has to close the handles
    rw [trace_nil] at ht
    rw [← ht] at hshut
    exact absurd (hstart a (Or.inl rfl)).valid (by simp [hshut a (Or.inl rfl)])
  · rw [List.concat_eq_append] at ht hhandles ⊢
    obtain ⟨fam, hc, he⟩ := shared_extends hg hm hfuel ht hc₂
    obtain ⟨w, ht', hlast⟩ := trace_append.mp ht
    obtain ⟨v', hs, hend⟩ := trace_cons.mp hlast
    obtain rfl : v' = v := trace_nil.mp hend
    obtain ⟨famw, hcw, -⟩ := shared_extends hg hm hfuel ht' hc₂
    have hmem : e.handle = a ∨ e.handle = b := hhandles e (by simp)
    have hopened := hstart e.handle hmem
    obtain ⟨hslot', hmode⟩ := he.kept e.handle
    have hcan' : (v'.files e.handle).canWrite = true := by
      rw [FSFile.canWrite, hmode]
      exact hopened.canWrite
    obtain ⟨hclose, hdisk, hfile⟩ := hs.closes hg hm hfuel hcw hcan' (hshut e.handle hmem)
    have hslotw : d = (w.files e.handle).slot := by
      rw [← hopened.slot, ← hslot', hfile]
      rfl
    have hfirst : (entryAt g v'.disk d).firstCluster = (v'.files e.handle).firstCluster := by
      rw [hdisk, hslotw, firstCluster_putEntry, hfile]
    have hextent : (entryAt g v'.disk d).fileSize.toNat =
        extent e.handle (entryAt g disk d).fileSize.toNat (t' ++ [e]) := by
      have hstored : (entryAt g v'.disk d).fileSize = (v'.files e.handle).size := by
        rw [hdisk, hslotw, entryAt_putEntry, hfile]
      rw [hstored, ← hopened.size]
      exact he.size e.handle
    refine ⟨e, by simp, hmem, hclose, hextent, ?_, fam, hc, ?_⟩
    · intro e' he' hh data n hr hn
      rw [hextent, ← hh]
      exact write_le_extent he' hr hn _
    · intro e' he' hh c ha
      have hfrom : (v'.files e'.handle).firstCluster = (v'.files e.handle).firstCluster := by
        rcases hh with hh | hge
        · rw [hh]
        · -- both handles have had the first cluster of the entry from the start
          rw [he.first_opened hc₂ (hstart _ (hhandles e' he')) hge, he.first_opened hc₂ hopened hge]
      rw [chainOf, firstOf, hfirst, ← hfrom]
      exact he.allocated e' he' c ha

/-- Two handles on `/A` of the formatted volume: one writes a byte, and the other is closed
last. -/
def sharedCalls : List (ℕ × Request) :=
  [(0, .openFile pathA fsOpenWrite), (1, .openFile pathA fsOpenWrite), (0, .write (fun _ => 7) 1),
    (0, .close), (1, .close)]

def sharedEvents : List Event :=
  [⟨0, .write (fun _ => 7) 1, formattedAfter (sharedCalls.take 2), formattedAfter (sharedCalls.take 3)⟩,
    ⟨0, .close, formattedAfter (sharedCalls.take 3), formattedAfter (sharedCalls.take 4)⟩,
    ⟨1, .close, formattedAfter (sharedCalls.take 4), formattedAfter sharedCalls⟩]

lemma shared_formatted : SharedRun formattedMount 65526 pathA 0 1 formattedVolume sharedEvents
    (formattedAfter sharedCalls) where
  apart := by decide
  opens := by
    refine ⟨_, _, ⟨fsOpenWrite, .done, by decide, Prod.ext rfl rfl⟩,
      ⟨fsOpenWrite, .done, by decide, Prod.ext rfl rfl⟩, ?_⟩
    exact ⟨_, SharedStep.call (Or.inl rfl) (Or.inl rfl) rfl, _,
      SharedStep.call (Or.inl rfl) (Or.inr rfl) rfl, _, SharedStep.call (Or.inr rfl) (Or.inr rfl) rfl, rfl⟩
  closedA := by decide +kernel
  closedB := by decide +kernel

/-- The handle closed last has not written. -/
theorem last_close_wins_formatted :
    ∃ e ∈ sharedEvents.getLast?, e.request = .close ∧
      (entryAt formattedMount (formattedAfter sharedCalls).disk formattedSlot).fileSize.toNat =
        extent e.handle (entryAt formattedMount formattedDisk formattedSlot).fileSize.toNat
          sharedEvents := by
  obtain ⟨e, he, -, hclose, hsize, -⟩ := last_close_wins formatted_wellFormed formatted_closed
    formatted_fuel formatted_path shared_formatted
  exact ⟨e, he, hclose, hsize⟩

/-- The byte that the first handle has written is lost. -/
theorem shared_update_lost : ¬∀ t v,
    SharedRun formattedMount 65526 pathA 0 1 formattedVolume t v →
      (∀ e ∈ t, ∀ data n, e.request = .write data n →
        (e.before.files e.handle).position.toNat + n.toNat ≤
          (entryAt formattedMount v.disk formattedSlot).fileSize.toNat) ∧
      ∃ fam, Consistent formattedMount v fam ∧ ∀ e ∈ t, ∀ c, e.Allocated formattedMount c →
        c ∈ chainOf formattedMount v.disk fam (some formattedSlot) := by
  intro hclaim
  obtain ⟨hends, -⟩ := hclaim _ _ shared_formatted
  have hend := hends _ List.mem_cons_self (fun _ => 7) 1 rfl
  have hsize : (entryAt formattedMount (formattedAfter sharedCalls).disk formattedSlot).fileSize = 0 := by
    decide +kernel
  rw [hsize] at hend
  exact absurd (Nat.le_trans (Nat.le_add_left _ _) hend) (by decide)

end Runs

end SBoy28.Fat32
