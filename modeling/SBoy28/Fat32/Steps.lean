import SBoy28.Fat32.Consistency

/-!
# What a call does

On a consistent volume every call ends in one of a few ways, and each of them keeps the volume
consistent and changes no more than the file of its handle.
-/

namespace SBoy28.Fat32
open Lib

variable {g : FSMount} {fuel : ℕ} {v v' : Volume} {fam fam' : Family} {h : ℕ} {r : Request}
  {out : Outcome FSErr Reply}

def Volume.setFile (v : Volume) (h : ℕ) (file : FSFile) : Volume where
  disk := v.disk
  files := Function.update v.files h file

/-- Handle `h` is open for writing. -/
def Writing (v : Volume) (h : ℕ) : Prop := (v.files h).valid = true ∧ (v.files h).canWrite = true

/-- The ways in which a call on handle `h` can end: its outcome, and the volume and the chains
after it. -/
inductive Change (g : FSMount) (fam : Family) (v : Volume) (h : ℕ) :
    Request → Outcome FSErr Reply → Volume → Family → Prop where
  | failed {r : Request} {e : FSErr} : Change g fam v h r (.error e) v fam
  | listed {path : List UInt8} {maxEntries : UInt32} {out : Outcome FSErr Reply} :
      Change g fam v h (.listDir path maxEntries) out v fam
  | opened {path : List UInt8} {mode : UInt8} {d : Slot} (hd : Alive g v.disk fam (some d))
      (hfile : (entryAt g v.disk d).isDirectory = false)
      (hwritable : mode &&& fsOpenWrite ≠ 0 → (entryAt g v.disk d).attr &&& fsAttrReadOnly = 0)
      (hpath : walkPath g v.disk (chainOf g v.disk fam) (path.length + 1) path none = some (some d)) :
      Change g fam v h (.openFile path mode) (.ok .done)
        (v.setFile h (openedFile (foundAt g v.disk d) mode)) fam
  | moved {position : UInt32} (hv : (v.files h).valid = true) :
      Change g fam v h (.seek position) (.ok .done)
        (v.setFile h { v.files h with position := position }) fam
  | read {out : Memory} {n : UInt32} {k : ℕ} (hv : (v.files h).valid = true)
      (hr : (v.files h).canRead = true)
      (hk : k = min n.toNat ((v.files h).size.toNat - (v.files h).position.toNat)) :
      Change g fam v h (.read out n)
        (.ok (.bytes (UInt32.ofNat k) (copyTo out 0 (shift
          (content g v.disk (fam (v.files h).firstCluster)) (v.files h).position.toNat) k)))
        (v.setFile h { v.files h with position := (v.files h).position + UInt32.ofNat k }) fam
  | wrote {data : Memory} {n : UInt32} {k : ℕ} {s' : State} {l' : List UInt32}
      {out : Outcome FSErr Reply} (hv : (v.files h).valid = true) (hw : (v.files h).canWrite = true)
      (hwrote : Wrote g fam (v.files h).firstCluster ⟨v.disk, v.files h⟩ s' l' data k)
      (hout : out = .ok (.written n) ∧ k = n.toNat ∨ out = .error .noSpace ∧ k < n.toNat) :
      Change g fam v h (.write data n) out ⟨s'.disk, Function.update v.files h s'.file⟩
        (Function.update fam s'.file.firstCluster l')
  | closed (hv : (v.files h).valid = true) (hw : (v.files h).canWrite = true) :
      Change g fam v h .close (.ok .done)
        ⟨putEntry g v.disk (v.files h), Function.update v.files h { v.files h with valid := false }⟩ fam
  | released (hv : (v.files h).valid = true) (hw : (v.files h).canWrite = false) :
      Change g fam v h .close (.ok .done) (v.setFile h { v.files h with valid := false }) fam

section Calls

lemma callOn_of_run {s' : State}
    (hr : (r.program g fuel).run (handler g) ⟨v.disk, v.files h⟩ = (out, s')) :
    callOn g fuel v h r = (out, ⟨s'.disk, Function.update v.files h s'.file⟩) := by
  rw [callOn, hr]

lemma callOn_other {h' : ℕ} (hh : h' ≠ h) : (callOn g fuel v h r).2.files h' = v.files h' :=
  Function.update_of_ne hh _ _

lemma callOn_unchanged
    (hr : (r.program g fuel).run (handler g) ⟨v.disk, v.files h⟩ = (out, ⟨v.disk, v.files h⟩)) :
    callOn g fuel v h r = (out, v) := by
  rw [callOn_of_run hr, Function.update_eq_self]

variable (fuel) in
lemma callOn_seek (position : UInt32) : callOn g fuel v h (.seek position) =
    if (v.files h).valid = true then (.ok .done, v.setFile h { v.files h with position := position })
    else (.error .invalid, v) := by
  by_cases hv : (v.files h).valid = true
  · rw [if_pos hv]
    have hrun := run_fsSeek (g := g) (s := ⟨v.disk, v.files h⟩) hv position
    rw [callOn_of_run (Program.run_bind_ok hrun)]
    rfl
  · rw [if_neg hv]
    have hrun := run_fsSeek_refused (g := g) (s := ⟨v.disk, v.files h⟩) (by simpa using hv) position
    exact callOn_unchanged (Program.run_bind_error hrun)

/-- What `fs_read` returns. -/
def bytesRead (g : FSMount) (fam : Family) (disk : Memory) (file : FSFile) (out : Memory) (n : UInt32) : Reply :=
  .bytes (UInt32.ofNat (min n.toNat (file.size.toNat - file.position.toNat)))
    (copyTo out 0 (shift (content g disk (fam file.firstCluster)) file.position.toNat)
      (min n.toNat (file.size.toNat - file.position.toNat)))

variable (fuel) in
lemma callOn_read (hg : Geometry g) (hm : g.mounted = true) (hc : Consistent g v fam) (out : Memory)
    (n : UInt32) : callOn g fuel v h (.read out n) =
      if (v.files h).valid = false then (.error .invalid, v)
      else if (v.files h).canRead = false then (.error .access, v)
      else (.ok (bytesRead g fam v.disk (v.files h) out n),
        v.setFile h { v.files h with
          position := (v.files h).position +
            UInt32.ofNat (min n.toNat ((v.files h).size.toNat - (v.files h).position.toNat)) }) := by
  by_cases hv : (v.files h).valid = false
  · rw [if_pos hv]
    apply callOn_unchanged
    simp [Request.program, fsRead, hm, hv, Program.run_bind]
  · rw [if_neg hv]
    by_cases hr : (v.files h).canRead = false
    · rw [if_pos hr]
      apply callOn_unchanged
      simp [Request.program, fsRead, hm, hv, hr, Program.run_bind]
    · rw [if_neg hr]
      have hv : (v.files h).valid = true := by simpa using hv
      have hok := hc.handle h hv
      have hrun := run_fsRead (s := ⟨v.disk, v.files h⟩) hg hm hc.fat hv (by simpa using hr)
        (fun _ => hok.first) hok.size out n rfl
      rw [callOn_of_run (Program.run_bind_ok hrun)]
      rfl

variable (fuel) in
lemma callOn_close (hg : Geometry g) (hm : g.mounted = true) (hc : Consistent g v fam) :
    callOn g fuel v h .close =
      if (v.files h).valid = false then (.error .invalid, v)
      else if (v.files h).canWrite = false then
        (.ok .done, v.setFile h { v.files h with valid := false })
      else (.ok .done, ⟨putEntry g v.disk (v.files h),
        Function.update v.files h { v.files h with valid := false }⟩) := by
  by_cases hv : (v.files h).valid = false
  · rw [if_pos hv]
    apply callOn_unchanged
    simp [Request.program, fsClose, hm, hv, Program.run_bind]
  · rw [if_neg hv]
    have hv : (v.files h).valid = true := by simpa using hv
    by_cases hw : (v.files h).canWrite = false
    · rw [if_pos hw]
      have hrun := run_fsClose_read (s := ⟨v.disk, v.files h⟩) hm hv hw
      rw [callOn_of_run (Program.run_bind_ok hrun)]
      rfl
    · rw [if_neg hw]
      obtain ⟨o, -, -, hf⟩ := (hc.handle h hv).live.slot
      obtain ⟨-, hle, hin, -⟩ := mem_slots hg (hc.fat.range _) hf
      have hrun := run_fsClose (s := ⟨v.disk, v.files h⟩) hg hm hv (by simpa using hw) hin hle
      rw [callOn_of_run (Program.run_bind_ok hrun)]

variable (fuel) in
lemma callOn_openFile (path : List UInt8) (mode : UInt8) :
    callOn g fuel v h (.openFile path mode) =
      match openOutcome g v.disk fuel path mode with
      | .ok file => (.ok .done, v.setFile h file)
      | .error e => (.error e, v)
      | .spin => (.spin, v) := by
  have hrun := run_fsOpen g ⟨v.disk, v.files h⟩ fuel path mode
  cases ho : openOutcome g v.disk fuel path mode with
  | ok file =>
    rw [ho] at hrun
    rw [callOn_of_run (Program.run_bind_ok hrun)]
    rfl
  | error e =>
    rw [ho] at hrun
    exact callOn_unchanged (Program.run_bind_error hrun)
  | spin =>
    rw [ho] at hrun
    apply callOn_unchanged
    simp only [Request.program, Program.run_bind, hrun]

/-- What a call of `fs_write` gives back. -/
def writeReply : Outcome FSErr UInt32 → Outcome FSErr Reply
  | .ok count => .ok (.written count)
  | .error e => .error e
  | .spin => .spin

lemma callOn_write {o : Outcome FSErr UInt32} {s' : State} {data : Memory} {n : UInt32}
    (hrun : (fsWrite g data n).run (handler g) ⟨v.disk, v.files h⟩ = (o, s')) :
    callOn g fuel v h (.write data n) = (writeReply o, ⟨s'.disk, Function.update v.files h s'.file⟩) := by
  apply callOn_of_run
  simp only [Request.program, Program.run_bind, hrun]
  cases o <;> rfl

lemma callOn_write_refused (hm : g.mounted = true) (hw : ¬Writing v h) (data : Memory) (n : UInt32) :
    callOn g fuel v h (.write data n) =
      (.error (if (v.files h).valid = false then .invalid else .access), v) := by
  apply callOn_unchanged
  by_cases hv : (v.files h).valid = false
  · simp [Request.program, fsWrite, hm, hv, Program.run_bind]
  · have hv : (v.files h).valid = true := by simpa using hv
    have hno : (v.files h).canWrite = false := by
      by_contra hn
      exact hw ⟨hv, by simpa using hn⟩
    simp [Request.program, fsWrite, hm, hv, hno, Program.run_bind]

/-- The call does what a change says. -/
def Does (g : FSMount) (fuel : ℕ) (fam : Family) (v : Volume) (h : ℕ) (r : Request) : Prop :=
  ∃ fam', Change g fam v h r (callOn g fuel v h r).1 (callOn g fuel v h r).2 fam'

lemma does_of_eq (he : callOn g fuel v h r = (out, v')) (hc : Change g fam v h r out v' fam') :
    Does g fuel fam v h r := by
  refine ⟨fam', ?_⟩
  rw [he]
  exact hc

lemma does_seek (position : UInt32) : Does g fuel fam v h (.seek position) := by
  have hcall := callOn_seek (g := g) (v := v) (h := h) fuel position
  by_cases hv : (v.files h).valid = true
  · rw [if_pos hv] at hcall
    exact does_of_eq hcall (Change.moved hv)
  · rw [if_neg hv] at hcall
    exact does_of_eq hcall Change.failed

lemma does_list (path : List UInt8) (maxEntries : UInt32) :
    Does g fuel fam v h (.listDir path maxEntries) := by
  have hrun := run_fsListDir g ⟨v.disk, v.files h⟩ fuel path maxEntries
  have hunchanged : ∃ out, callOn g fuel v h (.listDir path maxEntries) = (out, v) := by
    cases hl : listOutcome g v.disk fuel path maxEntries with
    | ok l =>
      rw [hl] at hrun
      exact ⟨_, callOn_unchanged (Program.run_bind_ok hrun)⟩
    | error e =>
      rw [hl] at hrun
      exact ⟨_, callOn_unchanged (Program.run_bind_error hrun)⟩
    | spin =>
      rw [hl] at hrun
      refine ⟨.spin, callOn_unchanged ?_⟩
      simp only [Request.program, Program.run_bind, hrun]
  obtain ⟨out, hout⟩ := hunchanged
  exact does_of_eq hout Change.listed

namespace Consistent

variable (hc : Consistent g v fam)

include hc

lemma does_open (hg : Geometry g) (hfuel : g.clusterCount.toNat < fuel) (path : List UInt8)
    (mode : UInt8) : Does g fuel fam v h (.openFile path mode) := by
  have hcall := callOn_openFile (g := g) (v := v) (h := h) fuel path mode
  cases ho : openOutcome g v.disk fuel path mode with
  | spin => exact absurd ho (hc.tree.openOutcome_returns hg hfuel path mode)
  | error e =>
    rw [ho] at hcall
    exact does_of_eq hcall Change.failed
  | ok file =>
    rw [ho] at hcall
    obtain ⟨d, hlive, hfile, hwritable, hpath, rfl⟩ := hc.tree.openOutcome_ok hg hfuel ho
    exact does_of_eq hcall (Change.opened hlive hfile hwritable hpath)

lemma does_read (hg : Geometry g) (hm : g.mounted = true) (out : Memory) (n : UInt32) :
    Does g fuel fam v h (.read out n) := by
  have hcall := callOn_read (h := h) fuel hg hm hc out n
  by_cases hv : (v.files h).valid = false
  · rw [if_pos hv] at hcall
    exact does_of_eq hcall Change.failed
  · rw [if_neg hv] at hcall
    by_cases hr : (v.files h).canRead = false
    · rw [if_pos hr] at hcall
      exact does_of_eq hcall Change.failed
    · rw [if_neg hr] at hcall
      exact does_of_eq hcall (Change.read (by simpa using hv) (by simpa using hr) rfl)

lemma does_write (hg : Geometry g) (hm : g.mounted = true) (data : Memory) (n : UInt32) :
    Does g fuel fam v h (.write data n) := by
  by_cases hw : Writing v h
  · obtain ⟨s', l', k, hwrote, -, ⟨hk, hrun⟩ | ⟨hk, -, hrun⟩⟩ :=
      run_fsWrite (s := ⟨v.disk, v.files h⟩) hg hm hc.fat hw.1 hw.2 (hc.handle h hw.1).first data n
    · exact does_of_eq (callOn_write hrun) (Change.wrote hw.1 hw.2 hwrote (Or.inl ⟨rfl, hk⟩))
    · exact does_of_eq (callOn_write hrun) (Change.wrote hw.1 hw.2 hwrote (Or.inr ⟨rfl, hk⟩))
  · exact does_of_eq (callOn_write_refused hm hw data n) Change.failed

lemma does_close (hg : Geometry g) (hm : g.mounted = true) : Does g fuel fam v h .close := by
  have hcall := callOn_close (h := h) fuel hg hm hc
  by_cases hv : (v.files h).valid = false
  · rw [if_pos hv] at hcall
    exact does_of_eq hcall Change.failed
  · rw [if_neg hv] at hcall
    have hv : (v.files h).valid = true := by simpa using hv
    by_cases hw : (v.files h).canWrite = false
    · rw [if_pos hw] at hcall
      exact does_of_eq hcall (Change.released hv hw)
    · rw [if_neg hw] at hcall
      exact does_of_eq hcall (Change.closed hv (by simpa using hw))

/-- Every call on a consistent volume ends in one of these ways. -/
theorem does (hg : Geometry g) (hm : g.mounted = true) (hfuel : g.clusterCount.toNat < fuel) (h : ℕ)
    (r : Request) : Does g fuel fam v h r := by
  cases r with
  | openFile path mode => exact hc.does_open hg hfuel path mode
  | seek position => exact does_seek position
  | read out n => exact hc.does_read hg hm out n
  | write data n => exact hc.does_write hg hm data n
  | close => exact hc.does_close hg hm
  | listDir path maxEntries => exact does_list path maxEntries

end Consistent

end Calls

section Changes

/-- Every call keeps a consistent volume consistent. -/
theorem Change.consistent (hg : Geometry g) (hc : Consistent g v fam) (hch : Change g fam v h r out v' fam') :
    Consistent g v' fam' := by
  cases hch with
  | failed => exact hc
  | listed => exact hc
  | @opened path mode d hd hfile hwritable hpath =>
    have he := hc.entry d hd
    apply hc.setFile h
    · intro _
      refine ⟨hd, hfile, he.first, he.size, ?_, ?_⟩
      · intro o ho hfirst hne
        exact hc.entriesApart o (some d) ho hd hfirst (by rw [hfirst]; exact hne)
      · intro hw
        exact hwritable (of_decide_eq_true hw)
    · intro _ h' _ hv' hfirst hne
      have hown := (hc.handle h' hv').own (some d) hd hfirst.symm (hfirst ▸ hne)
      exact (Option.some.inj hown).symm
  | moved hv =>
    have hok := hc.handle h hv
    exact hc.setFile h (fun _ => ⟨hok.live, hok.isFile, hok.first, hok.size, hok.own, hok.writable⟩)
      (fun _ h' _ hv' hfirst hne => hc.handlesApart h' h hv' hv hfirst (hfirst ▸ hne))
  | read hv _ _ =>
    have hok := hc.handle h hv
    exact hc.setFile h (fun _ => ⟨hok.live, hok.isFile, hok.first, hok.size, hok.own, hok.writable⟩)
      (fun _ h' _ hv' hfirst hne => hc.handlesApart h' h hv' hv hfirst (hfirst ▸ hne))
  | wrote hv _ hwrote _ => exact hc.write hv hg hwrote
  | closed hv _ => exact hc.close hg hv
  | released hv _ => exact hc.setFile h (fun hv' => absurd hv' (by simp)) (fun hv' => absurd hv' (by simp))

/-- No call changes the directory tree. -/
theorem Change.sameTree (hg : Geometry g) (hc : Consistent g v fam)
    (hch : Change g fam v h r out v' fam') :
    SameTree g v.disk v'.disk (chainOf g v.disk fam) (chainOf g v'.disk fam') := by
  cases hch with
  | wrote hv _ hwrote _ => exact hc.sameTree_write hv hg hwrote
  | closed hv _ => exact hc.sameTree_close (hc.handle h hv) hg
  | _ => exact SameTree.refl _ _ _

/-- The bytes that a call on handle `h` may change: those of the clusters on its chain and of free
clusters, those of their FAT entries, and on `fs_close` the size and first cluster in its directory
entry. -/
def Allowed (g : FSMount) (fam : Family) (v : Volume) (h : ℕ) (r : Request) (a : ℕ) : Prop :=
  Writing v h ∧
    match r with
    | .write _ _ => ∃ c, InRange g c ∧ (c ∈ fam (v.files h).firstCluster ∨ fatValue g v.disk c = 0) ∧
        (InFat g c a ∨ InData g c a)
    | .close => ∃ i, EntryField i ∧ a = slotAddr g (v.files h).slot + i
    | _ => False

lemma Change.frame (hch : Change g fam v h r out v' fam') {a : ℕ} (ha : ¬Allowed g fam v h r a) :
    v'.disk a = v.disk a := by
  cases hch with
  | wrote hv hw hwrote _ =>
    apply hwrote.frame
    intro c hc
    have hr := hwrote.range c hc
    have hown : c ∈ fam (v.files h).firstCluster ∨ fatValue g v.disk c = 0 := by
      by_cases hold : c ∈ fam (v.files h).firstCluster
      · exact Or.inl hold
      · exact Or.inr ((fatValue_eq_zero_iff hr).mpr (hwrote.fresh c hc hold))
    rw [← not_or]
    intro hin
    exact ha ⟨⟨hv, hw⟩, c, hr, hown, hin⟩
  | closed hv hw =>
    apply putEntry_off
    intro i hi he
    exact ha ⟨⟨hv, hw⟩, i, hi, he⟩
  | _ => rfl

lemma Change.reserved (hg : Geometry g) (hc : Consistent g v fam) (hch : Change g fam v h r out v' fam')
    {a : ℕ} (ha : a < g.fatStartSector.toNat * g.bps.toNat) : v'.disk a = v.disk a := by
  have hbase : g.fatStartSector.toNat * g.bps.toNat ≤ dataBase g := by
    have hend := hg.fatEnd
    exact Nat.mul_le_mul_right _ (by omega)
  cases hch with
  | wrote hv hw hwrote _ =>
    apply hwrote.frame
    intro c _
    refine ⟨fun hin => ?_, fun hin => ?_⟩
    · have hge := hin.ge
      omega
    · have hge := hin.ge
      omega
  | closed hv hw =>
    obtain ⟨o, -, -, hf⟩ := (hc.handle h hv).live.slot
    exact putEntry_low hg (hc.fat.range _) hf (Nat.lt_of_lt_of_le ha hbase)
  | _ => rfl

lemma Change.files_other (hch : Change g fam v h r out v' fam') {h' : ℕ} (hh : h' ≠ h) :
    v'.files h' = v.files h' := by
  cases hch with
  | failed => rfl
  | listed => rfl
  | _ => exact Function.update_of_ne hh _ _

lemma Change.chain_other (hch : Change g fam v h r out v' fam') {c : UInt32}
    (hcc : Writing v h → c ≠ (v'.files h).firstCluster) : fam' c = fam c := by
  cases hch with
  | wrote hv hw _ _ =>
    have hne := hcc ⟨hv, hw⟩
    simp only [Function.update_self] at hne
    exact Function.update_of_ne hne _ _
  | _ => rfl

/-- Chains only grow, and only by clusters that were free. -/
lemma Change.grows (hc : Consistent g v fam) (hch : Change g fam v h r out v' fam') (c : UInt32) :
    fam c <+: fam' c ∧ ∀ b ∈ fam' c, b ∉ fam c → table g v.disk b = .free := by
  cases hch with
  | @wrote _ _ _ s' l' _ hv _ hwrote _ =>
    have hr := hc.rewritten hv hwrote
    refine ⟨hr.mono c, ?_⟩
    intro b hb hn
    by_cases hcc : c = s'.file.firstCluster
    · subst hcc
      rw [Function.update_self] at hb
      exact hr.fresh b hb hn
    · rw [Function.update_of_ne hcc] at hb
      exact absurd hb hn
  | _ => exact ⟨List.prefix_refl _, fun b hb hn => absurd hb hn⟩

/-- The FAT entries of clusters on no chain do not change. -/
lemma Change.table (hg : Geometry g) (hc : Consistent g v fam) (hch : Change g fam v h r out v' fam')
    {c : UInt32} (hcc : ∀ b, c ∉ fam' b) : table g v'.disk c = table g v.disk c := by
  cases hch with
  | @wrote _ _ _ s' _ _ _ _ hwrote _ =>
    have hcl := hcc s'.file.firstCluster
    rw [Function.update_self] at hcl
    exact hwrote.table_off hg hcl
  | closed hv _ =>
    obtain ⟨o, -, -, hf⟩ := (hc.handle h hv).live.slot
    rw [table_congr hg (fun a ha => putEntry_low hg (hc.fat.range _) hf ha)]
  | _ => rfl

lemma Change.returns (hch : Change g fam v h r out v' fam') (hr : ∀ path n, r ≠ .listDir path n) :
    out ≠ .spin := by
  cases hch with
  | listed => exact absurd rfl (hr _ _)
  | wrote _ _ _ hout =>
    rcases hout with ⟨rfl, -⟩ | ⟨rfl, -⟩ <;> simp
  | _ => simp

end Changes

end SBoy28.Fat32
