import SBoy28.Fat32.Mount
import Mathlib.Data.List.Induction

/-!
# Mounts and handles

Mounts, unmounts and calls on handles in any order. A handle does not say on which mount it was
opened: the only checks of a call are that some volume is mounted and that the handle is open.
-/

namespace SBoy28.Fat32
open Lib

variable {g : FSMount} {fuel : ℕ} {s : System} {h : ℕ} {r : Request}

/-- The memory, `g_fs`, and the `FSFile` objects of the callers. A device is a range of the memory. -/
structure System where
  memory : Memory
  mount : FSMount
  files : ℕ → FSFile

inductive SysCall where
  | mount (device : FSBlockDevice)
  | unmount
  | file (h : ℕ) (r : Request)

section Calls

/-- The device of `g_fs`. -/
def System.volume (s : System) : Volume := ⟨shift s.memory s.mount.dev.base, s.files⟩

def System.store (s : System) (v : Volume) : System where
  memory := fun a => if s.mount.dev.base ≤ a then v.disk (a - s.mount.dev.base) else s.memory a
  mount := s.mount
  files := v.files

def System.call (fuel : ℕ) (s : System) : SysCall → Outcome FSErr Reply × System
  | .mount device =>
    let r := fsMountFat32 s.mount device (shift s.memory device.base)
    (.ofExcept (r.1.map fun _ => .done), { s with mount := r.2 })
  | .unmount =>
    let r := fsUnmount s.mount
    (.ofExcept (r.1.map fun _ => .done), { s with mount := r.2 })
  | .file h r =>
    let r := callOn s.mount fuel s.volume h r
    (r.1, s.store r.2)

/-- Before the first mount. -/
def System.boot (memory stack : Memory) (files : ℕ → FSFile) : System where
  memory := memory
  mount := FSMount.zero stack
  files := files

end Calls

section Specification

/-- The successful mounts so far, the number of the current one, and for every handle the number of
the mount on which it was opened last. -/
structure MountLog where
  mounts : ℕ
  current : Option ℕ
  openedIn : ℕ → Option ℕ

def MountLog.start : MountLog := ⟨0, none, fun _ => none⟩

/-- A mount that fails on the contents of the device ends the current one. -/
def MountLog.next (l : MountLog) : SysCall → Outcome FSErr Reply → MountLog
  | .mount _, .ok _ => { l with mounts := l.mounts + 1, current := some (l.mounts + 1) }
  | .mount device, _ => if device.base = 0 ∨ device.size < 512 then l else { l with current := none }
  | .unmount, _ => { l with current := none }
  | .file h (.openFile _ _), .ok _ => { l with openedIn := Function.update l.openedIn h l.current }
  | .file _ _, _ => l

def logCall (fuel : ℕ) (x : System × MountLog) (c : SysCall) : System × MountLog :=
  ((x.1.call fuel c).2, x.2.next c (x.1.call fuel c).1)

/-- The system and the log after a sequence of calls. -/
def afterCalls (fuel : ℕ) (s : System) (calls : List SysCall) : System × MountLog :=
  calls.foldl (logCall fuel) (s, MountLog.start)

def Command.isAccess : Command → Bool
  | .read _ _ => true
  | .write _ _ => true
  | _ => false

/-- The call reads or writes a sector. -/
def Touches (fuel : ℕ) (s : System) (h : ℕ) (r : Request) : Prop :=
  ∃ x ∈ (r.program s.mount fuel).calls (handler s.mount) ⟨s.volume.disk, s.files h⟩, x.1.isAccess = true

/-- The call returns `FS_OK`, or reads or writes a sector. -/
def Served (fuel : ℕ) (s : System) (h : ℕ) (r : Request) : Prop :=
  (∃ reply, (s.call fuel (.file h r)).1 = .ok reply) ∨ Touches fuel s h r

/-- `fs_read`, `fs_write` or `fs_close`. -/
def Request.usesHandle : Request → Bool
  | .read _ _ => true
  | .write _ _ => true
  | .close => true
  | _ => false

/-- What the log says about the system. -/
structure Logged (s : System) (l : MountLog) : Prop where
  mounted : s.mount.mounted = true ↔ l.current = some l.mounts
  current : ∀ k, l.current = some k → k = l.mounts
  opened : ∀ h, (s.files h).valid = true → ∃ k ≤ l.mounts, l.openedIn h = some k

end Specification

section Steps

lemma store_volume (s : System) : s.store s.volume = s := by
  have hmem : (fun a => if s.mount.dev.base ≤ a then s.volume.disk (a - s.mount.dev.base) else s.memory a) =
      s.memory := by
    funext a
    by_cases ha : s.mount.dev.base ≤ a
    · simp [System.volume, ha]
    · simp [ha]
  rw [System.store, hmem]
  rfl

lemma fsMountFat32_error {device : FSBlockDevice} {contents : Memory} {e : FSErr}
    (h : (fsMountFat32 g device contents).1 = .error e) :
    (fsMountFat32 g device contents).2 = g ∧ (device.base = 0 ∨ device.size < 512) ∨
      (fsMountFat32 g device contents).2.mounted = false ∧ ¬(device.base = 0 ∨ device.size < 512) := by
  by_cases hd : device.base = 0 ∨ device.size < 512
  · exact Or.inl ⟨by simp [fsMountFat32, hd], hd⟩
  · refine Or.inr ⟨?_, hd⟩
    simp only [fsMountFat32, if_neg hd] at h ⊢
    split
    · rfl
    · rename_i hzero
      rw [if_neg hzero] at h
      split
      · rfl
      · rename_i hcount
        rw [if_neg hcount] at h
        cases h

lemma callOn_unmounted {v : Volume} (hm : g.mounted = false) (hr : r.usesHandle = true) :
    callOn g fuel v h r = (.error .notMounted, v) := by
  apply callOn_unchanged
  cases r with
  | read out n => simp [Request.program, fsRead, hm, Program.run_bind]
  | write data n => simp [Request.program, fsWrite, hm, Program.run_bind]
  | close => simp [Request.program, fsClose, hm, Program.run_bind]
  | _ => cases hr

lemma callOn_refused {v : Volume} (hv : (v.files h).valid = false) (hr : r.usesHandle = true) :
    ∃ e, callOn g fuel v h r = (.error e, v) := by
  cases r with
  | read out n =>
    obtain ⟨e, hrun⟩ := run_fsRead_refused (g := g) (s := ⟨v.disk, v.files h⟩) (Or.inl hv) out n
    exact ⟨e, callOn_unchanged (Program.run_bind_error hrun)⟩
  | write data n =>
    obtain ⟨e, hrun⟩ := run_fsWrite_refused (g := g) (s := ⟨v.disk, v.files h⟩) (Or.inl hv) data n
    exact ⟨e, callOn_unchanged (Program.run_bind_error hrun)⟩
  | close =>
    obtain ⟨e, hrun⟩ := run_fsClose_refused (g := g) (s := ⟨v.disk, v.files h⟩) hv
    exact ⟨e, callOn_unchanged (Program.run_bind_error hrun)⟩
  | _ => cases hr

/-- Apart from `fs_open`, a call on a closed handle changes nothing. -/
lemma callOn_closed {v : Volume} (hv : (v.files h).valid = false) (hr : ∀ path mode, r ≠ .openFile path mode) :
    (callOn g fuel v h r).2 = v := by
  by_cases hu : r.usesHandle = true
  · obtain ⟨e, he⟩ : ∃ e, callOn g fuel v h r = (.error e, v) := callOn_refused hv hu
    rw [he]
  · cases r with
    | openFile path mode => exact absurd rfl (hr path mode)
    | seek position => rw [callOn_seek, if_neg (by simp [hv])]
    | listDir path maxEntries =>
      have hdoes : Does g fuel (fun _ => []) v h (.listDir path maxEntries) := does_list path maxEntries
      obtain ⟨fam', hch⟩ := hdoes
      generalize callOn g fuel v h (.listDir path maxEntries) = res at hch ⊢
      obtain ⟨out, v'⟩ := res
      cases hch <;> rfl
    | _ => exact absurd rfl hu

/-- `fs_open` fills in the handle if it returns `FS_OK`, which it does only on a mounted volume. -/
lemma callOn_open {v : Volume} (path : List UInt8) (mode : UInt8) :
    (g.mounted = true ∧ (callOn g fuel v h (.openFile path mode)).1 = .ok .done) ∨
      (callOn g fuel v h (.openFile path mode)).2 = v ∧
        ∀ reply, (callOn g fuel v h (.openFile path mode)).1 ≠ .ok reply := by
  rw [callOn_openFile]
  cases ho : openOutcome g v.disk fuel path mode with
  | error e => exact Or.inr ⟨rfl, by simp⟩
  | spin => exact Or.inr ⟨rfl, by simp⟩
  | ok file =>
    refine Or.inl ⟨?_, rfl⟩
    by_contra hm
    rw [openOutcome, if_pos (by simpa using hm)] at ho
    cases ho

/-- Without a mounted volume, or on a closed handle, no sector is accessed. -/
lemma not_touches (hr : r.usesHandle = true) (hs : s.mount.mounted = false ∨ (s.files h).valid = false) :
    ¬Touches fuel s h r := by
  rintro ⟨x, hx, ha⟩
  have hcalls : x.1 = .getFile := by
    cases hm : s.mount.mounted with
    | false =>
      cases r with
      | read out n => simp [Request.program, fsRead, hm, Program.calls_bind, Program.run_bind] at hx
      | write data n => simp [Request.program, fsWrite, hm, Program.calls_bind, Program.run_bind] at hx
      | close => simp [Request.program, fsClose, hm, Program.calls_bind, Program.run_bind] at hx
      | _ => cases hr
    | true =>
      have hv : (s.files h).valid = false := hs.resolve_left (by simp [hm])
      cases r with
      | read out n =>
        simp [Request.program, fsRead, hm, hv, getFile, Program.calls_bind, Program.run_bind,
          Program.calls_perform, Program.run_perform, handler] at hx
        rw [hx]
      | write data n =>
        simp [Request.program, fsWrite, hm, hv, getFile, Program.calls_bind, Program.run_bind,
          Program.calls_perform, Program.run_perform, handler] at hx
        rw [hx]
      | close =>
        simp [Request.program, fsClose, hm, hv, getFile, Program.calls_bind, Program.run_bind,
          Program.calls_perform, Program.run_perform, handler] at hx
        rw [hx]
      | _ => cases hr
  rw [hcalls] at ha
  cases ha

lemma Served.handle (hs : Served fuel s h r) (hr : r.usesHandle = true) :
    s.mount.mounted = true ∧ (s.files h).valid = true := by
  constructor
  · by_contra hm
    have hm : s.mount.mounted = false := by simpa using hm
    rcases hs with ⟨reply, hok⟩ | ht
    · rw [System.call, callOn_unmounted hm hr] at hok
      cases hok
    · exact not_touches hr (Or.inl hm) ht
  · by_contra hv
    have hv : (s.volume.files h).valid = false := by simpa [System.volume] using hv
    rcases hs with ⟨reply, hok⟩ | ht
    · obtain ⟨e, he⟩ : ∃ e, callOn s.mount fuel s.volume h r = (.error e, s.volume) := callOn_refused hv hr
      rw [System.call, he] at hok
      cases hok
    · exact not_touches hr (Or.inr hv) ht

end Steps

section Runs

lemma Logged.start (memory stack : Memory) {files : ℕ → FSFile} (hclosed : ∀ h, (files h).valid = false) :
    Logged (System.boot memory stack files) MountLog.start where
  mounted := by simp [System.boot, FSMount.zero, MountLog.start]
  current k hk := by cases hk
  opened h hv := by
    rw [System.boot, hclosed h] at hv
    cases hv

lemma Logged.mount {l : MountLog} (hl : Logged s l) (device : FSBlockDevice) :
    Logged (s.call fuel (.mount device)).2 (l.next (.mount device) (s.call fuel (.mount device)).1) := by
  cases hm : fsMountFat32 s.mount device (shift s.memory device.base) with
  | mk code g =>
    simp only [System.call, hm]
    cases code with
    | ok _ =>
      obtain ⟨heq, -⟩ := fsMountFat32_ok hm
      refine ⟨by simp [heq, MountLog.next, Except.map, Outcome.ofExcept], ?_, ?_⟩
      · intro k hk
        exact (Option.some.inj hk).symm
      · intro h hv
        obtain ⟨k, hk, ho⟩ := hl.opened h hv
        exact ⟨k, Nat.le_succ_of_le hk, ho⟩
    | error e =>
      have hnext : l.next (.mount device) (.error e) =
          if device.base = 0 ∨ device.size < 512 then l else { l with current := none } := rfl
      have herr := fsMountFat32_error (congrArg Prod.fst hm)
      rw [hm] at herr
      simp only [Except.map, Outcome.ofExcept, hnext]
      rcases herr with ⟨hg, hd⟩ | ⟨hg, hd⟩
      · have hg : g = s.mount := hg
        rw [if_pos hd, hg]
        exact hl
      · rw [if_neg hd]
        refine ⟨by simpa using hg, ?_, hl.opened⟩
        intro k hk
        cases hk

lemma Logged.openFile {l : MountLog} (hl : Logged s l) (h : ℕ) (path : List UInt8) (mode : UInt8) :
    Logged (s.call fuel (.file h (.openFile path mode))).2
      (l.next (.file h (.openFile path mode)) (s.call fuel (.file h (.openFile path mode))).1) := by
  cases hcall : callOn s.mount fuel s.volume h (.openFile path mode) with
  | mk out v =>
    have hopen : s.mount.mounted = true ∧ (callOn s.mount fuel s.volume h (.openFile path mode)).1 = .ok .done ∨
      _ := callOn_open path mode
    rw [hcall] at hopen
    simp only [System.call, hcall]
    rcases hopen with ⟨hm, hok⟩ | ⟨hv, hout⟩
    · have hcur := hl.mounted.mp hm
      have hnext : l.next (.file h (.openFile path mode)) (.ok .done) =
          { l with openedIn := Function.update l.openedIn h l.current } := rfl
      rw [show out = .ok .done from hok, hnext]
      refine ⟨hl.mounted, hl.current, ?_⟩
      intro h' hv
      by_cases hh : h' = h
      · subst hh
        exact ⟨l.mounts, Nat.le_refl _, by simp [hcur]⟩
      · have hother : (callOn s.mount fuel s.volume h (.openFile path mode)).2.files h' = s.files h' :=
          callOn_other hh
        rw [hcall] at hother
        have hv' : (s.files h').valid = true := by rwa [← hother]
        simpa [Function.update_of_ne hh] using hl.opened h' hv'
    · have hnext : l.next (.file h (.openFile path mode)) out = l := by
        cases out with
        | ok reply => exact absurd rfl (hout reply)
        | _ => rfl
      rw [hnext, show v = s.volume from hv, store_volume]
      exact hl

lemma Logged.file {l : MountLog} (hl : Logged s l) (h : ℕ) {r : Request}
    (hr : ∀ path mode, r ≠ .openFile path mode) :
    Logged (s.call fuel (.file h r)).2 (l.next (.file h r) (s.call fuel (.file h r)).1) := by
  have hnext : l.next (.file h r) (s.call fuel (.file h r)).1 = l := by
    cases r with
    | openFile path mode => exact absurd rfl (hr path mode)
    | _ => rfl
  rw [hnext]
  refine ⟨hl.mounted, hl.current, ?_⟩
  intro h' hv
  apply hl.opened h'
  by_cases hh : h' = h
  · subst hh
    by_contra hn
    have hclosed : (s.volume.files h').valid = false := by simpa [System.volume] using hn
    rw [System.call, callOn_closed hclosed hr, store_volume] at hv
    exact hn hv
  · simp only [System.call, System.store] at hv
    rwa [callOn_other hh] at hv

/-- What one call does to the log agrees with what it does to the system. -/
theorem Logged.call {l : MountLog} (hl : Logged s l) (c : SysCall) :
    Logged (s.call fuel c).2 (l.next c (s.call fuel c).1) := by
  cases c with
  | mount device => exact hl.mount device
  | unmount =>
    refine ⟨by simp [System.call, fsUnmount, FSMount.zero, MountLog.next], ?_, hl.opened⟩
    intro k hk
    cases hk
  | file h r =>
    cases r with
    | openFile path mode => exact hl.openFile h path mode
    | _ => exact hl.file h (by simp)

theorem logged_after {memory stack : Memory} {files : ℕ → FSFile} {calls : List SysCall} {l : MountLog}
    (hclosed : ∀ h, (files h).valid = false)
    (hrun : afterCalls fuel (System.boot memory stack files) calls = (s, l)) : Logged s l := by
  induction calls using List.reverseRecOn generalizing s l with
  | nil =>
    obtain ⟨rfl, rfl⟩ := Prod.mk.inj hrun
    exact Logged.start memory stack hclosed
  | append_singleton calls c ih =>
    rw [afterCalls, List.foldl_append] at hrun
    obtain ⟨rfl, rfl⟩ := Prod.mk.inj hrun
    exact (ih rfl).call c

/-- In every sequence of calls, `fs_read`, `fs_write` and `fs_close` return `FS_OK` or access a sector
only while a mount is current, the one on which the handle was opened or a later one. While no mount
is current they fail and change nothing. -/
theorem handles_and_mounts {memory stack : Memory} {files : ℕ → FSFile} {calls : List SysCall}
    {l : MountLog} (hclosed : ∀ h, (files h).valid = false)
    (hrun : afterCalls fuel (System.boot memory stack files) calls = (s, l)) (h : ℕ)
    (hr : r.usesHandle = true) :
    (Served fuel s h r →
      ∃ k, l.current = some k ∧ (l.openedIn h = some k ∨ ∃ k' < k, l.openedIn h = some k')) ∧
    (l.current = none → s.call fuel (.file h r) = (.error .notMounted, s) ∧ ¬Touches fuel s h r) := by
  have hl := logged_after hclosed hrun
  constructor
  · intro hs
    obtain ⟨hm, hv⟩ := hs.handle hr
    obtain ⟨k, hk, ho⟩ := hl.opened h hv
    refine ⟨l.mounts, hl.mounted.mp hm, ?_⟩
    rcases Nat.eq_or_lt_of_le hk with rfl | hlt
    · exact Or.inl ho
    · exact Or.inr ⟨k, hlt, ho⟩
  · intro hcur
    have hm : s.mount.mounted = false := by
      by_contra hn
      have hsome := hl.mounted.mp (by simpa using hn)
      rw [hcur] at hsome
      cases hsome
    refine ⟨?_, not_touches hr (Or.inl hm)⟩
    rw [System.call, callOn_unmounted hm hr, store_volume]

/-- Two devices, both formatted. -/
def twoDevices : System where
  memory := fun a => if a < 34073601 then formattedDisk (a - 1) else formattedDisk (a - 34073601)
  mount := FSMount.zero (fun _ => 0)
  files := fun _ => ⟨0, 0, 0, 0, 0, 0, false⟩

/-- The file `A` of the first device is opened. -/
def openedOnFirst : List SysCall := [.mount ⟨1, 34073600⟩, .file 0 (.openFile pathA fsOpenWrite)]

/-- Closing the file of the first device, with the first device mounted and without a mount. -/
theorem handles_and_mounts_two :
    (∃ s l, afterCalls 2 twoDevices openedOnFirst = (s, l) ∧ l.openedIn 0 = some 1 ∧
        Served 2 s 0 .close ∧
        ∃ k, l.current = some k ∧ (l.openedIn 0 = some k ∨ ∃ k' < k, l.openedIn 0 = some k')) ∧
      ∃ s l, afterCalls 2 twoDevices (openedOnFirst ++ [.unmount]) = (s, l) ∧ l.openedIn 0 = some 1 ∧
        s.call 2 (.file 0 .close) = (.error .notMounted, s) ∧ ¬Touches 2 s 0 .close := by
  constructor
  · obtain ⟨s, l, hrun⟩ : ∃ s l, afterCalls 2 twoDevices openedOnFirst = (s, l) := ⟨_, _, rfl⟩
    have hopened : (afterCalls 2 twoDevices openedOnFirst).2.openedIn 0 = some 1 := by decide +kernel
    have hok : ((afterCalls 2 twoDevices openedOnFirst).1.call 2 (.file 0 .close)).1.isOk = true := by
      decide +kernel
    rw [hrun] at hopened hok
    have hserved : Served 2 s 0 .close := Or.inl (Outcome.isOk_iff.mp hok)
    exact ⟨s, l, hrun, hopened, hserved, (handles_and_mounts (fun _ => rfl) hrun 0 rfl).1 hserved⟩
  · obtain ⟨s, l, hrun⟩ : ∃ s l, afterCalls 2 twoDevices (openedOnFirst ++ [.unmount]) = (s, l) :=
      ⟨_, _, rfl⟩
    have hlog : (afterCalls 2 twoDevices (openedOnFirst ++ [.unmount])).2.openedIn 0 = some 1 ∧
        (afterCalls 2 twoDevices (openedOnFirst ++ [.unmount])).2.current = none := by
      decide +kernel
    rw [hrun] at hlog
    exact ⟨s, l, hrun, hlog.1, (handles_and_mounts (fun _ => rfl) hrun 0 rfl).2 hlog.2⟩

/-- A handle of the first device is served by the second one. -/
theorem handles_and_mounts_remount :
    ¬∀ (fuel : ℕ) (memory stack : Memory) (files : ℕ → FSFile) (calls : List SysCall) (s : System)
      (l : MountLog) (h : ℕ) (r : Request), (∀ h, (files h).valid = false) →
        afterCalls fuel (System.boot memory stack files) calls = (s, l) → r.usesHandle = true →
          Served fuel s h r → ∃ k, l.current = some k ∧ l.openedIn h = some k := by
  intro hclaim
  obtain ⟨s, l, hrun⟩ : ∃ s l, afterCalls 2 twoDevices (openedOnFirst ++ [.mount ⟨34073601, 34073600⟩]) =
      (s, l) := ⟨_, _, rfl⟩
  have hlog : (afterCalls 2 twoDevices (openedOnFirst ++ [.mount ⟨34073601, 34073600⟩])).2.current = some 2 ∧
      (afterCalls 2 twoDevices (openedOnFirst ++ [.mount ⟨34073601, 34073600⟩])).2.openedIn 0 = some 1 := by
    decide +kernel
  have hok : ((afterCalls 2 twoDevices (openedOnFirst ++ [.mount ⟨34073601, 34073600⟩])).1.call 2
      (.file 0 .close)).1.isOk = true := by
    decide +kernel
  rw [hrun] at hlog hok
  have hserved : Served 2 s 0 .close := Or.inl (Outcome.isOk_iff.mp hok)
  obtain ⟨k, hcur, hopened⟩ := hclaim 2 twoDevices.memory (fun _ => 0) twoDevices.files _ s l 0 .close
    (fun _ => rfl) hrun rfl hserved
  rw [hlog.1, Option.some.injEq] at hcur
  rw [hlog.2, Option.some.injEq] at hopened
  omega

end Runs

end SBoy28.Fat32
