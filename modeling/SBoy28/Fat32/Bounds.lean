import SBoy28.Fat32.Model
import Mathlib.Logic.Function.Basic

/-!
# Sequences of calls and the bounds of the device

A sequence of calls works on the device and on the `FSFile` objects of its callers. Its
commands are all that ever touches the device buffer, so bounds are a statement about them.
-/

namespace SBoy28.Fat32
open Lib

inductive Request where
  | openFile (path : List UInt8) (mode : UInt8)
  | seek (position : UInt32)
  | read (out : Memory) (bytesToRead : UInt32)
  | write (data : Memory) (bytesToWrite : UInt32)
  | close
  | listDir (path : List UInt8) (maxEntries : UInt32)

/-- What a call gives back besides `FS_OK`. -/
inductive Reply where
  | done
  | bytes (count : UInt32) (out : Memory)
  | written (count : UInt32)
  | entries (l : List FSDirEntryInfo)

def Request.program (g : FSMount) (fuel : ℕ) : Request → Fs Reply
  | .openFile path mode => do
    fsOpen g fuel path mode
    return .done
  | .seek position => do
    fsSeek position
    return .done
  | .read out n => do
    let r ← fsRead g out n
    return .bytes r.1 r.2
  | .write data n => do
    let count ← fsWrite g data n
    return .written count
  | .close => do
    fsClose g
    return .done
  | .listDir path maxEntries => do
    let l ← fsListDir g fuel path maxEntries
    return .entries l

/-- The device and the callers' `FSFile` objects. -/
structure Volume where
  disk : Memory
  files : ℕ → FSFile

/-- One call on the `FSFile` number `h`. -/
def callOn (g : FSMount) (fuel : ℕ) (v : Volume) (h : ℕ) (r : Request) :
    Outcome FSErr Reply × Volume :=
  let res := (r.program g fuel).run (handler g) ⟨v.disk, v.files h⟩
  (res.1, ⟨res.2.disk, Function.update v.files h res.2.file⟩)

/-- The calls of a sequence, each with the state it starts from. The sequence ends with a call
that does not return. -/
def started (g : FSMount) (fuel : ℕ) : List (ℕ × Request) → Volume → List (Request × State)
  | [], _ => []
  | (h, r) :: rest, v =>
    (r, ⟨v.disk, v.files h⟩) ::
      match callOn g fuel v h r with
      | (.spin, _) => []
      | (_, v') => started g fuel rest v'

/-- The commands that a started call issues. -/
def issued (g : FSMount) (fuel : ℕ) (x : Request × State) : List (Command × State) :=
  (x.1.program g fuel).calls (handler g) x.2

section Accesses

variable (g : FSMount)

/-- Sector `s` covers bytes inside the device, computed over the integers. -/
def InBounds (s : UInt32) : Prop := (s.toNat + 1) * g.bps.toNat ≤ g.dev.size.toNat

instance (s : UInt32) : Decidable (InBounds g s) := inferInstanceAs (Decidable (_ ≤ _))

def Command.sector : Command → Option UInt32
  | .read s _ => some s
  | .write s _ => some s
  | _ => none

/-- The access covers exactly the bytes of its sector, and a sector that is not inside the
device is refused. -/
def Command.Exact (disk : Memory) : Command → Prop
  | .read s out => readSector g disk s out =
      if InBounds g s then
        .ok (copyTo out 0 (shift disk (s.toNat * g.bps.toNat)) g.bps.toNat)
      else .error .io
  | .write s data => writeSector g disk s data =
      if InBounds g s then .ok (copyTo disk (s.toNat * g.bps.toNat) data g.bps.toNat)
      else .error .io
  | _ => True

/-- The end of the sector does not wrap around to a value that the size test accepts. -/
def NoWrap (s : UInt32) : Prop :=
  (s.toNat + 1) * g.bps.toNat < 2 ^ 32 ∨ g.dev.size.toNat < (s.toNat + 1) * g.bps.toNat % 2 ^ 32

def Command.NoWrap (c : Command) : Prop := ∀ s ∈ c.sector, Fat32.NoWrap g s

variable {g} {s : UInt32}

lemma refused_iff : s * g.bps + g.bps > g.dev.size ↔
    g.dev.size.toNat < (s.toNat + 1) * g.bps.toNat % 2 ^ 32 := by
  rw [gt_iff_lt, UInt32.lt_iff_toNat_lt, UInt32.toNat_add, UInt32.toNat_mul, Nat.mod_add_mod,
    Nat.add_one_mul]

lemma NoWrap.refused_iff (h : NoWrap g s) :
    s * g.bps + g.bps > g.dev.size ↔ ¬InBounds g s := by
  have hsize := g.dev.size.toNat_lt
  rw [Fat32.refused_iff, InBounds, Nat.not_le]
  rcases h with h | h
  · rw [Nat.mod_eq_of_lt h]
  · have hle := Nat.mod_le ((s.toNat + 1) * g.bps.toNat) (2 ^ 32)
    omega

lemma InBounds.address (h : InBounds g s) : (s * g.bps).toNat = s.toNat * g.bps.toNat := by
  have hsize := g.dev.size.toNat_lt
  rw [InBounds, Nat.add_one_mul] at h
  rw [UInt32.toNat_mul]
  apply Nat.mod_eq_of_lt
  omega

lemma InBounds.noWrap (h : InBounds g s) : NoWrap g s := by
  have hsize := g.dev.size.toNat_lt
  unfold InBounds at h
  left
  omega

lemma readSector_exact (h : NoWrap g s) (disk out : Memory) :
    (Command.read s out).Exact g disk := by
  simp only [Command.Exact, readSector, h.refused_iff]
  by_cases hb : InBounds g s
  · simp [hb, hb.address]
  · simp [hb]

lemma writeSector_exact (h : NoWrap g s) (disk data : Memory) :
    (Command.write s data).Exact g disk := by
  simp only [Command.Exact, writeSector, h.refused_iff]
  by_cases hb : InBounds g s
  · simp [hb, hb.address]
  · simp [hb]

/-- A sector that wraps is accepted although it is not inside the device. -/
lemma wraps_accepted (h : ¬NoWrap g s) :
    ¬InBounds g s ∧ ¬s * g.bps + g.bps > g.dev.size := by
  rw [Fat32.refused_iff]
  exact ⟨fun hb => h hb.noWrap, fun hr => h (Or.inr hr)⟩

/-- An access is exact if and only if its sector number does not wrap. -/
theorem Command.exact_iff (c : Command) (disk : Memory) : c.Exact g disk ↔ c.NoWrap g := by
  cases c with
  | read s out =>
    constructor
    · rintro he s ⟨⟩
      by_contra hw
      obtain ⟨hb, hr⟩ := wraps_accepted hw
      simp only [Command.Exact, readSector, if_neg hr, if_neg hb] at he
      cases he
    · intro h
      exact readSector_exact (h s rfl) disk out
  | write s data =>
    constructor
    · rintro he s ⟨⟩
      by_contra hw
      obtain ⟨hb, hr⟩ := wraps_accepted hw
      simp only [Command.Exact, writeSector, if_neg hr, if_neg hb] at he
      cases he
    · intro h
      exact writeSector_exact (h s rfl) disk data
  | getFile => simp [Command.Exact, Command.NoWrap, Command.sector]
  | setFile file => simp [Command.Exact, Command.NoWrap, Command.sector]

/-- An exact access outside the device fails and leaves the state alone. -/
lemma Command.Exact.refused {c : Command} {st : State} (he : c.Exact g st.disk)
    (hs : c.sector = some s) (hb : ¬InBounds g s) :
    (handler g c st).1 = .error .io ∧ (handler g c st).2 = st := by
  cases c with
  | read s' out =>
    obtain rfl : s' = s := by simpa [Command.sector] using hs
    simp only [Command.Exact, if_neg hb] at he
    exact ⟨he, rfl⟩
  | write s' data =>
    obtain rfl : s' = s := by simpa [Command.sector] using hs
    simp only [Command.Exact, if_neg hb] at he
    simp [handler, he]
  | getFile => simp [Command.sector] at hs
  | setFile file => simp [Command.sector] at hs

end Accesses

/-- Every access of the call is exact, and one outside the device makes it return `FS_ERR_IO`
with the device as it was then. -/
def WithinBounds (g : FSMount) (fuel : ℕ) (x : Request × State) : Prop :=
  ∀ c ∈ issued g fuel x, c.1.Exact g c.2.disk ∧
    ∀ s, c.1.sector = some s → ¬InBounds g s →
      (x.1.program g fuel).run (handler g) x.2 = (.error .io, c.2)

/-- A sequence of calls stays within the device as far as no sector number wraps. -/
theorem device_bounds (g : FSMount) (fuel : ℕ) (requests : List (ℕ × Request)) (v : Volume) :
    (∀ x ∈ started g fuel requests v, WithinBounds g fuel x) ↔
      ∀ x ∈ started g fuel requests v, ∀ c ∈ issued g fuel x, c.1.NoWrap g := by
  constructor
  · intro h x hx c hc
    exact (Command.exact_iff c.1 c.2.disk).mp (h x hx c hc).1
  · intro h x hx c hc
    have he := (Command.exact_iff c.1 c.2.disk).mpr (h x hx c hc)
    refine ⟨he, ?_⟩
    intro s hs hb
    obtain ⟨hio, hst⟩ := he.refused hs hb
    rw [Program.calls_error _ hc hio, hst]

/-- A device of one sector: one sector for each cluster, no reserved sectors and no FAT, and
a root directory whose sector number times 512 is 2^32. -/
def wrappingDevice : Memory := fun a =>
  if a = 12 then 2 else if a = 13 then 1 else if 32 ≤ a ∧ a < 36 then byteOf 65525 (a - 32)
  else if 44 ≤ a ∧ a < 48 then byteOf 0x00800002 (a - 44) else 0

def wrappingMount : FSMount :=
  (fsMountFat32 (FSMount.zero (fun _ => 0)) ⟨1, 512⟩ wrappingDevice).2

/-- Listing the root of `wrappingDevice` reads its boot sector as sector 0x00800000. -/
theorem device_bounds_wrap :
    ¬∀ (g₀ : FSMount) (device : FSBlockDevice) (contents : Memory),
      (fsMountFat32 g₀ device contents).1 = .ok () →
        ∀ fuel requests v, v.disk = contents →
          ∀ x ∈ started (fsMountFat32 g₀ device contents).2 fuel requests v,
            WithinBounds (fsMountFat32 g₀ device contents).2 fuel x := by
  intro h
  have hwithin := h (FSMount.zero (fun _ => 0)) ⟨1, 512⟩ wrappingDevice rfl 1
    [(0, .listDir [slash] 1)] ⟨wrappingDevice, fun _ => ⟨0, 0, 0, 0, 0, 0, false⟩⟩ rfl _
    (List.mem_cons_self ..)
  have hread : (Command.read 0x00800000 (fun _ => 0),
      (⟨wrappingDevice, ⟨0, 0, 0, 0, 0, 0, false⟩⟩ : State)) ∈ issued wrappingMount 1
        (.listDir [slash] 1, ⟨wrappingDevice, ⟨0, 0, 0, 0, 0, 0, false⟩⟩) := List.mem_cons_self ..
  have hexact := (hwithin _ hread).1
  rw [Command.exact_iff] at hexact
  have hwrap : ¬NoWrap wrappingMount 0x00800000 := by
    unfold NoWrap
    decide
  exact hwrap (hexact _ rfl)

end SBoy28.Fat32
