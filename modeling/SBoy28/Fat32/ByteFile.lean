import SBoy28.Fat32.Mount
import SBoy28.Lib.Simulation

/-!
# Files as arrays of bytes

What a file is to its callers: an array of bytes that is read and written at a position. The
calls made through one handle at a time behave like this, whatever the clusters behind them.
-/

namespace SBoy28.Fat32
open Lib

variable {g : FSMount} {fuel : ℕ} {v v' : Volume} {fam fam' fam₀ : Family} {h : ℕ}
  {disk disk₀ : Memory} {files : ℕ → FSFile} {path : List UInt8} {d : Slot} {reply : Reply}

/-- A file as its callers see it. The bytes behind its end have no meaning. -/
structure ByteFile where
  size : ℕ
  byte : ℕ → UInt8

namespace ByteFile

/-- The calls on a file, open at a position or closed. `grown` gives the size after a write from
the old size, the position and the number of bytes. A write leaves the bytes between an old end
and its position open. -/
inductive Step (grown : ℕ → ℕ → ℕ → ℕ) :
    ByteFile × Option ℕ → Request × Reply → ByteFile × Option ℕ → Prop where
  | openFile {f : ByteFile} {path : List UInt8} {mode : UInt8} :
      Step grown (f, none) (.openFile path mode, .done) (f, some 0)
  | seek {f : ByteFile} {p : ℕ} {position : UInt32} :
      Step grown (f, some p) (.seek position, .done) (f, some position.toNat)
  | read {f : ByteFile} {p : ℕ} {out : Memory} {n count : UInt32}
      (hcount : count.toNat = min n.toNat (f.size - p)) :
      Step grown (f, some p) (.read out n, .bytes count (copyTo out 0 (shift f.byte p) count.toNat))
        (f, some (p + count.toNat))
  | write {f f' : ByteFile} {p : ℕ} {data : Memory} {n : UInt32}
      (hsize : f'.size = grown f.size p n.toNat) (hdata : ∀ i < n.toNat, f'.byte (p + i) = data i)
      (hold : ∀ i < f.size, i < p ∨ p + n.toNat ≤ i → f'.byte i = f.byte i) :
      Step grown (f, some p) (.write data n, .written n) (f', some (p + n.toNat))
  | close {f : ByteFile} {p : ℕ} : Step grown (f, some p) (.close, .done) (f, none)

/-- The size after a write: a write of no bytes leaves it alone. -/
def grownSize (size p n : ℕ) : ℕ := if n = 0 then size else max size (p + n)

end ByteFile

/-- A call on an open handle that leaves it open. -/
def Request.isData : Request → Bool
  | .seek _ => true
  | .read _ _ => true
  | .write _ _ => true
  | _ => false

/-- Successful calls on one file, through one handle at a time. The state has the handle that is
open. -/
inductive FileStep (g : FSMount) (fuel : ℕ) (path : List UInt8) :
    Volume × Option ℕ → Request × Reply → Volume × Option ℕ → Prop where
  | openFile {v : Volume} {h : ℕ} {mode : UInt8} {reply : Reply}
      (hok : (callOn g fuel v h (.openFile path mode)).1 = .ok reply) :
      FileStep g fuel path (v, none) (.openFile path mode, reply)
        ((callOn g fuel v h (.openFile path mode)).2, some h)
  | call {v : Volume} {h : ℕ} {r : Request} {reply : Reply} (hr : r.isData = true)
      (hok : (callOn g fuel v h r).1 = .ok reply) :
      FileStep g fuel path (v, some h) (r, reply) ((callOn g fuel v h r).2, some h)
  | close {v : Volume} {h : ℕ} {reply : Reply} (hok : (callOn g fuel v h .close).1 = .ok reply) :
      FileStep g fuel path (v, some h) (.close, reply) ((callOn g fuel v h .close).2, none)

section Simulation

/-- A chain holds this file. -/
structure Stores (g : FSMount) (disk : Memory) (l : List UInt32) (n : UInt32) (f : ByteFile) :
    Prop where
  size : f.size = n.toNat
  byte : ∀ i < n.toNat, content g disk l i = f.byte i

/-- The directory entry and its chain hold this file. -/
def Saved (g : FSMount) (disk : Memory) (fam : Family) (d : Slot) (f : ByteFile) : Prop :=
  Stores g disk (fam (entryAt g disk d).firstCluster) (entryAt g disk d).fileSize f

/-- The handle and its chain hold this file. Without the right to write the handle is a copy of
the entry. -/
structure Cached (g : FSMount) (disk : Memory) (fam : Family) (file : FSFile) (f : ByteFile) :
    Prop where
  stores : Stores g disk (fam file.firstCluster) file.size f
  entry : file.canWrite = false → (entryAt g disk file.slot).firstCluster = file.firstCluster ∧
    (entryAt g disk file.slot).fileSize = file.size

/-- The file of the volume at a handle that may be open, and the abstract one. -/
inductive Related (g : FSMount) (v : Volume) (fam : Family) (d : Slot) :
    Option ℕ → ByteFile × Option ℕ → Prop where
  | closed {f : ByteFile} (hs : Saved g v.disk fam d f) : Related g v fam d none (f, none)
  | opened {h : ℕ} {f : ByteFile} (hv : (v.files h).valid = true) (hd : (v.files h).slot = d)
      (hs : Cached g v.disk fam (v.files h) f) :
      Related g v fam d (some h) (f, some (v.files h).position.toNat)

variable {a : ByteFile × Option ℕ} {f : ByteFile}

lemma related_opened (file : FSFile) (hfile : v.files h = file) (hv : file.valid = true)
    (hd : file.slot = d) (hs : Cached g v.disk fam file f) :
    Related g v fam d (some h) (f, some file.position.toNat) := by
  subst hfile
  exact Related.opened hv hd hs

lemma Related.openFile {mode : UInt8} (hrel : Related g v fam d none a)
    (hpath : walkPath g v.disk (chainOf g v.disk fam) (path.length + 1) path none = some (some d))
    (hch : Change g fam v h (.openFile path mode) (.ok reply) v' fam') :
    ∃ a', ByteFile.Step ByteFile.grownSize a (.openFile path mode, reply) a' ∧
      Related g v' fam' d (some h) a' := by
  cases hrel with
  | closed hs =>
    cases hch with
    | @opened _ _ d' hd hfile hwritable hpath' =>
      obtain rfl : d = d' := by
        rw [hpath'] at hpath
        exact (Option.some.inj (Option.some.inj hpath)).symm
      exact ⟨_, ByteFile.Step.openFile,
        related_opened (openedFile (foundAt g v.disk d) mode) (Function.update_self _ _ _) rfl rfl
          ⟨hs, fun _ => ⟨rfl, rfl⟩⟩⟩

lemma Related.setPosition {p : ℕ} (hrel : Related g v fam d (some h) (f, some p)) (position : UInt32) :
    Related g (v.setFile h { v.files h with position := position }) fam d (some h)
      (f, some position.toNat) := by
  cases hrel with
  | opened hv hd hs =>
    exact related_opened { v.files h with position := position } (Function.update_self _ _ _)
      hv hd ⟨hs.stores, hs.entry⟩

lemma Related.seek {position : UInt32} (hrel : Related g v fam d (some h) a)
    (hch : Change g fam v h (.seek position) (.ok reply) v' fam') :
    ∃ a', ByteFile.Step ByteFile.grownSize a (.seek position, reply) a' ∧
      Related g v' fam' d (some h) a' := by
  cases hch with
  | moved hv =>
    obtain ⟨f, p⟩ := a
    have hrel' := hrel
    cases hrel' with
    | opened _ _ _ => exact ⟨_, ByteFile.Step.seek, hrel.setPosition _⟩

lemma Related.read {out : Memory} {n : UInt32} (hrel : Related g v fam d (some h) a)
    (hch : Change g fam v h (.read out n) (.ok reply) v' fam') :
    ∃ a', ByteFile.Step ByteFile.grownSize a (.read out n, reply) a' ∧
      Related g v' fam' d (some h) a' := by
  cases hch with
  | @read _ _ k hv hr hk =>
    have hrel' := hrel
    cases hrel' with
    | @opened _ f _ _ hs =>
      have hsize := hs.stores.size
      have hlt := n.toNat_lt
      have hcount : (UInt32.ofNat k).toNat = k := toNat_ofNat_of_lt (by omega)
      have hbytes : copyTo out 0 (shift (content g v.disk (fam (v.files h).firstCluster))
            (v.files h).position.toNat) k =
          copyTo out 0 (shift f.byte (v.files h).position.toNat) (UInt32.ofNat k).toNat := by
        rw [hcount]
        apply copyTo_congr
        intro i hi
        exact hs.stores.byte _ (by omega)
      have hposition : ((v.files h).position + UInt32.ofNat k).toNat =
          (v.files h).position.toNat + (UInt32.ofNat k).toNat := by
        have hend := (v.files h).size.toNat_lt
        have hpos := (v.files h).position.toNat_lt
        apply toNat_add_of_lt
        omega
      rw [hbytes]
      refine ⟨_, ByteFile.Step.read ?_, ?_⟩
      · rw [hcount, hsize]
        exact hk
      · rw [← hposition]
        exact hrel.setPosition _

lemma Related.write {data : Memory} {n : UInt32} (hg : Geometry g) (hc : Consistent g v fam)
    (hrel : Related g v fam d (some h) a) (hch : Change g fam v h (.write data n) (.ok reply) v' fam') :
    ∃ a', ByteFile.Step ByteFile.grownSize a (.write data n, reply) a' ∧
      Related g v' fam' d (some h) a' := by
  cases hch with
  | @wrote _ _ k s' l' _ hv hw hwrote hout =>
    obtain ⟨hreply, rfl⟩ : reply = .written n ∧ k = n.toNat := by simpa using hout
    subst hreply
    cases hrel with
    | @opened _ f _ hd hs =>
      have hok := hc.handle h hv
      have hold := hok.size
      have hsize := hs.stores.size
      have hlen := Nat.mul_le_mul_right (clusterBytes g) hwrote.pre.length_le
      have hslot : s'.file.slot = (v.files h).slot ∧ s'.file.valid = true ∧ s'.file.canWrite = true := by
        rw [hwrote.file]
        exact ⟨rfl, hv, hw⟩
      have hbyte : ∀ i < (v.files h).size.toNat, content g v.disk l' i = f.byte i := by
        intro i hi
        rw [← hs.stores.byte i hi, content, content, contentAddr_prefix hg hwrote.pre (by omega)]
      have hroom := hwrote.room
      simp only at hroom
      refine ⟨(⟨s'.file.size.toNat, content g s'.disk l'⟩, some s'.file.position.toNat), ?_, ?_⟩
      · rw [hwrote.position]
        apply ByteFile.Step.write
        · rw [hwrote.size, hsize]
          rfl
        · intro i hi
          have hin : (v.files h).position.toNat + i < l'.length * clusterBytes g := by omega
          exact (hwrote.bytes _ hin).trans (copyTo_inside _ _ _ _ _ hi)
        · intro i hi hoff
          have hin : i < l'.length * clusterBytes g := by omega
          exact ((hwrote.bytes i hin).trans (copyTo_outside _ _ hoff)).trans (hbyte i (by omega))
      · apply related_opened s'.file (Function.update_self _ _ _) hslot.2.1 (hslot.1.trans hd)
        refine ⟨⟨rfl, ?_⟩, fun hn => absurd hn (by simp [hslot.2.2])⟩
        intro i _
        rw [Function.update_self]

/-- A stored entry does not lie in the file itself. -/
lemma Consistent.data_close (hg : Geometry g) (hc : Consistent g v fam) {file : FSFile}
    (hok : HandleOk g v.disk fam file) {i : ℕ}
    (hi : i < (fam file.firstCluster).length * clusterBytes g) :
    content g (putEntry g v.disk file) (fam file.firstCluster) i =
      content g v.disk (fam file.firstCluster) i := by
  obtain ⟨c, hcc, ha⟩ := contentAddr_inData hg hi
  obtain ⟨o, ho, hdir, hf⟩ := hok.live.slot
  obtain ⟨-, -, -, b, hb, hin⟩ := mem_slots hg (hc.fat.range _) hf
  apply putEntry_off
  intro j hj he
  have hlt : j < 32 := by
    simp only [EntryField] at hj
    omega
  have hbc := InData.unique (hc.fat.range _ c hcc) (hc.fat.range _ b hb) ha (he ▸ hin j hlt)
  have hfirst := hc.fat.family.apart _ _ c (hbc ▸ hb) hcc
  have hown := hok.own o ho hfirst (List.ne_nil_of_mem hcc)
  rw [hown, isDir, hok.isFile] at hdir
  exact absurd hdir (by simp)

lemma Related.close (hg : Geometry g) (hc : Consistent g v fam) (hrel : Related g v fam d (some h) a)
    (hch : Change g fam v h .close (.ok reply) v' fam') :
    ∃ a', ByteFile.Step ByteFile.grownSize a (.close, reply) a' ∧ Related g v' fam' d none a' := by
  cases hrel with
  | @opened _ f _ hd hs =>
    cases hch with
    | closed hv hw =>
      refine ⟨_, ByteFile.Step.close, Related.closed ?_⟩
      have hok := hc.handle h hv
      have hold := hok.size
      rw [Saved, ← hd, firstCluster_putEntry, entryAt_putEntry]
      refine ⟨hs.stores.size, ?_⟩
      intro i hi
      rw [← hs.stores.byte i hi]
      exact hc.data_close hg hok (Nat.lt_of_lt_of_le hi hold)
    | released hv hw =>
      refine ⟨_, ByteFile.Step.close, Related.closed ?_⟩
      obtain ⟨hfirst, hsize⟩ := hs.entry hw
      rw [Saved, ← hd]
      simp only [Volume.setFile, hfirst, hsize]
      exact hs.stores

/-- The volume is consistent with the directories it had, and its file is the abstract one. -/
def Simulates (g : FSMount) (disk₀ : Memory) (fam₀ : Family) (d : Slot) (s : Volume × Option ℕ)
    (a : ByteFile × Option ℕ) : Prop :=
  ∃ fam, Consistent g s.1 fam ∧
    SameTree g disk₀ s.1.disk (chainOf g disk₀ fam₀) (chainOf g s.1.disk fam) ∧
    Related g s.1 fam d s.2 a

lemma Simulates.call {r : Request} {l : Request × Reply} {o o' : Option ℕ} (hg : Geometry g)
    (hm : g.mounted = true) (hfuel : g.clusterCount.toNat < fuel)
    (hsim : Simulates g disk₀ fam₀ d (v, o) a) (hok : (callOn g fuel v h r).1 = .ok reply)
    (hstep : ∀ {fam fam'}, Consistent g v fam →
      SameTree g disk₀ v.disk (chainOf g disk₀ fam₀) (chainOf g v.disk fam) → Related g v fam d o a →
      Change g fam v h r (.ok reply) (callOn g fuel v h r).2 fam' →
        ∃ a', ByteFile.Step ByteFile.grownSize a l a' ∧ Related g (callOn g fuel v h r).2 fam' d o' a') :
    ∃ a', ByteFile.Step ByteFile.grownSize a l a' ∧
      Simulates g disk₀ fam₀ d ((callOn g fuel v h r).2, o') a' := by
  obtain ⟨fam, hc, htree, hrel⟩ := hsim
  obtain ⟨fam', hch⟩ := hc.does hg hm hfuel h r
  have hc' := hch.consistent hg hc
  have htree' := htree.trans (hch.sameTree hg hc)
  rw [hok] at hch
  obtain ⟨a', ha, hrel'⟩ := hstep hc htree hrel hch
  exact ⟨a', ha, fam', hc', htree', hrel'⟩

/-- Every successful call is a step of the array of bytes. -/
theorem FileStep.simulates {s s' : Volume × Option ℕ} {l : Request × Reply} (hg : Geometry g)
    (hm : g.mounted = true) (hfuel : g.clusterCount.toNat < fuel)
    (hpath : walkPath g disk₀ (chainOf g disk₀ fam₀) (path.length + 1) path none = some (some d))
    (hsim : Simulates g disk₀ fam₀ d s a) (hs : FileStep g fuel path s l s') :
    ∃ a', ByteFile.Step ByteFile.grownSize a l a' ∧ Simulates g disk₀ fam₀ d s' a' := by
  cases hs with
  | openFile hok =>
    apply hsim.call hg hm hfuel hok
    intro fam fam' _ htree hrel hch
    apply hrel.openFile _ hch
    rw [htree.walkPath _ Live.root (Or.inr rfl)]
    exact hpath
  | @call _ _ r _ hr hok =>
    apply hsim.call hg hm hfuel hok
    intro fam fam' hc _ hrel hch
    cases r with
    | seek position => exact hrel.seek hch
    | read out n => exact hrel.read hch
    | write data n => exact hrel.write hg hc hch
    | openFile path mode => simp [Request.isData] at hr
    | close => simp [Request.isData] at hr
    | listDir path n => simp [Request.isData] at hr
  | close hok =>
    apply hsim.call hg hm hfuel hok
    intro fam fam' hc _ hrel hch
    exact hrel.close hg hc hch

end Simulation

section Refinement

/-- The file of a directory entry. -/
def fileOf (g : FSMount) (disk : Memory) (fam : Family) (d : Slot) : ByteFile where
  size := (entryAt g disk d).fileSize.toNat
  byte := content g disk (fam (entryAt g disk d).firstCluster)

/-- On a well-formed volume the successful calls on one file, through one handle at a time, are
those of an array of bytes, and when the file is closed its entry and its chain hold that array. A
write of no bytes leaves the size alone. -/
theorem file_refinement {t : List (Request × Reply)} {s : Volume × Option ℕ}
    (hw : WellFormed g disk fam₀) (hclosed : ∀ h, (files h).valid = false)
    (hfuel : g.clusterCount.toNat < fuel)
    (hpath : walkPath g disk (chainOf g disk fam₀) (path.length + 1) path none = some (some d))
    (hrun : Trace (FileStep g fuel path) (⟨disk, files⟩, none) t s) :
    ∃ f p, Trace (ByteFile.Step ByteFile.grownSize) (fileOf g disk fam₀ d, none) t (f, p) ∧
      ∃ fam, Consistent g s.1 fam ∧ (s.2 = none → Saved g s.1.disk fam d f) := by
  obtain ⟨⟨f, p⟩, ht, fam, hc, -, hrel⟩ := hrun.simulate (R := Simulates g disk fam₀ d)
    (fun hsim hs => hs.simulates hw.geometry hw.mounted hfuel hpath hsim)
    (a := (fileOf g disk fam₀ d, none))
    ⟨fam₀, hw.consistent hclosed, SameTree.refl _ _ _, Related.closed ⟨rfl, fun _ _ => rfl⟩⟩
  refine ⟨f, p, ht, fam, hc, ?_⟩
  intro hnone
  rw [hnone] at hrel
  cases hrel with
  | closed hs => exact hs

/-- Opening `/A` on the formatted volume, writing a byte, and closing it. -/
theorem file_refinement_formatted : ∃ f p,
    Trace (ByteFile.Step ByteFile.grownSize)
      (fileOf formattedMount formattedDisk formattedChains formattedSlot, none)
      [(.openFile pathA 3, .done), (.write (fun _ => 7) 1, .written 1), (.close, .done)] (f, p) ∧
    ∃ fam, Saved formattedMount (formattedAfter [(0, .openFile pathA 3), (0, .write (fun _ => 7) 1),
      (0, .close)]).disk fam formattedSlot f := by
  have hrun : Trace (FileStep formattedMount 65526 pathA) (formattedVolume, none)
      [(.openFile pathA 3, .done), (.write (fun _ => 7) 1, .written 1), (.close, .done)]
      (formattedAfter [(0, .openFile pathA 3), (0, .write (fun _ => 7) 1), (0, .close)], none) :=
    ⟨_, FileStep.openFile (h := 0) rfl, _, FileStep.call rfl rfl, _, FileStep.close rfl, rfl⟩
  obtain ⟨f, p, ht, fam, -, hs⟩ := file_refinement formatted_wellFormed formatted_closed formatted_fuel
    formatted_path hrun
  exact ⟨f, p, ht, fam, hs rfl⟩

/-- Writing no bytes behind the end of the file does not make it longer. -/
theorem file_refinement_empty_write : ¬∀ t s,
    Trace (FileStep formattedMount 65526 pathA) (formattedVolume, none) t s → ∃ f p,
      Trace (ByteFile.Step fun size p n => max size (p + n))
        (fileOf formattedMount formattedDisk formattedChains formattedSlot, none) t (f, p) := by
  intro hclaim
  have hrun : Trace (FileStep formattedMount 65526 pathA) (formattedVolume, none)
      [(.openFile pathA 3, .done), (.seek 5, .done), (.write (fun _ => 0) 0, .written 0),
        (.seek 0, .done), (.read (fun _ => 0) 5, .bytes 0 (fun _ => 0))]
      (formattedAfter [(0, .openFile pathA 3), (0, .seek 5), (0, .write (fun _ => 0) 0),
        (0, .seek 0), (0, .read (fun _ => 0) 5)], some 0) :=
    ⟨_, FileStep.openFile (h := 0) rfl, _, FileStep.call rfl rfl, _, FileStep.call rfl rfl,
      _, FileStep.call rfl rfl, _, FileStep.call rfl (Eq.refl _), rfl⟩
  obtain ⟨f, p, ht⟩ := hclaim _ _ hrun
  simp only [trace_cons] at ht
  obtain ⟨a₁, h₁, a₂, h₂, a₃, h₃, a₄, h₄, a₅, h₅, -⟩ := ht
  cases h₁
  cases h₂
  cases h₃ with
  | write hsize _ _ =>
    cases h₄
    cases h₅ with
    | read hcount =>
      rw [hsize] at hcount
      simp at hcount

end Refinement

end SBoy28.Fat32
