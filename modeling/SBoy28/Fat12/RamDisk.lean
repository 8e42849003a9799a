import SBoy28.Fat12.Model
import SBoy28.Lib.Memory
import SBoy28.Lib.TwelveBit
import Mathlib.Logic.Function.Iterate

/-!
# What the reader in memory touches

None of the offsets that `iso.c` computes from the image is compared with the size of the disk. This
file says which bytes each step asks for, and from it when all of them lie on the disk.
-/

namespace SBoy28.Fat12
open Lib Program

variable {disk : RAMDisk} {name : ShortName}

/-- The byte at an offset from `base`. -/
def RAMDisk.byte (disk : RAMDisk) (off : UInt32) : UInt8 := disk.bytes off.toNat

def RAMDisk.word (disk : RAMDisk) (off : UInt32) : UInt16 :=
  UInt16.ofNat ((disk.byte off).toNat + 256 * (disk.byte (off + 1)).toNat)

def RAMDisk.dword (disk : RAMDisk) (off : UInt32) : UInt32 :=
  UInt32.ofNat ((disk.word off).toNat + 65536 * (disk.word (off + 2)).toNat)

/-- The `n` bytes from `off` on are on the disk. -/
def RAMDisk.Has (disk : RAMDisk) (off : UInt32) (n : ℕ) : Prop :=
  n = 0 ∨ off.toNat + n ≤ disk.size.toNat

/-- The program ends without a fault and only touches bytes of the disk. -/
def RAMDisk.Runs {α : Type} (disk : RAMDisk) (p : Ram α) : Prop :=
  Safe disk.byte (fun off => off < disk.size) p

section Reads

variable (disk : RAMDisk) (off : UInt32)

@[simp] lemma outcome_readByte : (readByte off).outcome disk.byte = .ok (disk.byte off) :=
  outcome_perform disk.byte off

@[simp] lemma asked_readByte : (readByte off).asked disk.byte = [off] := asked_perform disk.byte off

@[simp] lemma outcome_read16 : (read16 off).outcome disk.byte = .ok (disk.word off) := by
  rw [read16, outcome_bind (outcome_readByte disk off), outcome_bind (outcome_readByte disk (off + 1))]
  rfl

@[simp] lemma asked_read16 : (read16 off).asked disk.byte = [off, off + 1] := by
  rw [read16, asked_bind (outcome_readByte disk off), asked_bind (outcome_readByte disk (off + 1))]
  simp

@[simp] lemma outcome_read32 : (read32 off).outcome disk.byte = .ok (disk.dword off) := by
  rw [read32, outcome_bind (outcome_read16 disk off), outcome_bind (outcome_read16 disk (off + 2))]
  rfl

@[simp] lemma asked_read32 : (read32 off).asked disk.byte = [off, off + 1, off + 2, off + 2 + 1] := by
  rw [read32, asked_bind (outcome_read16 disk off), asked_bind (outcome_read16 disk (off + 2))]
  simp

lemma add_ofNat_succ (i : ℕ) : off + 1 + UInt32.ofNat i = off + UInt32.ofNat (i + 1) := by
  apply UInt32.toNat_inj.mp
  simp only [UInt32.toNat_add, UInt32.toNat_ofNat', UInt32.toNat_one]
  omega

/-- `kmemcpy` reads the bytes from the source on, wrapping around at 2³². -/
lemma kmemcpy_reads (n : ℕ) :
    (kmemcpy off n).outcome disk.byte =
        .ok ((List.range n).map fun i => disk.byte (off + UInt32.ofNat i)) ∧
      (kmemcpy off n).asked disk.byte = (List.range n).map fun i => off + UInt32.ofNat i := by
  induction n generalizing off with
  | zero => exact ⟨rfl, rfl⟩
  | succ n ih =>
    obtain ⟨hout, hask⟩ := ih (off + 1)
    constructor
    · rw [kmemcpy, outcome_bind (outcome_readByte disk off), outcome_bind hout, outcome_pure,
        List.range_succ_eq_map]
      simp [add_ofNat_succ, Function.comp_def]
    · rw [kmemcpy, asked_bind (outcome_readByte disk off), asked_bind hout, asked_pure, hask,
        asked_readByte, List.range_succ_eq_map]
      simp [add_ofNat_succ, Function.comp_def]

lemma has_iff {n : ℕ} :
    (∀ c ∈ (List.range n).map (fun i => off + UInt32.ofNat i), c < disk.size) ↔ disk.Has off n := by
  have hsize := disk.size.toNat_lt
  have hoff := off.toNat_lt
  simp only [List.mem_map, List.mem_range, forall_exists_index, and_imp, forall_apply_eq_imp_iff₂,
    UInt32.lt_iff_toNat_lt, UInt32.toNat_add, UInt32.toNat_ofNat', RAMDisk.Has]
  constructor
  · intro h
    by_contra hc
    rw [not_or, Nat.not_le] at hc
    -- the byte right behind the disk would be read
    have hfirst := h 0 (by omega)
    have hbehind := h (disk.size.toNat - off.toNat) (by omega)
    omega
  · rintro (rfl | h) i hi
    · omega
    · omega

lemma has_add (n m : ℕ) :
    disk.Has off (n + m) ↔ disk.Has off n ∧ disk.Has (off + UInt32.ofNat n) m := by
  have hshift : ∀ i, off + UInt32.ofNat (n + i) = off + UInt32.ofNat n + UInt32.ofNat i := by
    intro i
    rw [UInt32.ofNat_add, UInt32.add_assoc]
  simp only [← has_iff, List.mem_map, List.range_add, List.mem_append, forall_exists_index, and_imp,
    forall_apply_eq_imp_iff₂]
  constructor
  · intro h
    refine ⟨fun i hi => h i (Or.inl hi), fun i hi => ?_⟩
    rw [← hshift]
    exact h (n + i) (Or.inr ⟨i, hi, rfl⟩)
  · rintro ⟨hfirst, hsecond⟩ i (hi | ⟨j, hj, rfl⟩)
    · exact hfirst i hi
    · rw [hshift]
      exact hsecond j hj

/-- The first `k` bytes of a name are those at `off`. -/
def RAMDisk.Agrees (disk : RAMDisk) (name : List UInt8) (off : UInt32) (k : ℕ) : Prop :=
  ∀ l < k, name.getD l 0 = disk.byte (off + UInt32.ofNat l)

lemma agrees_cons (x : UInt8) (xs : List UInt8) (k : ℕ) :
    disk.Agrees (x :: xs) off (k + 1) ↔ x = disk.byte off ∧ disk.Agrees xs (off + 1) k := by
  constructor
  · intro h
    refine ⟨by simpa using h 0 (by omega), fun l hl => ?_⟩
    rw [add_ofNat_succ]
    simpa using h (l + 1) (by omega)
  · rintro ⟨h0, h⟩ l hl
    cases l with
    | zero => simpa using h0
    | succ l =>
      rw [← add_ofNat_succ]
      simpa using h l (by omega)

instance (name : List UInt8) (k : ℕ) : Decidable (disk.Agrees name off k) :=
  inferInstanceAs (Decidable (∀ l < k, _))

lemma agrees_zero (xs : List UInt8) : disk.Agrees xs off 0 := fun l hl => absurd hl (Nat.not_lt_zero l)

lemma kmemcmp_same {x : UInt8} (xs : List UInt8) (hx : x = disk.byte off) :
    (kmemcmp (x :: xs) off).outcome disk.byte = (kmemcmp xs (off + 1)).outcome disk.byte ∧
      (kmemcmp (x :: xs) off).asked disk.byte = off :: (kmemcmp xs (off + 1)).asked disk.byte := by
  have hrest : (if x ≠ disk.byte off then return (x.toNat : ℤ) - (disk.byte off).toNat
      else kmemcmp xs (off + 1) : Ram ℤ) = kmemcmp xs (off + 1) := if_neg (not_not.mpr hx)
  constructor
  · rw [kmemcmp, outcome_bind (outcome_readByte disk off), hrest]
  · rw [kmemcmp, asked_bind (outcome_readByte disk off), hrest, asked_readByte, List.singleton_append]

lemma kmemcmp_differs {x : UInt8} (xs : List UInt8) (hx : x ≠ disk.byte off) :
    (kmemcmp (x :: xs) off).outcome disk.byte = .ok ((x.toNat : ℤ) - (disk.byte off).toNat) ∧
      (kmemcmp (x :: xs) off).asked disk.byte = [off] := by
  have hrest : (if x ≠ disk.byte off then return (x.toNat : ℤ) - (disk.byte off).toNat
      else kmemcmp xs (off + 1) : Ram ℤ) = return (x.toNat : ℤ) - (disk.byte off).toNat := if_pos hx
  constructor
  · rw [kmemcmp, outcome_bind (outcome_readByte disk off), hrest, outcome_pure]
  · rw [kmemcmp, asked_bind (outcome_readByte disk off), hrest, asked_pure, asked_readByte,
      List.append_nil]

lemma kmemcmp_outcome (xs : List UInt8) :
    ∃ d, (kmemcmp xs off).outcome disk.byte = .ok d ∧ (d = 0 ↔ disk.Agrees xs off xs.length) := by
  induction xs generalizing off with
  | nil => exact ⟨0, rfl, by simp [RAMDisk.Agrees]⟩
  | cons x xs ih =>
    rw [List.length_cons, agrees_cons]
    by_cases hx : x = disk.byte off
    · obtain ⟨d, hout, hd⟩ := ih (off + 1)
      exact ⟨d, (kmemcmp_same disk off xs hx).1.trans hout, by rw [hd, and_iff_right hx]⟩
    · refine ⟨_, (kmemcmp_differs disk off xs hx).1, ?_⟩
      rw [iff_false_intro (fun h => hx h.1 : ¬(x = disk.byte off ∧ _)), iff_false]
      intro h
      apply hx
      apply UInt8.toNat_inj.mp
      omega

lemma kmemcmp_asked (xs : List UInt8) (c : UInt32) :
    c ∈ (kmemcmp xs off).asked disk.byte ↔
      ∃ k < xs.length, disk.Agrees xs off k ∧ c = off + UInt32.ofNat k := by
  induction xs generalizing off with
  | nil => simp [kmemcmp]
  | cons x xs ih =>
    by_cases hx : x = disk.byte off
    · rw [(kmemcmp_same disk off xs hx).2, List.mem_cons, ih]
      constructor
      · rintro (rfl | ⟨k, hk, hagree, rfl⟩)
        · exact ⟨0, by simp, agrees_zero disk c _, by simp⟩
        · exact ⟨k + 1, by simpa using hk, (agrees_cons disk off x xs k).mpr ⟨hx, hagree⟩,
            add_ofNat_succ off k⟩
      · rintro ⟨k, hk, hagree, rfl⟩
        cases k with
        | zero => simp
        | succ k =>
          right
          exact ⟨k, by simpa using hk, ((agrees_cons disk off x xs k).mp hagree).2,
            (add_ofNat_succ off k).symm⟩
    · rw [(kmemcmp_differs disk off xs hx).2, List.mem_singleton]
      constructor
      · rintro rfl
        exact ⟨0, by simp, agrees_zero disk c _, by simp⟩
      · rintro ⟨k, -, hagree, rfl⟩
        cases k with
        | zero => simp
        | succ k => exact absurd ((agrees_cons disk off x xs k).mp hagree).1 hx

end Reads

section Directory

variable (disk : RAMDisk) (g : Globals) (name : ShortName)

/-- Entry `i` has the name. -/
def RAMDisk.Named (disk : RAMDisk) (g : Globals) (name : ShortName) (i : ℕ) : Prop :=
  disk.Agrees name.bytes (g.entry i) 11

instance (i : ℕ) : Decidable (disk.Named g name i) :=
  inferInstanceAs (Decidable (disk.Agrees _ _ _))

/-- None of the entries from `i` up to `j` has the name. -/
def RAMDisk.Unnamed (disk : RAMDisk) (g : Globals) (name : ShortName) (i j : ℕ) : Prop :=
  ∀ l, i ≤ l → l < j → ¬disk.Named g name l

lemma unnamed_succ {i j : ℕ} (hij : i < j) :
    disk.Unnamed g name i j ↔ ¬disk.Named g name i ∧ disk.Unnamed g name (i + 1) j := by
  constructor
  · intro h
    exact ⟨h i (Nat.le_refl i) hij, fun l hl hlj => h l (by omega) hlj⟩
  · rintro ⟨hi, h⟩ l hl hlj
    rcases Nat.eq_or_lt_of_le hl with rfl | hl
    · exact hi
    · exact h l hl hlj

lemma unnamed_self (i : ℕ) : disk.Unnamed g name i i := fun _ hl hli => absurd hli (Nat.not_lt.mpr hl)

lemma findFileFrom_succ (i n : ℕ) :
    (findFileFrom g name i (n + 1)).outcome disk.byte =
        (if disk.Named g name i then .ok (some (g.entry i))
          else (findFileFrom g name (i + 1) n).outcome disk.byte) ∧
      (findFileFrom g name i (n + 1)).asked disk.byte =
        (kmemcmp name.bytes (g.entry i)).asked disk.byte ++
          if disk.Named g name i then [] else (findFileFrom g name (i + 1) n).asked disk.byte := by
  obtain ⟨d, hout, hd⟩ := kmemcmp_outcome disk (g.entry i) name.bytes
  rw [name.length_eq] at hd
  by_cases hn : disk.Named g name i
  · have hrest : (if d = 0 then return some (g.entry i) else findFileFrom g name (i + 1) n :
        Ram (Option UInt32)) = return some (g.entry i) := if_pos (hd.mpr hn)
    rw [if_pos hn, if_pos hn, findFileFrom, outcome_bind hout, asked_bind hout, hrest]
    exact ⟨rfl, rfl⟩
  · have hrest : (if d = 0 then return some (g.entry i) else findFileFrom g name (i + 1) n :
        Ram (Option UInt32)) = findFileFrom g name (i + 1) n := if_neg (fun h => hn (hd.mp h))
    rw [if_neg hn, if_neg hn, findFileFrom, outcome_bind hout, asked_bind hout, hrest]
    exact ⟨rfl, rfl⟩

/-- `findFile` returns the first entry with the name, if there is one. -/
lemma findFileFrom_outcome (i n : ℕ) :
    (disk.Unnamed g name i (i + n) ∧ (findFileFrom g name i n).outcome disk.byte = .ok none) ∨
      ∃ j, i ≤ j ∧ j < i + n ∧ disk.Unnamed g name i j ∧ disk.Named g name j ∧
        (findFileFrom g name i n).outcome disk.byte = .ok (some (g.entry j)) := by
  induction n generalizing i with
  | zero => exact Or.inl ⟨unnamed_self disk g name i, rfl⟩
  | succ n ih =>
    obtain ⟨hout, -⟩ := findFileFrom_succ disk g name i n
    by_cases hn : disk.Named g name i
    · rw [if_pos hn] at hout
      exact Or.inr ⟨i, Nat.le_refl i, by omega, unnamed_self disk g name i, hn, hout⟩
    · rw [if_neg hn] at hout
      have hcons : ∀ {j}, i < j → disk.Unnamed g name (i + 1) j → disk.Unnamed g name i j :=
        fun hij h => (unnamed_succ disk g name hij).mpr ⟨hn, h⟩
      rcases ih (i + 1) with ⟨hall, hnone⟩ | ⟨j, hij, hj, hall, hnamed, hsome⟩
      · left
        rw [show i + (n + 1) = i + 1 + n by omega]
        exact ⟨hcons (by omega) hall, hout.trans hnone⟩
      · exact Or.inr ⟨j, by omega, by omega, hcons (by omega) hall, hnamed, hout.trans hsome⟩

/-- `findFile` looks at the entries up to the first one with the name, each up to the first
difference. -/
lemma findFileFrom_asked (i n : ℕ) (c : UInt32) :
    c ∈ (findFileFrom g name i n).asked disk.byte ↔
      ∃ j, i ≤ j ∧ j < i + n ∧ disk.Unnamed g name i j ∧
        ∃ k < 11, disk.Agrees name.bytes (g.entry j) k ∧ c = g.entry j + UInt32.ofNat k := by
  induction n generalizing i with
  | zero =>
    refine ⟨fun h => ?_, ?_⟩
    · simp [findFileFrom] at h
    · rintro ⟨j, hij, hj, -⟩
      omega
  | succ n ih =>
    rw [(findFileFrom_succ disk g name i n).2, List.mem_append, kmemcmp_asked, name.length_eq]
    constructor
    · rintro (hc | hc)
      · exact ⟨i, Nat.le_refl i, by omega, unnamed_self disk g name i, hc⟩
      · split at hc
        · simp at hc
        · rename_i hn
          obtain ⟨j, hij, hj, hall, hread⟩ := (ih (i + 1)).mp hc
          exact ⟨j, by omega, by omega, (unnamed_succ disk g name (by omega)).mpr ⟨hn, hall⟩, hread⟩
    · rintro ⟨j, hij, hj, hall, hread⟩
      rcases Nat.eq_or_lt_of_le hij with rfl | hlt
      · exact Or.inl hread
      · obtain ⟨hn, hall⟩ := (unnamed_succ disk g name hlt).mp hall
        rw [if_neg hn]
        exact Or.inr ((ih (i + 1)).mpr ⟨j, by omega, by omega, hall, hread⟩)

end Directory

section File

variable (disk : RAMDisk) (g : Globals)

/-- The FAT entry of a cluster, as the reader sees it. -/
def RAMDisk.nextCluster (disk : RAMDisk) (g : Globals) (cluster : UInt16) : UInt16 :=
  entryOf cluster (disk.word (g.fatOffset cluster))

/-- The cluster that is `j` links behind the first one. -/
def RAMDisk.clusterAt (disk : RAMDisk) (g : Globals) (first : UInt16) (j : ℕ) : UInt16 :=
  (disk.nextCluster g)^[j] first

/-- What turn `j` of the loop of `readFileRAM` needs, for a file of `size` bytes: the bytes of the
cluster that belong to the file and the two bytes of the FAT that hold its entry. -/
structure RAMDisk.HasCluster (disk : RAMDisk) (g : Globals) (first : UInt16) (size j : ℕ) : Prop where
  data : disk.Has (g.clusterOffset (disk.clusterAt g first j))
    (min g.bootSector.clusterSize.toNat (size - j * g.bootSector.clusterSize.toNat))
  link : disk.Has (g.fatOffset (disk.clusterAt g first j)) 2

/-- The chain of a file ends, or has as many bytes as the file, after `n` clusters that are on the disk. -/
def RAMDisk.HasClusters (disk : RAMDisk) (g : Globals) (first : UInt16) (size n : ℕ) : Prop :=
  (∀ j < n, disk.clusterAt g first j < endOfChain ∧ j * g.bootSector.clusterSize.toNat < size ∧
      disk.HasCluster g first size j) ∧
    (¬disk.clusterAt g first n < endOfChain ∨ size ≤ n * g.bootSector.clusterSize.toNat)

variable {first : UInt16} {size n : ℕ}

@[simp] lemma clusterAt_zero (first : UInt16) : disk.clusterAt g first 0 = first := rfl

lemma clusterAt_succ (first : UInt16) (j : ℕ) :
    disk.clusterAt g first (j + 1) = disk.clusterAt g (disk.nextCluster g first) j := rfl

lemma hasCluster_zero :
    disk.HasCluster g first size 0 ↔
      disk.Has (g.clusterOffset first) (min g.bootSector.clusterSize.toNat size) ∧
        disk.Has (g.fatOffset first) 2 := by
  constructor
  · intro h
    exact ⟨by simpa using h.data, h.link⟩
  · rintro ⟨hdata, hlink⟩
    exact ⟨by simpa using hdata, hlink⟩

lemma hasCluster_succ (j : ℕ) :
    disk.HasCluster g first size (j + 1) ↔
      disk.HasCluster g (disk.nextCluster g first) (size - g.bootSector.clusterSize.toNat) j := by
  have hsize : size - (j + 1) * g.bootSector.clusterSize.toNat =
      size - g.bootSector.clusterSize.toNat - j * g.bootSector.clusterSize.toNat := by
    rw [Nat.add_one_mul, Nat.add_comm, Nat.sub_sub]
  constructor
  · rintro ⟨hdata, hlink⟩
    rw [clusterAt_succ] at hdata hlink
    rw [hsize] at hdata
    exact ⟨hdata, hlink⟩
  · rintro ⟨hdata, hlink⟩
    refine ⟨?_, hlink⟩
    rw [hsize]
    exact hdata

lemma hasClusters_zero : disk.HasClusters g first size 0 ↔ ¬(first < endOfChain ∧ 0 < size) := by
  rw [RAMDisk.HasClusters, clusterAt_zero, Nat.zero_mul, Nat.le_zero, not_and_or, Nat.pos_iff_ne_zero, not_not]
  exact and_iff_right (fun j hj => absurd hj (Nat.not_lt_zero j))

lemma hasClusters_succ :
    disk.HasClusters g first size (n + 1) ↔ (first < endOfChain ∧ 0 < size) ∧
      disk.Has (g.clusterOffset first) (min g.bootSector.clusterSize.toNat size) ∧
      disk.Has (g.fatOffset first) 2 ∧
      disk.HasClusters g (disk.nextCluster g first) (size - g.bootSector.clusterSize.toNat) n := by
  have hlt : ∀ j, (j + 1) * g.bootSector.clusterSize.toNat < size ↔
      j * g.bootSector.clusterSize.toNat < size - g.bootSector.clusterSize.toNat := by
    intro j
    rw [Nat.add_one_mul]
    omega
  have hle : size ≤ (n + 1) * g.bootSector.clusterSize.toNat ↔
      size - g.bootSector.clusterSize.toNat ≤ n * g.bootSector.clusterSize.toNat := by
    rw [Nat.add_one_mul]
    omega
  constructor
  · rintro ⟨hall, hend⟩
    obtain ⟨hfirst, hpos, hcluster⟩ := hall 0 (Nat.succ_pos n)
    rw [Nat.zero_mul] at hpos
    obtain ⟨hdata, hlink⟩ := (hasCluster_zero disk g).mp hcluster
    refine ⟨⟨hfirst, hpos⟩, hdata, hlink, fun j hj => ?_, ?_⟩
    · obtain ⟨hc, hj', hcl⟩ := hall (j + 1) (Nat.succ_lt_succ hj)
      exact ⟨hc, (hlt j).mp hj', (hasCluster_succ disk g j).mp hcl⟩
    · rw [← clusterAt_succ, ← hle]
      exact hend
  · rintro ⟨⟨hfirst, hpos⟩, hdata, hlink, hall, hend⟩
    refine ⟨fun j hj => ?_, ?_⟩
    · cases j with
      | zero => exact ⟨hfirst, by rwa [Nat.zero_mul], (hasCluster_zero disk g).mpr ⟨hdata, hlink⟩⟩
      | succ j =>
        obtain ⟨hc, hj', hcl⟩ := hall j (Nat.lt_of_succ_lt_succ hj)
        exact ⟨hc, (hlt j).mpr hj', (hasCluster_succ disk g j).mpr hcl⟩
    · rw [clusterAt_succ, hle]
      exact hend

lemma runs_bind {α β : Type} {p : Ram α} {f : α → Ram β} {a : α} (h : p.outcome disk.byte = .ok a) :
    disk.Runs (p >>= f) ↔ (∀ c ∈ p.asked disk.byte, c < disk.size) ∧ disk.Runs (f a) := safe_bind h

lemma runs_kmemcpy {β : Type} (off : UInt32) (n : ℕ) (f : List UInt8 → Ram β) :
    disk.Runs (kmemcpy off n >>= f) ↔ disk.Has off n ∧
      disk.Runs (f ((List.range n).map fun i => disk.byte (off + UInt32.ofNat i))) := by
  obtain ⟨hout, hask⟩ := kmemcpy_reads disk off n
  rw [runs_bind disk hout, hask, has_iff]

lemma runs_read16 {β : Type} (off : UInt32) (f : UInt16 → Ram β) :
    disk.Runs (read16 off >>= f) ↔ disk.Has off 2 ∧ disk.Runs (f (disk.word off)) := by
  rw [runs_bind disk (outcome_read16 disk off), asked_read16, ← has_iff]
  have hrange : (List.range 2).map (fun i => off + UInt32.ofNat i) = [off, off + 1] := by
    simp [List.range_succ]
  rw [hrange]

lemma bytesToRead_toNat (b : BootSector) (remaining : UInt32) :
    (if b.clusterSize > remaining then remaining else b.clusterSize).toNat =
        min b.clusterSize.toNat remaining.toNat ∧
      (remaining - if b.clusterSize > remaining then remaining else b.clusterSize).toNat =
        remaining.toNat - b.clusterSize.toNat := by
  by_cases hgt : b.clusterSize > remaining
  · have hlt := UInt32.lt_iff_toNat_lt.mp hgt
    rw [if_pos hgt, toNat_sub_of_le (Nat.le_refl _)]
    omega
  · have hle := Nat.not_lt.mp (fun h => hgt (UInt32.lt_iff_toNat_lt.mpr h))
    rw [if_neg hgt, toNat_sub_of_le hle]
    omega

lemma readFileRAMLoop_runs (fuel : ℕ) (cluster : UInt16) (remaining : UInt32) (out : List UInt8) :
    disk.Runs (readFileRAMLoop g fuel cluster remaining out) ↔
      ∃ n < fuel, disk.HasClusters g cluster remaining.toNat n := by
  induction fuel generalizing cluster remaining out with
  | zero =>
    constructor
    · intro h
      exact absurd h not_safe_spin
    · rintro ⟨n, hn, -⟩
      exact absurd hn (Nat.not_lt_zero n)
  | succ fuel ih =>
    have hpos : 0 < remaining ↔ 0 < remaining.toNat := UInt32.lt_iff_toNat_lt
    rw [readFileRAMLoop]
    by_cases hlive : cluster < endOfChain ∧ 0 < remaining
    · obtain ⟨hread, hrest⟩ := bytesToRead_toNat g.bootSector remaining
      rw [if_pos hlive, runs_kmemcpy, runs_read16, ih, hread, hrest]
      constructor
      · rintro ⟨hdata, hlink, n, hn, hcl⟩
        exact ⟨n + 1, Nat.succ_lt_succ hn, (hasClusters_succ disk g).mpr
          ⟨⟨hlive.1, hpos.mp hlive.2⟩, hdata, hlink, hcl⟩⟩
      · rintro ⟨n, hn, hcl⟩
        cases n with
        | zero => exact absurd ⟨hlive.1, hpos.mp hlive.2⟩ ((hasClusters_zero disk g).mp hcl)
        | succ n =>
          obtain ⟨-, hdata, hlink, hcl⟩ := (hasClusters_succ disk g).mp hcl
          exact ⟨hdata, hlink, n, Nat.lt_of_succ_lt_succ hn, hcl⟩
    · rw [if_neg hlive]
      refine iff_of_true (safe_pure out) ⟨0, Nat.succ_pos fuel, (hasClusters_zero disk g).mpr ?_⟩
      rwa [← hpos]

lemma readFileRAM_runs (fuel : ℕ) (e : UInt32) {outputBuffer : UInt32} (hbuf : outputBuffer ≠ 0) :
    disk.Runs (readFileRAM g fuel (some e) outputBuffer) ↔ disk.Has (e + 26) 6 ∧
      ∃ n < fuel, disk.HasClusters g (disk.word (e + 26)) (disk.dword (e + 28)).toNat n := by
  have hfields : disk.Has (e + 26) 6 ↔ disk.Has (e + 26) 2 ∧ disk.Has (e + 28) 4 := by
    rw [has_add disk (e + 26) 2 4, UInt32.add_assoc]
    rfl
  have hrange : (List.range 4).map (fun i => e + 28 + UInt32.ofNat i) =
      [e + 28, e + 28 + 1, e + 28 + 2, e + 28 + 2 + 1] := by
    simp [List.range_succ, UInt32.add_assoc]
  have hret : ∀ out : List UInt8, disk.Runs (return (true, out) : Ram (Bool × List UInt8)) :=
    fun out => safe_pure _
  rw [readFileRAM]
  simp only [if_neg hbuf]
  rw [runs_read16, runs_bind disk (outcome_read32 disk (e + 28)), asked_read32, ← hrange, has_iff,
    hfields, and_assoc, ← readFileRAMLoop_runs disk g fuel _ _ []]
  exact and_congr_right fun _ => and_congr_right fun _ => safe_bind_iff hret

end File

section Mount

variable (disk : RAMDisk)

/-- The boot sector of the disk. -/
def RAMDisk.boot (disk : RAMDisk) : BootSector := BootSector.load disk.bytes

/-- What the globals are once the disk is ready. -/
def RAMDisk.globals (disk : RAMDisk) : Globals where
  bootSector := disk.boot
  fat := readFatRAM disk.boot
  rootDirectory := disk.boot.rootLba * disk.boot.bps
  rootDirectoryEnd := disk.boot.rootLba + (disk.boot.rootSize + disk.boot.bps - 1) / disk.boot.bps

lemma load_boot :
    BootSector.load (memoryOf ((List.range sizeofBootSector.toNat).map
      fun i => disk.byte (0 + UInt32.ofNat i))) = disk.boot := by
  have hbyte : ∀ i < 62, memoryOf ((List.range sizeofBootSector.toNat).map
      fun i => disk.byte (0 + UInt32.ofNat i)) i = disk.bytes i := by
    intro i hi
    have h62 : sizeofBootSector.toNat = 62 := rfl
    have hmod : i % 4294967296 = i := Nat.mod_eq_of_lt (by omega)
    simp [memoryOf, h62, hi, RAMDisk.byte, hmod]
  have hword : ∀ a < 61, load16 (memoryOf ((List.range sizeofBootSector.toNat).map
      fun i => disk.byte (0 + UInt32.ofNat i))) a = load16 disk.bytes a :=
    fun a ha => load16_congr fun i hi => hbyte (a + i) (by omega)
  simp only [RAMDisk.boot, BootSector.load, hbyte 13 (by omega), hbyte 16 (by omega), hword 11 (by omega),
    hword 14 (by omega), hword 17 (by omega), hword 22 (by omega)]

lemma readBootSectorRAM_reads (hsize : sizeofBootSector ≤ disk.size) :
    (readBootSectorRAM disk).outcome disk.byte = .ok (some disk.boot) ∧
      ∀ c ∈ (readBootSectorRAM disk).asked disk.byte, c < disk.size := by
  obtain ⟨hout, hask⟩ := kmemcpy_reads disk 0 sizeofBootSector.toNat
  have hnot : ¬disk.size < sizeofBootSector := by
    rw [UInt32.lt_iff_toNat_lt, Nat.not_lt]
    exact UInt32.le_iff_toNat_le.mp hsize
  rw [readBootSectorRAM, if_neg hnot]
  constructor
  · rw [outcome_bind hout, load_boot, outcome_pure]
  · rw [asked_bind hout, asked_pure, List.append_nil, hask, has_iff]
    right
    rw [UInt32.toNat_zero, Nat.zero_add]
    exact UInt32.le_iff_toNat_le.mp hsize

lemma mountRAM_reads (hsize : sizeofBootSector ≤ disk.size) (hb : disk.boot.bps ≠ 0) :
    (mountRAM disk).outcome disk.byte = .ok (some disk.globals) ∧
      (mountRAM disk).asked disk.byte = (readBootSectorRAM disk).asked disk.byte := by
  obtain ⟨hboot, -⟩ := readBootSectorRAM_reads disk hsize
  have hroot : readRootDirectoryRAM disk.boot =
      return (disk.globals.rootDirectory, disk.globals.rootDirectoryEnd) := if_neg hb
  rw [mountRAM, outcome_bind hboot, asked_bind hboot]
  simp only [hroot]
  exact ⟨rfl, List.append_nil _⟩

/-- The disk is made ready, unless the division by the sector size faults. -/
lemma mountRAM_runs {β : Type} (hsize : sizeofBootSector ≤ disk.size) (f : Option Globals → Ram β) :
    disk.Runs (mountRAM disk >>= f) ↔ disk.boot.bps ≠ 0 ∧ disk.Runs (f (some disk.globals)) := by
  obtain ⟨hboot, hin⟩ := readBootSectorRAM_reads disk hsize
  by_cases hb : disk.boot.bps = 0
  · have hroot : readRootDirectoryRAM disk.boot = MonadExcept.throw Fault.divisionByZero := if_pos hb
    have hfault : (mountRAM disk).outcome disk.byte = .error .divisionByZero := by
      rw [mountRAM, outcome_bind hboot]
      simp only [hroot]
      exact outcome_bind_error (outcome_throw disk.byte Fault.divisionByZero)
    exact iff_of_false (not_safe_bind hfault) (fun h => h.1 hb)
  · obtain ⟨hmount, hask⟩ := mountRAM_reads disk hsize hb
    rw [runs_bind disk hmount, hask, and_iff_right hin, and_iff_right hb]

end Mount

section Robustness

/-- The bytes of the image that the calls need are on the disk: of the entries up to the first one
with the name, each byte up to the first difference, and of that entry the two fields and the
chain. -/
structure RAMDisk.Readable (disk : RAMDisk) (name : ShortName) (outputBuffer : UInt32) : Prop where
  sectors : disk.boot.bps ≠ 0
  compared : ∀ i < disk.boot.dirEntryCount.toNat, disk.Unnamed disk.globals name 0 i →
    ∀ k < 11, disk.Agrees name.bytes (disk.globals.entry i) k →
      disk.globals.entry i + UInt32.ofNat k < disk.size
  file : outputBuffer ≠ 0 → ∀ i < disk.boot.dirEntryCount.toNat, disk.Unnamed disk.globals name 0 i →
    disk.Named disk.globals name i → disk.Has (disk.globals.entry i + 26) 6 ∧
      ∃ n, disk.HasClusters disk.globals (disk.word (disk.globals.entry i + 26))
        (disk.dword (disk.globals.entry i + 28)).toNat n

variable (disk : RAMDisk) (name : ShortName)

lemma findFile_within :
    (∀ c ∈ (findFile disk.globals name).asked disk.byte, c < disk.size) ↔
      ∀ i < disk.boot.dirEntryCount.toNat, disk.Unnamed disk.globals name 0 i →
        ∀ k < 11, disk.Agrees name.bytes (disk.globals.entry i) k →
          disk.globals.entry i + UInt32.ofNat k < disk.size := by
  simp only [findFile, findFileFrom_asked, Nat.zero_add, Nat.zero_le, true_and]
  constructor
  · intro h i hi hall k hk hagree
    exact h _ ⟨i, hi, hall, k, hk, hagree, rfl⟩
  · rintro h c ⟨i, hi, hall, k, hk, hagree, rfl⟩
    exact h i hi hall k hk hagree

lemma findFile_outcome :
    (disk.Unnamed disk.globals name 0 disk.boot.dirEntryCount.toNat ∧
      (findFile disk.globals name).outcome disk.byte = .ok none) ∨
      ∃ j < disk.boot.dirEntryCount.toNat, disk.Unnamed disk.globals name 0 j ∧
        disk.Named disk.globals name j ∧
        (findFile disk.globals name).outcome disk.byte = .ok (some (disk.globals.entry j)) := by
  have hfound := findFileFrom_outcome disk disk.globals name 0 disk.boot.dirEntryCount.toNat
  rw [Nat.zero_add] at hfound
  rcases hfound with hnone | ⟨j, -, hj, hall, hnamed, hout⟩
  · exact Or.inl hnone
  · exact Or.inr ⟨j, hj, hall, hnamed, hout⟩

lemma named_unique {i j : ℕ} (hi : disk.Unnamed disk.globals name 0 i) (hni : disk.Named disk.globals name i)
    (hj : disk.Unnamed disk.globals name 0 j) (hnj : disk.Named disk.globals name j) : i = j := by
  rcases Nat.lt_trichotomy i j with hlt | heq | hgt
  · exact absurd hni (hj i (Nat.zero_le i) hlt)
  · exact heq
  · exact absurd hnj (hi j (Nat.zero_le j) hgt)

/-- What is left of a run when the disk has been made ready. -/
def loadReady (fuel : ℕ) (outputBuffer : UInt32) : Ram (Option (Bool × List UInt8)) := do
  match ← findFile disk.globals name with
  | none => return none
  | some e => do
    let r ← readFileRAM disk.globals fuel (some e) outputBuffer
    return some r

/-- A run of the reader in memory. The calls from `readBootSectorRAM` to `readFileRAM` end without a
division by zero and touch only bytes of the disk just if the image is such that the directory
entries they compare and the clusters they follow lie on it. -/
theorem ram_disk_safe (hsize : sizeofBootSector ≤ disk.size) (outputBuffer : UInt32) :
    (∃ fuel, disk.Runs (loadFile disk fuel name outputBuffer)) ↔ disk.Readable name outputBuffer := by
  have hload : ∀ fuel, disk.Runs (loadFile disk fuel name outputBuffer) ↔ disk.boot.bps ≠ 0 ∧
      disk.Runs (loadReady disk name fuel outputBuffer) := fun fuel => mountRAM_runs disk hsize _
  rcases findFile_outcome disk name with ⟨hall, hout⟩ | ⟨j, hj, hall, hnamed, hout⟩
  · have hnone : ∀ fuel, disk.Runs (loadFile disk fuel name outputBuffer) ↔ disk.boot.bps ≠ 0 ∧
        ∀ c ∈ (findFile disk.globals name).asked disk.byte, c < disk.size := by
      intro fuel
      rw [hload, loadReady, runs_bind disk hout]
      exact and_congr_right fun _ => and_iff_left (safe_pure none)
    simp only [hnone, exists_const, findFile_within]
    constructor
    · rintro ⟨hb, hcmp⟩
      exact ⟨hb, hcmp, fun _ i hi _ hn => absurd hn (hall i (Nat.zero_le i) hi)⟩
    · intro h
      exact ⟨h.sectors, h.compared⟩
  · have hsome : ∀ fuel, disk.Runs (loadFile disk fuel name outputBuffer) ↔ disk.boot.bps ≠ 0 ∧
        (∀ c ∈ (findFile disk.globals name).asked disk.byte, c < disk.size) ∧
          disk.Runs (readFileRAM disk.globals fuel (some (disk.globals.entry j)) outputBuffer) := by
      intro fuel
      rw [hload, loadReady, runs_bind disk hout]
      exact and_congr_right fun _ => and_congr_right fun _ => safe_bind_iff fun r => safe_pure (some r)
    simp only [hsome, exists_and_left, findFile_within]
    by_cases hbuf : outputBuffer = 0
    · -- the null pointer is noticed before anything is read
      have hnull : ∀ fuel, disk.Runs
          (readFileRAM disk.globals fuel (some (disk.globals.entry j)) outputBuffer) := by
        intro fuel
        rw [readFileRAM]
        simp only [if_pos hbuf]
        exact safe_pure _
      constructor
      · rintro ⟨hb, hcmp, -⟩
        exact ⟨hb, hcmp, fun hne => absurd hbuf hne⟩
      · intro h
        exact ⟨h.sectors, h.compared, 0, hnull 0⟩
    · simp only [readFileRAM_runs _ _ _ _ hbuf]
      constructor
      · rintro ⟨hb, hcmp, fuel, hfields, n, -, hcl⟩
        refine ⟨hb, hcmp, fun _ i hi hall' hni => ?_⟩
        rw [named_unique disk name hall' hni hall hnamed]
        exact ⟨hfields, n, hcl⟩
      · intro h
        obtain ⟨hfields, n, hcl⟩ := h.file hbuf j hj hall hnamed
        exact ⟨h.sectors, h.compared, n + 1, hfields, n, Nat.lt_succ_self n, hcl⟩

def readmeTxt : ShortName := ⟨"README  TXT".toList.map fun c => UInt8.ofNat c.toNat, by decide⟩

/-- A floppy disk of 1.44 MB with this FAT and one directory entry. -/
def floppy (table : ℕ → Fin 4096) (cluster size : UInt8) : RAMDisk where
  bytes i :=
    if i = 12 then 2
    else if i = 13 then 1
    else if i = 14 then 1
    else if i = 16 then 2
    else if i = 17 then 224
    else if i = 19 then 0x40
    else if i = 20 then 0x0B
    else if i = 21 then 0xF0
    else if i = 22 then 9
    else if 512 ≤ i ∧ i < 9728 then packed table ((i - 512) % 4608)
    else if 9728 ≤ i ∧ i < 9739 then memoryOf readmeTxt.bytes (i - 9728)
    else if i = 9754 then cluster
    else if i = 9756 then size
    else 0
  size := 1474560

variable (table : ℕ → Fin 4096) (cluster size : UInt8)

@[simp] lemma floppy_size : (floppy table cluster size).size = 1474560 := rfl

@[simp] lemma floppy_boot : (floppy table cluster size).boot = ⟨512, 1, 1, 2, 224, 9⟩ := by
  simp [RAMDisk.boot, BootSector.load, load16, floppy]

lemma floppy_rootEnd : (floppy table cluster size).globals.rootDirectoryEnd = 33 := by
  rw [RAMDisk.globals, floppy_boot]
  decide

/-- Entry 0 has the media descriptor of a 1.44 MB disk in its low bits. -/
def floppyTable (c : ℕ) : Fin 4096 := if c = 0 then 0xFF0 else if c ≤ 2 then 0xFFF else 0

lemma floppy_entry_toNat {i k : ℕ} (hi : i < 224) (hk : k < 11) :
    ((floppy table cluster size).globals.entry i + UInt32.ofNat k).toNat = 9728 + 32 * i + k := by
  have hroot : (floppy table cluster size).globals.rootDirectory = 9728 := by
    rw [RAMDisk.globals, floppy_boot]
    decide
  have hmul : (sizeofDirectoryEntry * UInt32.ofNat i).toNat = 32 * i := by
    have h32 : sizeofDirectoryEntry.toNat = 32 := rfl
    rw [toNat_mul_of_lt] <;> rw [toNat_ofNat_of_lt (by omega), h32]
    omega
  have h9728 : (9728 : UInt32).toNat = 9728 := rfl
  have hentry : ((floppy table cluster size).globals.entry i).toNat = 9728 + 32 * i := by
    rw [Globals.entry, hroot, toNat_add_of_lt] <;> rw [hmul, h9728]
    omega
  rw [toNat_add_of_lt] <;> rw [hentry, toNat_ofNat_of_lt (by omega)]
  omega

/-- A file of 5 bytes in cluster 2. -/
lemma floppy_readable : (floppy floppyTable 2 5).Readable readmeTxt 0x1000 where
  sectors := by
    rw [floppy_boot]
    decide
  compared i hi _ k hk _ := by
    rw [floppy_boot] at hi
    change i < 224 at hi
    rw [UInt32.lt_iff_toNat_lt, floppy_entry_toNat floppyTable 2 5 hi hk, floppy_size]
    have hsize : (1474560 : UInt32).toNat = 1474560 := rfl
    omega
  file _ i _ hall hnamed := by
    have hfirst : (floppy floppyTable 2 5).Named (floppy floppyTable 2 5).globals readmeTxt 0 := by decide +kernel
    have hentry : (floppy floppyTable 2 5).globals.entry 0 = 9728 := by decide +kernel
    have hcluster : (floppy floppyTable 2 5).word (9728 + 26) = 2 := by decide +kernel
    have hfive : (floppy floppyTable 2 5).dword (9728 + 28) = 5 := by decide +kernel
    obtain rfl := named_unique _ _ hall hnamed (fun l _ hl => absurd hl (Nat.not_lt_zero l)) hfirst
    rw [hentry, hcluster, hfive]
    refine ⟨?_, 1, (hasClusters_succ _ _).mpr ⟨by decide, ?_, ?_, (hasClusters_zero _ _).mpr ?_⟩⟩
    · rw [RAMDisk.Has, floppy_size]
      decide
    · rw [RAMDisk.Has, floppy_size, Globals.clusterOffset, floppy_rootEnd, RAMDisk.globals, floppy_boot]
      decide
    · rw [RAMDisk.Has, floppy_size, Globals.fatOffset, RAMDisk.globals, floppy_boot]
      decide
    · rw [RAMDisk.globals, floppy_boot]
      rintro ⟨-, hpos⟩
      exact absurd hpos (by decide)

theorem ram_disk_safe_floppy :
    ∃ fuel, (floppy floppyTable 2 5).Runs (loadFile (floppy floppyTable 2 5) fuel readmeTxt 0x1000) := by
  refine (ram_disk_safe _ readmeTxt ?_ 0x1000).mpr floppy_readable
  rw [floppy_size]
  decide

/-- A disk of zeros has no sector size to divide by. -/
theorem ram_disk_zeros :
    let disk : RAMDisk := ⟨fun _ => 0, 512⟩
    sizeofBootSector ≤ disk.size ∧ ¬∃ fuel, disk.Runs (loadFile disk fuel readmeTxt 0x1000) := by
  refine ⟨by decide, ?_⟩
  rintro ⟨fuel, hruns⟩
  have hmounted := (mountRAM_runs _ (by decide) _).mp hruns
  exact hmounted.1 (by decide)

end Robustness

end SBoy28.Fat12
