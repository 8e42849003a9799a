import SBoy28.Paging.Frames
import SBoy28.Lib.Ownership
import SBoy28.Lib.Memory

/-!
# The blocks behind the page tables

The page directory, the page tables and the mapped pages each stand in a block of the frame
allocator. Which block that is can be read off the entries, and a change of one entry changes the
block of one user.
-/

namespace SBoy28.Paging
open Lib

section Entries

variable {x y e : UInt32}

/-- The block that an entry points to, if the entry is present. -/
def target (e : UInt32) : Option ℕ := if e &&& pagePresent ≠ 0 then some (e.toNat / 4096) else none

lemma present_iff : e &&& pagePresent ≠ 0 ↔ e.toNat.testBit 0 = true := by
  have hmask : (e &&& pagePresent).toNat = e.toNat % 2 := by
    rw [UInt32.toNat_and]
    exact Nat.and_two_pow_sub_one_eq_mod e.toNat 1
  rw [Nat.testBit_zero, decide_eq_true_iff, ← hmask]
  constructor
  · intro h
    have hlt := Nat.mod_lt e.toNat (show 0 < 2 by decide)
    have hne : (e &&& pagePresent).toNat ≠ 0 := fun h0 => h (UInt32.toNat_inj.mp h0)
    omega
  · intro h h0
    rw [h0] at h
    exact absurd h (by decide)

lemma mask_testBit (i : ℕ) (hi : i < 32) : (~~~0xFFF : UInt32).toNat.testBit i = decide (12 ≤ i) := by
  revert i
  decide

lemma base_toNat (e : UInt32) : (e &&& ~~~0xFFF).toNat = e.toNat / 4096 * 4096 := by
  apply Nat.eq_of_testBit_eq
  intro i
  have hpow : e.toNat / 4096 * 4096 = e.toNat / 2 ^ 12 * 2 ^ 12 := rfl
  rw [UInt32.toNat_and, Nat.testBit_and, hpow, Nat.testBit_mul_two_pow, Nat.testBit_div_two_pow]
  by_cases hi : i < 32
  · rw [mask_testBit i hi, Bool.and_comm]
    by_cases h12 : 12 ≤ i
    · rw [Nat.sub_add_cancel h12]
    · simp [h12]
  · have hlt : e.toNat < 2 ^ i :=
      Nat.lt_of_lt_of_le e.toNat_lt (Nat.pow_le_pow_right (by decide) (by omega))
    rw [Nat.testBit_lt_two_pow hlt, Nat.sub_add_cancel (by omega), Nat.testBit_lt_two_pow hlt]
    simp

lemma block_or (hy : y.toNat < 4096) : (x ||| y).toNat / 4096 = x.toNat / 4096 := by
  have hor : (x.toNat ||| y.toNat) >>> 12 = x.toNat >>> 12 ||| y.toNat >>> 12 :=
    Nat.shiftRight_or_distrib
  rw [Nat.shiftRight_eq_div_pow, Nat.shiftRight_eq_div_pow, Nat.shiftRight_eq_div_pow] at hor
  rw [UInt32.toNat_or]
  have hzero : y.toNat / 2 ^ 12 = 0 := Nat.div_eq_of_lt hy
  rw [hzero, Nat.or_zero] at hor
  exact hor

lemma present_or : (x ||| y) &&& pagePresent ≠ 0 ↔ x &&& pagePresent ≠ 0 ∨ y &&& pagePresent ≠ 0 := by
  rw [present_iff, present_iff, present_iff, UInt32.toNat_or, Nat.testBit_or, Bool.or_eq_true]

lemma target_or (hy : y.toNat < 4096) (h : x &&& pagePresent ≠ 0 ∨ y &&& pagePresent ≠ 0) :
    target (x ||| y) = some (x.toNat / 4096) := by
  rw [target, if_pos (present_or.mpr h), block_or hy]

lemma and_toNat_lt (x : UInt32) {m : UInt32} (hm : m.toNat < 4096) : (x &&& m).toNat < 4096 := by
  rw [UInt32.toNat_and]
  exact Nat.lt_of_le_of_lt Nat.and_le_right hm

lemma target_page (physicalAddr flags : UInt32) :
    target ((physicalAddr &&& ~~~0xFFF) ||| (flags &&& 0xFFF) ||| pagePresent) =
      some (physicalAddr.toNat / 4096) := by
  rw [target_or (by decide) (Or.inr (by decide)), block_or (and_toNat_lt flags (by decide)), base_toNat,
    Nat.mul_div_cancel _ (by decide)]

lemma target_table (addr flags : UInt32) :
    target (addr ||| pagePresent ||| pageRw ||| (flags &&& pageUser)) = some (addr.toNat / 4096) := by
  have hpresent : (addr ||| pagePresent ||| pageRw) &&& pagePresent ≠ 0 := by
    rw [present_or, present_or]
    exact Or.inl (Or.inr (by decide))
  rw [target_or (and_toNat_lt flags (by decide)) (Or.inl hpresent), block_or (by decide),
    block_or (by decide)]

lemma target_identity (addr : UInt32) : target (addr ||| pagePresent ||| pageRw) = some (addr.toNat / 4096) := by
  have hpresent : (addr ||| pagePresent) &&& pagePresent ≠ 0 := present_or.mpr (Or.inr (by decide))
  rw [target_or (by decide) (Or.inl hpresent), block_or (by decide)]

lemma base_or_offset (e v : UInt32) :
    (e &&& ~~~0xFFF) ||| (v &&& 0xFFF) = UInt32.ofNat (e.toNat / 4096 * 4096 + v.toNat % 4096) := by
  have hoffset : (v &&& 0xFFF).toNat = v.toNat % 4096 := by
    rw [UInt32.toNat_and]
    exact Nat.and_two_pow_sub_one_eq_mod v.toNat 12
  have hlt : v.toNat % 4096 < 2 ^ 12 := Nat.mod_lt _ (by decide)
  have hadd := Nat.two_pow_add_eq_or_of_lt hlt (e.toNat / 4096)
  have he := e.toNat_lt
  apply UInt32.toNat_inj.mp
  rw [UInt32.toNat_or, base_toNat, hoffset, toNat_ofNat_of_lt (by omega), Nat.mul_comm _ 4096]
  exact hadd.symm

lemma target_absent : target pageRw = none := rfl

lemma target_zero : target 0 = none := rfl

end Entries

section Users

variable {s : Vmm} {i j n d b : ℕ}

/-- What a block is used for. -/
inductive User where
  | directory
  | table (i : ℕ)
  | page (i j : ℕ)
deriving DecidableEq

/-- The directory, the page tables, and the entries that map no identity page. -/
def outside (totalBlocks : ℕ) : Set User :=
  fun
  | .directory => True
  | .table i => i < 1024
  | .page i j => i < 1024 ∧ j < 1024 ∧ totalBlocks ≤ i * 1024 + j

/-- The block of a user. -/
def frameOf (s : Vmm) : User → Option ℕ
  | .directory => some (s.pageDirectory.toNat / 4096)
  | .table i => target (s.entry s.pageDirectory i)
  | .page i j =>
    if s.entry s.pageDirectory i &&& pagePresent ≠ 0 then
      target (s.entry (s.entry s.pageDirectory i &&& ~~~0xFFF) j)
    else none

/-- A word of a block. -/
def Vmm.cell (s : Vmm) (b j : ℕ) : UInt32 := s.word (b * 1024 + j)

lemma entry_eq_cell {table : UInt32} (ht : table.toNat = b * 4096) : s.entry table j = s.cell b j := by
  have hdiv : table.toNat / 4 = b * 1024 := by omega
  rw [Vmm.entry, hdiv, Vmm.cell]

lemma frameOf_directory (hd : s.pageDirectory.toNat = d * 4096) : frameOf s .directory = some d := by
  rw [frameOf, hd, Nat.mul_div_cancel _ (by decide)]

lemma frameOf_table (hd : s.pageDirectory.toNat = d * 4096) :
    frameOf s (.table i) = target (s.cell d i) := by
  rw [frameOf, entry_eq_cell hd]

/-- The entry of a page stands in the block of its table. -/
lemma frameOf_page : frameOf s (.page i j) =
    (frameOf s (.table i)).bind fun n => target (s.cell n j) := by
  simp only [frameOf, target]
  by_cases h : s.entry s.pageDirectory i &&& pagePresent ≠ 0
  · rw [if_pos h, if_pos h, entry_eq_cell (base_toNat _)]
    rfl
  · rw [if_neg h, if_neg h]
    rfl

lemma frameOf_page_of (ht : frameOf s (.table i) = some n) :
    frameOf s (.page i j) = target (s.cell n j) := by
  rw [frameOf_page, ht]
  rfl

lemma frameOf_page_none (ht : frameOf s (.table i) = none) : frameOf s (.page i j) = none := by
  rw [frameOf_page, ht]
  rfl

/-- What the processor finds is the page's block and the offset. -/
lemma walk_eq (v : UInt32) : walk s v = (frameOf s (.page (pdIndex v) (ptIndex v))).map fun n =>
    UInt32.ofNat (n * 4096 + v.toNat % 4096) := by
  simp only [walk, frameOf, target]
  by_cases hd : s.entry s.pageDirectory (pdIndex v) &&& pagePresent ≠ 0
  · rw [if_pos hd, if_pos hd]
    by_cases ht : s.entry (s.entry s.pageDirectory (pdIndex v) &&& ~~~0xFFF) (ptIndex v) &&& pagePresent ≠ 0
    · rw [if_pos ht, if_pos ht, Option.map_some, base_or_offset]
    · rw [if_neg ht, if_neg ht, Option.map_none]
  · rw [if_neg hd, if_neg hd, Option.map_none]

end Users

section Writes

variable {s s' : Vmm} {table value : UInt32} {i j n d b : ℕ}

@[simp] lemma setEntry_pmm : (s.setEntry table i value).pmm = s.pmm := rfl

@[simp] lemma setEntry_pageDirectory : (s.setEntry table i value).pageDirectory = s.pageDirectory := rfl

@[simp] lemma setEntry_exhausted : (s.setEntry table i value).exhausted = s.exhausted := rfl

lemma cell_setEntry (ht : table.toNat = n * 4096) (hi : i < 1024) (hj : j < 1024) :
    (s.setEntry table i value).cell b j = if b = n ∧ j = i then value else s.cell b j := by
  have hdiv : table.toNat / 4 = n * 1024 := by omega
  have hiff : b * 1024 + j = n * 1024 + i ↔ b = n ∧ j = i := by omega
  simp only [Vmm.cell, Vmm.setEntry, hdiv, Function.update_apply, hiff]

lemma fill_turns (ht : table.toNat = n * 4096) (val : ℕ → UInt32) (hj : j < 1024) (k : ℕ) (hk : k ≤ 1024) :
    ((List.range k).foldl (fun s i => s.setEntry table i (val i)) s).cell b j =
      if b = n ∧ j < k then val j else s.cell b j := by
  induction k with
  | zero => simp
  | succ k ih =>
    rw [List.range_succ, List.foldl_append]
    simp only [List.foldl_cons, List.foldl_nil]
    rw [cell_setEntry ht (by omega) hj, ih (by omega)]
    by_cases hjk : j = k
    · by_cases hb : b = n <;> simp [hb, hjk]
    · have hiff : j < k + 1 ↔ j < k := by omega
      simp [hjk, hiff]

/-- Filling a table writes its block and nothing else. -/
lemma cell_fill (ht : table.toNat = n * 4096) (val : ℕ → UInt32) (hj : j < 1024) :
    (s.fill table val).cell b j = if b = n then val j else s.cell b j := by
  rw [Vmm.fill, fill_turns ht val hj 1024 le_rfl]
  simp [hj]

lemma fill_rest (s : Vmm) (table : UInt32) (val : ℕ → UInt32) :
    (s.fill table val).pmm = s.pmm ∧ (s.fill table val).pageDirectory = s.pageDirectory ∧
      (s.fill table val).exhausted = s.exhausted := by
  rw [Vmm.fill]
  induction List.range 1024 generalizing s with
  | nil => exact ⟨rfl, rfl, rfl⟩
  | cons i l ih => exact ih (s.setEntry table i (val i))

/-- A block filled with entries and entered in the directory as table `i`. -/
def Vmm.install (s : Vmm) (table : UInt32) (val : ℕ → UInt32) (i : ℕ) (e : UInt32) : Vmm :=
  (s.fill table val).setEntry (s.fill table val).pageDirectory i e

lemma install_rest (s : Vmm) (table : UInt32) (val : ℕ → UInt32) (i : ℕ) (e : UInt32) :
    (s.install table val i e).pmm = s.pmm ∧ (s.install table val i e).pageDirectory = s.pageDirectory ∧
      (s.install table val i e).exhausted = s.exhausted := by
  obtain ⟨f, hf⟩ : ∃ f, f = s.fill table val := ⟨_, rfl⟩
  have hrest := fill_rest s table val
  rw [← hf] at hrest
  rw [Vmm.install, ← hf]
  exact hrest

lemma cell_install (hd : s.pageDirectory.toNat = d * 4096) (ht : table.toNat = n * 4096) (val : ℕ → UInt32)
    (e : UInt32) (hi : i < 1024) (hj : j < 1024) :
    (s.install table val i e).cell b j =
      if b = d ∧ j = i then e else if b = n then val j else s.cell b j := by
  have hdir := (fill_rest s table val).2.1
  rw [Vmm.install, hdir, cell_setEntry hd hi hj, cell_fill ht val hj]

variable {e : UInt32} (hd : s.pageDirectory.toNat = d * 4096) (hd' : s'.pageDirectory = s.pageDirectory)
  (hi : i < 1024) (hnd : n ≠ d) (hother : ∀ k < 1024, k ≠ i → frameOf s (.table k) ≠ some n)
include hd hd' hi hnd hother

/-- Writing one entry of a page table changes the block of one page. -/
theorem frameOf_writePage (hj : j < 1024) (ht : frameOf s (.table i) = some n)
    (hcell : ∀ b k, k < 1024 → s'.cell b k = if b = n ∧ k = j then e else s.cell b k) :
    frameOf s' (.page i j) = target e ∧ ∀ u ∈ outside 0, u ≠ .page i j → frameOf s' u = frameOf s u := by
  have hdir : s'.pageDirectory.toNat = d * 4096 := by rw [hd', hd]
  have htable : ∀ k < 1024, frameOf s' (.table k) = frameOf s (.table k) := by
    intro k hk
    rw [frameOf_table hdir, frameOf_table hd, hcell d k hk, if_neg (fun h => hnd h.1.symm)]
  constructor
  · rw [frameOf_page_of (htable i hi ▸ ht), hcell n j hj, if_pos ⟨rfl, rfl⟩]
  · intro u hu hne
    cases u with
    | directory => rw [frameOf_directory hdir, frameOf_directory hd]
    | table k => exact htable k hu
    | page k l =>
      obtain ⟨hk, hl, -⟩ := hu
      rw [frameOf_page, frameOf_page, htable k hk]
      by_cases hki : k = i
      · subst hki
        have hlj : l ≠ j := fun h => hne (by rw [h])
        rw [ht, Option.bind_some, Option.bind_some, hcell n l hl, if_neg (fun h => hlj h.2)]
      · have hno := hother k hk hki
        cases hf : frameOf s (.table k) with
        | none => rfl
        | some m =>
          have hm : m ≠ n := fun h => hno (h ▸ hf)
          rw [Option.bind_some, Option.bind_some, hcell m l hl, if_neg (fun h => hm h.1)]

/-- Filling a block and entering it into the directory makes it the table of some pages. -/
theorem frameOf_writeTable {val : ℕ → UInt32} (he : target e = some n)
    (hdirectory : ∀ k < 1024, frameOf s (.table k) ≠ some d)
    (hcell : ∀ b k, k < 1024 →
      s'.cell b k = if b = d ∧ k = i then e else if b = n then val k else s.cell b k) :
    frameOf s' (.table i) = some n ∧ (∀ j < 1024, frameOf s' (.page i j) = target (val j)) ∧
      frameOf s' .directory = frameOf s .directory ∧
      (∀ k < 1024, k ≠ i → frameOf s' (.table k) = frameOf s (.table k)) ∧
      ∀ k < 1024, k ≠ i → ∀ j < 1024, frameOf s' (.page k j) = frameOf s (.page k j) := by
  have hdir : s'.pageDirectory.toNat = d * 4096 := by rw [hd', hd]
  have hself : frameOf s' (.table i) = some n := by
    rw [frameOf_table hdir, hcell d i hi, if_pos ⟨rfl, rfl⟩, he]
  have htable : ∀ k < 1024, k ≠ i → frameOf s' (.table k) = frameOf s (.table k) := by
    intro k hk hki
    rw [frameOf_table hdir, frameOf_table hd, hcell d k hk, if_neg (fun h => hki h.2), if_neg hnd.symm]
  refine ⟨hself, ?_, ?_, htable, ?_⟩
  · intro j hj
    rw [frameOf_page_of hself, hcell n j hj, if_neg (fun h => hnd h.1), if_pos rfl]
  · rw [frameOf_directory hdir, frameOf_directory hd]
  · intro k hk hki j hj
    rw [frameOf_page, frameOf_page, htable k hk hki]
    cases hf : frameOf s (.table k) with
    | none => rfl
    | some m =>
      have hmn : m ≠ n := fun h => hother k hk hki (h ▸ hf)
      have hmd : m ≠ d := fun h => hdirectory k hk (h ▸ hf)
      rw [Option.bind_some, Option.bind_some, hcell m j hj, if_neg (fun h => hmd h.1), if_neg hmn]

end Writes

end SBoy28.Paging
