import SBoy28.Paging.Model
import Mathlib.Logic.Relation

/-!
# The frame allocator

The counter of used blocks always agrees with the bitmap, the blocks of the kernel and of the
bitmap are never handed out, and a block is handed out again only after it was given back.
-/

namespace SBoy28.Paging
open Lib

variable {p p' : Pmm} {ebss : UInt32} {b : UInt32} {n i : ℕ}

/-- A block below 1 MB, or one that overlaps the memory up to the end of the bitmap. -/
def Reserved (ebss : UInt32) (n : ℕ) : Prop := n < 256 ∨ n * 4096 < ebss.toNat + 1024

instance (ebss : UInt32) (n : ℕ) : Decidable (Reserved ebss n) := inferInstanceAs (Decidable (_ ∨ _))

/-- The counter agrees with the bitmap. -/
structure Counted (p : Pmm) : Prop where
  total : p.totalBlocks = 8192
  count : p.usedBlocks.toNat + p.bitmap.free 8192 = 8192

section Counter

lemma Counted.take (h : Counted p) (hclear : p.bitmap.mem b.toNat = false) (hlt : b.toNat < 8192) :
    Counted { pmmBitmapSet p b with usedBlocks := p.usedBlocks + 1 } ∧
      (p.usedBlocks + 1).toNat = p.usedBlocks.toNat + 1 := by
  have hfree := Bitmap.free_set hclear hlt
  have hcount := h.count
  have hnext : (p.usedBlocks + 1).toNat = p.usedBlocks.toNat + 1 := by
    have h1 : (1 : UInt32).toNat = 1 := rfl
    rw [UInt32.toNat_add, h1, Nat.mod_eq_of_lt (by omega)]
  refine ⟨⟨h.total, ?_⟩, hnext⟩
  simp only [pmmBitmapSet, hnext]
  omega

lemma Counted.give (h : Counted p) (hset : p.bitmap.mem b.toNat = true) (hlt : b.toNat < 8192) :
    Counted { pmmBitmapUnset p b with usedBlocks := p.usedBlocks - 1 } ∧
      (p.usedBlocks - 1).toNat + 1 = p.usedBlocks.toNat := by
  have hfree := Bitmap.free_unset hset hlt
  have hle : (p.bitmap.unset b).free 8192 ≤ 8192 := Bitmap.free_le
  have hcount := h.count
  have h1 : (1 : UInt32).toNat = 1 := rfl
  have hnext : (p.usedBlocks - 1).toNat = p.usedBlocks.toNat - 1 := by
    rw [UInt32.toNat_sub_of_le, h1]
    rw [UInt32.le_iff_toNat_le, h1]
    omega
  refine ⟨⟨h.total, ?_⟩, by omega⟩
  simp only [pmmBitmapUnset, hnext]
  omega

end Counter

section Init

lemma ofNat_toNat (h : i < 8192) : (UInt32.ofNat i).toNat = i := by
  rw [UInt32.toNat_ofNat', Nat.mod_eq_of_lt (by omega)]

lemma mem_marked (m : Bitmap) (k : ℕ) (hn : n < k * 32) :
    ((List.range k).foldl (fun m i => Function.update m i 0xFFFFFFFF) m : Bitmap).mem n = true := by
  induction k with
  | zero => omega
  | succ k ih =>
    rw [List.range_succ, List.foldl_append]
    simp only [List.foldl_cons, List.foldl_nil]
    rw [Bitmap.mem]
    by_cases hk : n / 32 = k
    · rw [hk, Function.update_self]
      exact (eq_full_iff 0xFFFFFFFF).mp rfl _ (Nat.mod_lt _ (by decide))
    · rw [Function.update_of_ne hk]
      exact ih (by omega)

/-- The loop that frees the blocks from 1 MB on, after `k` turns. -/
lemma freed (h : Counted p) (hset : ∀ n < 8192, p.bitmap.mem n = true) (k : ℕ) (hk : 256 + k ≤ 8192) :
    Counted ((List.range' 256 k).foldl freeBlock p) ∧
      ∀ n < 8192, ((List.range' 256 k).foldl freeBlock p).bitmap.mem n =
        !decide (256 ≤ n ∧ n < 256 + k) := by
  induction k with
  | zero =>
    refine ⟨h, ?_⟩
    intro n hn
    have hnone : ¬(256 ≤ n ∧ n < 256 + 0) := by omega
    rw [decide_eq_false hnone]
    exact hset n hn
  | succ k ih =>
    obtain ⟨hc, hm⟩ := ih (by omega)
    rw [List.range'_concat, List.foldl_append]
    simp only [List.foldl_cons, List.foldl_nil, Nat.one_mul]
    have hlt : 256 + k < 8192 := by omega
    have hbit := ofNat_toNat hlt
    refine ⟨(hc.give ?_ ?_).1, ?_⟩
    · rw [hbit, hm _ hlt]
      simp
    · rwa [hbit]
    · intro n hn
      simp only [freeBlock, pmmBitmapUnset]
      rw [Bitmap.mem_unset, hbit, hm n hn]
      by_cases he : n = 256 + k
      · simp [he]
      · have hiff : (256 ≤ n ∧ n < 256 + (k + 1)) ↔ (256 ≤ n ∧ n < 256 + k) := by omega
        simp [he, hiff]

/-- The loop that reserves the blocks of the kernel, after `k` turns. -/
lemma reserved (h : Counted p) (k : ℕ) (hk : k ≤ 8192) :
    Counted ((List.range k).foldl reserveBlock p) ∧
      ∀ n, ((List.range k).foldl reserveBlock p).bitmap.mem n = (p.bitmap.mem n || decide (n < k)) := by
  induction k with
  | zero => exact ⟨h, by simp⟩
  | succ k ih =>
    obtain ⟨hc, hm⟩ := ih (by omega)
    rw [List.range_succ, List.foldl_append]
    simp only [List.foldl_cons, List.foldl_nil]
    generalize hq : (List.range k).foldl reserveBlock p = q at hc hm
    have hbit := ofNat_toNat (show k < 8192 by omega)
    have htest : pmmBitmapTest q (UInt32.ofNat k) = q.bitmap.mem k := by
      rw [pmmBitmapTest, Bitmap.test_eq, hbit]
    have hstep : ∀ n, (q.bitmap.mem n || decide (n = k)) = (p.bitmap.mem n || decide (n < k + 1)) := by
      intro n
      rw [hm n, Bool.or_assoc]
      congr 1
      rw [Bool.eq_iff_iff]
      simp only [Bool.or_eq_true, decide_eq_true_eq]
      omega
    by_cases hset : q.bitmap.mem k = true
    · have hsame : reserveBlock q k = q := by
        rw [reserveBlock, htest, hset]
        rfl
      rw [hsame]
      refine ⟨hc, ?_⟩
      intro n
      rw [← hstep n]
      by_cases hn : n = k
      · simp [hn, hset]
      · simp [hn]
    · have hclear : q.bitmap.mem k = false := by simpa using hset
      have htake : reserveBlock q k =
          { pmmBitmapSet q (UInt32.ofNat k) with usedBlocks := q.usedBlocks + 1 } := by
        rw [reserveBlock, htest, hclear]
        rfl
      rw [htake]
      refine ⟨(hc.take (by rw [hbit]; exact hclear) (by omega)).1, ?_⟩
      intro n
      simp only [pmmBitmapSet]
      rw [Bitmap.mem_set, hbit, hstep n]

/-- After `pmm_init` the counter agrees with the bitmap, and just the reserved blocks are used. -/
theorem pmmInit_ok (hend : ebss.toNat + 1024 ≤ 2 ^ 25) (p : Pmm) :
    Counted (pmmInit ebss p) ∧
      ∀ n < 8192, (pmmInit ebss p).bitmap.mem n = decide (Reserved ebss n) := by
  have hdwords : bitmapSizeDwords 8192 = 256 := rfl
  have hbitmapEnd : (ebss + 256 * 4).toNat = ebss.toNat + 1024 := by
    have h1024 : ((256 : UInt32) * 4).toNat = 1024 := rfl
    rw [UInt32.toNat_add, h1024, Nat.mod_eq_of_lt (by omega)]
  have hreserve : ((ebss + 256 * 4 + 4096 - 1) / 4096).toNat = (ebss.toNat + 1024 + 4095) / 4096 := by
    have h4096 : (4096 : UInt32).toNat = 4096 := rfl
    have h1 : (1 : UInt32).toNat = 1 := rfl
    have hsum : (ebss + 256 * 4 + 4096).toNat = ebss.toNat + 1024 + 4096 := by
      rw [UInt32.toNat_add, hbitmapEnd, h4096, Nat.mod_eq_of_lt (by omega)]
    rw [UInt32.toNat_div, h4096, UInt32.toNat_sub_of_le, hsum, h1]
    · rfl
    · rw [UInt32.le_iff_toNat_le, hsum, h1]
      omega
  obtain ⟨marked, hmarked⟩ : ∃ m, m = (List.range 256).foldl
    (fun m i => Function.update m i 0xFFFFFFFF) p.bitmap := ⟨_, rfl⟩
  have hall : ∀ n < 8192, Bitmap.mem marked n = true := by
    intro n hn
    rw [hmarked]
    exact mem_marked p.bitmap 256 (by omega)
  have hstart : Counted ⟨marked, 8192, 8192⟩ := by
    refine ⟨rfl, ?_⟩
    have hzero := Bitmap.free_eq_zero_iff.mpr hall
    simp only [hzero]
    rfl
  obtain ⟨hc, hm⟩ := freed hstart hall 7936 (by omega)
  obtain ⟨hc', hm'⟩ := reserved hc ((ebss.toNat + 1024 + 4095) / 4096) (by omega)
  have hinit : pmmInit ebss p = (List.range ((ebss.toNat + 1024 + 4095) / 4096)).foldl reserveBlock
      ((List.range' 256 7936).foldl freeBlock ⟨marked, 8192, 8192⟩) := by
    rw [hmarked, ← hreserve]
    rfl
  rw [hinit]
  refine ⟨hc', ?_⟩
  intro n hn
  rw [hm' n, hm n hn, Bool.eq_iff_iff]
  simp only [Bool.or_eq_true, Bool.not_eq_true', decide_eq_false_iff_not, decide_eq_true_eq]
  unfold Reserved
  omega

end Init

section Calls

/-- What `pmm_alloc_block` does: nothing if all blocks are used, and else it takes the lowest
clear one. -/
theorem alloc_cases (h : Counted p) :
    (pmmAllocBlock p = (0, p) ∧ ∀ n < 8192, p.bitmap.mem n = true) ∨
      ∃ n < 8192, p.bitmap.mem n = false ∧ (∀ k < n, p.bitmap.mem k = true) ∧
        pmmAllocBlock p = (UInt32.ofNat n * 4096,
          { pmmBitmapSet p (UInt32.ofNat n) with usedBlocks := p.usedBlocks + 1 }) := by
  have hdwords : (bitmapSizeDwords p.totalBlocks).toNat = 256 := by
    rw [h.total]
    rfl
  have htotal : p.totalBlocks.toNat = 8192 := by
    rw [h.total]
    rfl
  have hscan : p.bitmap.scan 256 8192 = (List.range 8192).find? (fun n => !p.bitmap.mem n) :=
    Bitmap.scan_eq p.bitmap (by omega) (by omega)
  rw [pmmAllocBlock, hdwords, htotal, hscan]
  cases hfind : (List.range 8192).find? (fun n => !p.bitmap.mem n) with
  | none =>
    left
    rw [List.find?_range_eq_none] at hfind
    exact ⟨rfl, fun n hn => by simpa using hfind n hn⟩
  | some n =>
    right
    rw [List.find?_range_eq_some] at hfind
    obtain ⟨hn, hlt, hleast⟩ := hfind
    exact ⟨n, List.mem_range.mp hlt, by simpa using hn, fun k hk => by simpa using hleast k hk, rfl⟩

/-- What `pmm_free_block` does: nothing if the block is clear or does not exist. -/
lemma free_cases (h : Counted p) (addr : UInt32) :
    (pmmFreeBlock p addr = p ∧ (addr.toNat / 4096 < 8192 → p.bitmap.mem (addr.toNat / 4096) = false)) ∨
      addr.toNat / 4096 < 8192 ∧ p.bitmap.mem (addr.toNat / 4096) = true ∧
        pmmFreeBlock p addr =
          { pmmBitmapUnset p (addr / 4096) with usedBlocks := p.usedBlocks - 1 } := by
  have hdiv : (addr / pmmBlockSize).toNat = addr.toNat / 4096 := UInt32.toNat_div _ _
  have hlt : addr / pmmBlockSize < p.totalBlocks ↔ addr.toNat / 4096 < 8192 := by
    rw [UInt32.lt_iff_toNat_lt, hdiv, h.total]
    rfl
  have htest : pmmBitmapTest p (addr / pmmBlockSize) = p.bitmap.mem (addr.toNat / 4096) := by
    rw [pmmBitmapTest, Bitmap.test_eq, hdiv]
  by_cases hin : addr.toNat / 4096 < 8192
  · cases hset : p.bitmap.mem (addr.toNat / 4096) with
    | false =>
      left
      rw [pmmFreeBlock, if_pos (hlt.mpr hin), htest, hset]
      exact ⟨rfl, fun _ => rfl⟩
    | true =>
      right
      rw [pmmFreeBlock, if_pos (hlt.mpr hin), htest, hset]
      exact ⟨hin, rfl, rfl⟩
  · left
    rw [pmmFreeBlock, if_neg (fun hc => hin (hlt.mp hc))]
    exact ⟨rfl, fun hc => absurd hc hin⟩

end Calls

section Runs

/-- The allocator with the blocks it has handed out so far, and those of them that have not been
given back. -/
structure Pool where
  pmm : Pmm
  returned : Finset ℕ
  outstanding : Finset ℕ

def Pool.start (ebss : UInt32) (p : Pmm) : Pool := ⟨pmmInit ebss p, ∅, ∅⟩

def Pool.alloc (s : Pool) : Pool :=
  let r := pmmAllocBlock s.pmm
  if r.1 = 0 then { s with pmm := r.2 }
  else ⟨r.2, insert (r.1.toNat / 4096) s.returned, insert (r.1.toNat / 4096) s.outstanding⟩

def Pool.free (s : Pool) (addr : UInt32) : Pool :=
  { s with pmm := pmmFreeBlock s.pmm addr, outstanding := s.outstanding.erase (addr.toNat / 4096) }

@[simp] lemma alloc_pmm (s : Pool) : s.alloc.pmm = (pmmAllocBlock s.pmm).2 := by
  rw [Pool.alloc]
  split <;> rfl

@[simp] lemma free_returned (s : Pool) (addr : UInt32) : (s.free addr).returned = s.returned := rfl

/-- The calls. A freed address lies in a block that was handed out before; it may have been given
back since. -/
inductive PoolStep : Pool → Pool → Prop where
  | alloc {s : Pool} : PoolStep s s.alloc
  | free {s : Pool} {addr : UInt32} (h : addr.toNat / 4096 ∈ s.returned) : PoolStep s (s.free addr)

/-- What holds between any two calls. -/
structure PoolOk (ebss : UInt32) (s : Pool) : Prop where
  counted : Counted s.pmm
  reserved : ∀ n, Reserved ebss n → s.pmm.bitmap.mem n = true
  returned : ∀ n ∈ s.returned, n < 8192 ∧ ¬Reserved ebss n
  outstanding : ∀ n ∈ s.outstanding, n ∈ s.returned ∧ s.pmm.bitmap.mem n = true
  used : ∀ n < 8192, s.pmm.bitmap.mem n = true → Reserved ebss n ∨ n ∈ s.outstanding

lemma Reserved.lt (hend : ebss.toNat + 1024 ≤ 2 ^ 25) (h : Reserved ebss n) : n < 8192 := by
  unfold Reserved at h
  omega

lemma PoolOk.start (hend : ebss.toNat + 1024 ≤ 2 ^ 25) (p : Pmm) : PoolOk ebss (Pool.start ebss p) where
  counted := (pmmInit_ok hend p).1
  reserved n hr := by
    rw [Pool.start, (pmmInit_ok hend p).2 n (hr.lt hend)]
    simpa using hr
  returned := by simp [Pool.start]
  outstanding := by simp [Pool.start]
  used n hn hset := by
    rw [Pool.start, (pmmInit_ok hend p).2 n hn] at hset
    exact Or.inl (of_decide_eq_true hset)

/-- Just the reserved blocks and those that have not been given back are used. -/
lemma PoolOk.mem_iff {s : Pool} (h : PoolOk ebss s) (hn : n < 8192) :
    s.pmm.bitmap.mem n = true ↔ Reserved ebss n ∨ n ∈ s.outstanding := by
  constructor
  · exact h.used n hn
  · rintro (hr | hout)
    · exact h.reserved n hr
    · exact (h.outstanding n hout).2

lemma blockAddr_toNat (hn : n < 8192) : (UInt32.ofNat n * 4096).toNat = n * 4096 := by
  have h4096 : (4096 : UInt32).toNat = 4096 := rfl
  rw [UInt32.toNat_mul, ofNat_toNat hn, h4096, Nat.mod_eq_of_lt (by omega)]

lemma blockAddr_ne_zero (hn : n < 8192) (hpos : 0 < n) : UInt32.ofNat n * 4096 ≠ 0 := by
  intro he
  have hzero := congrArg UInt32.toNat he
  have h0 : (0 : UInt32).toNat = 0 := rfl
  rw [blockAddr_toNat hn, h0] at hzero
  omega

/-- What a successful allocation hands out. -/
structure Taken (ebss : UInt32) (s : Pool) (n : ℕ) : Prop where
  lt : n < 8192
  clear : s.pmm.bitmap.mem n = false
  lowest : ∀ k < n, s.pmm.bitmap.mem k = true
  call : pmmAllocBlock s.pmm = (UInt32.ofNat n * 4096,
    { pmmBitmapSet s.pmm (UInt32.ofNat n) with usedBlocks := s.pmm.usedBlocks + 1 })
  free : ¬Reserved ebss n
  fresh : n ∉ s.outstanding
  addr : UInt32.ofNat n * 4096 ≠ 0

theorem PoolOk.alloc_cases {s : Pool} (h : PoolOk ebss s) :
    (pmmAllocBlock s.pmm = (0, s.pmm) ∧ ∀ n < 8192, s.pmm.bitmap.mem n = true) ∨
      ∃ n, Taken ebss s n := by
  rcases Paging.alloc_cases h.counted with hnone | ⟨n, hlt, hclear, hlowest, hcall⟩
  · exact Or.inl hnone
  · right
    have hfree : ¬Reserved ebss n := by
      intro hr
      rw [h.reserved n hr] at hclear
      exact absurd hclear (by simp)
    have hfresh : n ∉ s.outstanding := by
      intro hout
      rw [(h.outstanding n hout).2] at hclear
      exact absurd hclear (by simp)
    refine ⟨n, hlt, hclear, hlowest, hcall, hfree, hfresh, blockAddr_ne_zero hlt ?_⟩
    unfold Reserved at hfree
    omega

lemma Taken.alloc_eq {s : Pool} (ht : Taken ebss s n) :
    s.alloc = ⟨{ pmmBitmapSet s.pmm (UInt32.ofNat n) with usedBlocks := s.pmm.usedBlocks + 1 },
      insert n s.returned, insert n s.outstanding⟩ := by
  have hblock : (UInt32.ofNat n * 4096).toNat / 4096 = n := by
    rw [blockAddr_toNat ht.lt]
    omega
  rw [Pool.alloc, ht.call]
  simp only [if_neg ht.addr, hblock]

lemma PoolOk.alloc {s : Pool} (h : PoolOk ebss s) : PoolOk ebss s.alloc := by
  rcases h.alloc_cases with ⟨hcall, -⟩ | ⟨n, ht⟩
  · have hsame : s.alloc = s := by
      rw [Pool.alloc, hcall]
      rfl
    rwa [hsame]
  · have hbit := ofNat_toNat ht.lt
    rw [ht.alloc_eq]
    have hmem : ∀ k, (s.pmm.bitmap.set (UInt32.ofNat n)).mem k = (s.pmm.bitmap.mem k || decide (k = n)) := by
      intro k
      rw [Bitmap.mem_set, hbit]
    refine ⟨(h.counted.take (by rw [hbit]; exact ht.clear) (by rw [hbit]; exact ht.lt)).1, ?_, ?_, ?_, ?_⟩
    · intro k hk
      simp only [pmmBitmapSet, hmem, h.reserved k hk, Bool.true_or]
    · intro k hk
      rcases Finset.mem_insert.mp hk with rfl | hk
      · exact ⟨ht.lt, ht.free⟩
      · exact h.returned k hk
    · intro k hk
      simp only [pmmBitmapSet, hmem]
      rcases Finset.mem_insert.mp hk with rfl | hk
      · simp
      · obtain ⟨hret, hset⟩ := h.outstanding k hk
        simp [hret, hset]
    · intro k hk hset
      simp only [pmmBitmapSet, hmem, Bool.or_eq_true, decide_eq_true_eq] at hset
      rcases hset with hset | rfl
      · exact (h.used k hk hset).imp_right (Finset.mem_insert_of_mem ·)
      · exact Or.inr (Finset.mem_insert_self k _)

lemma PoolOk.free {s : Pool} {addr : UInt32} (h : PoolOk ebss s)
    (hret : addr.toNat / 4096 ∈ s.returned) : PoolOk ebss (s.free addr) := by
  obtain ⟨-, hfree⟩ := h.returned _ hret
  rcases free_cases h.counted addr with ⟨hcall, hclear⟩ | ⟨hlt, hset, hcall⟩
  · refine ⟨?_, ?_, h.returned, ?_, ?_⟩
    · simp only [Pool.free, hcall]
      exact h.counted
    · simp only [Pool.free, hcall]
      exact h.reserved
    · intro k hk
      simp only [Pool.free, hcall]
      exact h.outstanding k (Finset.mem_of_mem_erase hk)
    · intro k hk hset
      simp only [Pool.free, hcall] at hset
      have hne : k ≠ addr.toNat / 4096 := by
        rintro rfl
        rw [hclear hk] at hset
        cases hset
      exact (h.used k hk hset).imp_right (Finset.mem_erase_of_ne_of_mem hne)
  · have hdiv : (addr / 4096).toNat = addr.toNat / 4096 := UInt32.toNat_div _ _
    have hmem : ∀ k, k ≠ addr.toNat / 4096 →
        (s.pmm.bitmap.unset (addr / 4096)).mem k = s.pmm.bitmap.mem k := by
      intro k hk
      rw [Bitmap.mem_unset, hdiv]
      simp [hk]
    refine ⟨?_, ?_, h.returned, ?_, ?_⟩
    · simp only [Pool.free, hcall]
      exact (h.counted.give (by rw [hdiv]; exact hset) (by rw [hdiv]; exact hlt)).1
    · intro k hk
      have hne : k ≠ addr.toNat / 4096 := by
        rintro rfl
        exact hfree hk
      simp only [Pool.free, hcall, pmmBitmapUnset, hmem k hne]
      exact h.reserved k hk
    · intro k hk
      obtain ⟨hne, hk⟩ := Finset.mem_erase.mp hk
      simp only [Pool.free, hcall, pmmBitmapUnset, hmem k hne]
      exact h.outstanding k hk
    · intro k hk hset
      simp only [Pool.free, hcall, pmmBitmapUnset, Bitmap.mem_unset, hdiv, Bool.and_eq_true, Bool.not_eq_true',
        decide_eq_false_iff_not] at hset
      exact (h.used k hk hset.1).imp_right (Finset.mem_erase_of_ne_of_mem hset.2)

/-- Every call keeps the allocator in order. -/
theorem poolOk_run {s s' : Pool} (h : PoolOk ebss s) (hrun : Relation.ReflTransGen PoolStep s s') :
    PoolOk ebss s' := by
  induction hrun with
  | refl => exact h
  | tail _ hs ih =>
    cases hs with
    | alloc => exact ih.alloc
    | free hret => exact ih.free hret

/-- After `pmm_init` and any calls: the count of free blocks is that of clear bits, the used blocks are
the reserved ones, which have never been handed out, and those that have not been given back, and
`pmm_alloc_block` takes the lowest clear block, which is not outstanding, unless there is none. -/
theorem frame_allocator (hend : ebss.toNat + 1024 ≤ 2 ^ 25) (p : Pmm) {s : Pool}
    (hrun : Relation.ReflTransGen PoolStep (Pool.start ebss p) s) :
    (pmmGetFreeBlockCount s.pmm).toNat = s.pmm.bitmap.free s.pmm.totalBlocks.toNat ∧
      s.pmm.usedBlocks.toNat + s.pmm.bitmap.free s.pmm.totalBlocks.toNat = s.pmm.totalBlocks.toNat ∧
      (∀ n, Reserved ebss n → s.pmm.bitmap.mem n = true ∧ n ∉ s.returned) ∧
      (∀ n < s.pmm.totalBlocks.toNat, s.pmm.bitmap.mem n = true ↔ Reserved ebss n ∨ n ∈ s.outstanding) ∧
      s.pmm.bitmap.scan (bitmapSizeDwords s.pmm.totalBlocks).toNat s.pmm.totalBlocks.toNat =
        (List.range s.pmm.totalBlocks.toNat).find? (fun n => !s.pmm.bitmap.mem n) ∧
      ((pmmAllocBlock s.pmm).1 = 0 ↔ ∀ n < s.pmm.totalBlocks.toNat, s.pmm.bitmap.mem n = true) ∧
      ((pmmAllocBlock s.pmm).1 ≠ 0 → ∃ n < s.pmm.totalBlocks.toNat,
        (pmmAllocBlock s.pmm).1.toNat = n * 4096 ∧ s.pmm.bitmap.mem n = false ∧
          (∀ k < n, s.pmm.bitmap.mem k = true) ∧ n ∉ s.outstanding ∧ ¬Reserved ebss n ∧
          (pmmAllocBlock s.pmm).2.usedBlocks.toNat = s.pmm.usedBlocks.toNat + 1) := by
  have hok := poolOk_run (PoolOk.start hend p) hrun
  have htotal : s.pmm.totalBlocks.toNat = 8192 := by
    rw [hok.counted.total]
    rfl
  have hcount := hok.counted.count
  rw [htotal]
  refine ⟨?_, hcount, ?_, fun n hn => hok.mem_iff hn, ?_, ?_, ?_⟩
  · rw [pmmGetFreeBlockCount, UInt32.toNat_sub_of_le, htotal]
    · omega
    · rw [UInt32.le_iff_toNat_le, htotal]
      omega
  · intro n hr
    exact ⟨hok.reserved n hr, fun hret => (hok.returned n hret).2 hr⟩
  · rw [hok.counted.total]
    exact Bitmap.scan_eq s.pmm.bitmap (by decide) (by decide)
  · rcases hok.alloc_cases with ⟨hcall, hall⟩ | ⟨n, ht⟩
    · rw [hcall]
      simpa using hall
    · rw [ht.call]
      refine ⟨fun he => absurd he ht.addr, fun hall => ?_⟩
      have hset := hall n ht.lt
      rw [ht.clear] at hset
      exact absurd hset (by simp)
  · intro hne
    rcases hok.alloc_cases with ⟨hcall, -⟩ | ⟨n, ht⟩
    · rw [hcall] at hne
      exact absurd rfl hne
    · rw [ht.call]
      have hbit := ofNat_toNat ht.lt
      have htake := hok.counted.take (b := UInt32.ofNat n) (by rw [hbit]; exact ht.clear)
        (by rw [hbit]; exact ht.lt)
      exact ⟨n, ht.lt, blockAddr_toNat ht.lt, ht.clear, ht.lowest, ht.fresh, ht.free, htake.2⟩

/-- The first block above 1 MB is the first one handed out, if the kernel lies below. -/
lemma PoolOk.alloc_first {s : Pool} (h : PoolOk ebss s) (hnone : s.outstanding = ∅) (hr : ¬Reserved ebss 256) :
    s.alloc.outstanding = {256} ∧ s.alloc.returned = insert 256 s.returned := by
  have hclear : s.pmm.bitmap.mem 256 ≠ true := by
    rw [Ne, h.mem_iff (by decide), hnone]
    simpa using hr
  rcases h.alloc_cases with ⟨-, hall⟩ | ⟨n, ht⟩
  · exact absurd (hall 256 (by decide)) hclear
  · have hn : n = 256 := by
      have hfree := ht.free
      unfold Reserved at hfree
      have hle : ¬256 < n := fun hlt => hclear (ht.lowest 256 hlt)
      omega
    rw [ht.alloc_eq, hnone, hn]
    exact ⟨rfl, rfl⟩

/-- That block is handed out, given back twice, and handed out again. -/
lemma PoolOk.recycles {s : Pool} (h : PoolOk ebss s) (hnone : s.outstanding = ∅) (hr : ¬Reserved ebss 256) :
    ∃ s', Relation.ReflTransGen PoolStep s s' ∧ s'.outstanding = {256} := by
  obtain ⟨hout, hret⟩ := h.alloc_first hnone hr
  have hin : (0x100000 : UInt32).toNat / 4096 ∈ s.alloc.returned := by
    rw [hret]
    exact Finset.mem_insert_self _ _
  have hagain : (0x100000 : UInt32).toNat / 4096 ∈ (s.alloc.free 0x100000).returned := by
    rw [free_returned]
    exact hin
  have hrun := ((Relation.ReflTransGen.single PoolStep.alloc).tail (.free hin)).tail (.free hagain)
  have hlast := (poolOk_run h hrun).alloc_first (by simp [Pool.free, hout]) hr
  exact ⟨_, hrun.tail .alloc, hlast.1⟩

/-- A kernel that ends at 128 KB. -/
theorem frame_allocator_first : ∃ s, Relation.ReflTransGen PoolStep (Pool.start 0x20000 ⟨fun _ => 0, 0, 0⟩) s ∧
    s.outstanding = {256} ∧ (pmmGetFreeBlockCount s.pmm).toNat = s.pmm.bitmap.free s.pmm.totalBlocks.toNat ∧
    ∀ n < s.pmm.totalBlocks.toNat, s.pmm.bitmap.mem n = true ↔ Reserved 0x20000 n ∨ n = 256 := by
  have hend : (0x20000 : UInt32).toNat + 1024 ≤ 2 ^ 25 := by decide
  obtain ⟨s, hrun, hout⟩ := (PoolOk.start hend ⟨fun _ => 0, 0, 0⟩).recycles rfl (by decide)
  have hall := frame_allocator hend ⟨fun _ => 0, 0, 0⟩ hrun
  refine ⟨s, hrun, hout, hall.1, ?_⟩
  simpa only [hout, Finset.mem_singleton] using hall.2.2.2.1

end Runs

end SBoy28.Paging
