import Mathlib.Data.List.Chain
import Mathlib.Tactic.Common
import Mathlib.Data.Nat.Notation

/-!
# First-fit allocation on a tiling

The state of a boundary-header allocator is a list of blocks that tile an interval, each
block a header of `hdr` bytes followed by its payload. `carve` takes the first free block
that is large enough and splits off the rest when another block fits behind it; `release`
frees a block and merges it with its free neighbours. Both keep the tiling and the absence
of neighbouring free blocks.
-/

namespace SBoy28.Lib

/-- A block: the address of its header, the size of its payload, and whether it is free. -/
structure Blk where
  addr : ℕ
  size : ℕ
  free : Bool
  deriving DecidableEq, Repr

/-- The address of the payload. -/
def Blk.payload (hdr : ℕ) (b : Blk) : ℕ := b.addr + hdr

/-- The blocks cover `[a, lim)` one after the other. -/
def Tiles (hdr lim : ℕ) : ℕ → List Blk → Prop
  | a, [] => a = lim
  | a, b :: bs => b.addr = a ∧ Tiles hdr lim (a + hdr + b.size) bs

/-- No two neighbouring blocks are both free. -/
def Coalesced (bs : List Blk) : Prop :=
  bs.IsChain (fun b c => ¬(b.free = true ∧ c.free = true))

/-- The block that is left of `b` after `n` bytes of its payload were taken, if it can hold a
header and `slack` more bytes, and the taken block. -/
def splitAt (hdr slack n : ℕ) (b : Blk) : List Blk :=
  if n + hdr + slack ≤ b.size then
    [⟨b.addr, n, false⟩, ⟨b.addr + hdr + n, b.size - n - hdr, true⟩]
  else [⟨b.addr, b.size, false⟩]

/-- First fit: the taken block's payload and the new list. -/
def carve (hdr slack n : ℕ) : List Blk → Option (ℕ × List Blk)
  | [] => none
  | b :: bs =>
    if b.free = true ∧ n ≤ b.size then some (b.payload hdr, splitAt hdr slack n b ++ bs)
    else (carve hdr slack n bs).map (fun r => (r.1, b :: r.2))

/-- Merge a block with the next one if that is free. -/
def mergeNext (hdr : ℕ) (b : Blk) : List Blk → List Blk
  | [] => [b]
  | c :: cs => if c.free = true then ⟨b.addr, b.size + (hdr + c.size), b.free⟩ :: cs else b :: c :: cs

/-- Free the block with payload `p`, merging it with its free neighbours. -/
def release (hdr p : ℕ) : List Blk → List Blk
  | [] => []
  | b :: bs =>
    if b.payload hdr = p then mergeNext hdr ⟨b.addr, b.size, true⟩ bs
    else if b.free = true ∧ (bs.head?.map (Blk.payload hdr)) = some p then
      mergeNext hdr b (release hdr p bs)
    else b :: release hdr p bs

section Tiling

variable {hdr slack lim : ℕ}

@[simp] lemma tiles_nil {a : ℕ} : Tiles hdr lim a [] ↔ a = lim := Iff.rfl

@[simp] lemma tiles_cons {a : ℕ} {b : Blk} {bs : List Blk} :
    Tiles hdr lim a (b :: bs) ↔ b.addr = a ∧ Tiles hdr lim (a + hdr + b.size) bs := Iff.rfl

lemma Tiles.le_lim {a : ℕ} {bs : List Blk} (h : Tiles hdr lim a bs) : a ≤ lim := by
  induction bs generalizing a with
  | nil => exact le_of_eq h
  | cons b bs ih =>
    have := ih h.2
    omega

lemma Tiles.bounds {a : ℕ} {bs : List Blk} (h : Tiles hdr lim a bs) {b : Blk} (hb : b ∈ bs) :
    a ≤ b.addr ∧ b.addr + hdr + b.size ≤ lim := by
  induction bs generalizing a with
  | nil => exact absurd hb (by simp)
  | cons c bs ih =>
    rcases List.mem_cons.mp hb with rfl | hb
    · have hl := h.2.le_lim
      have he := h.1
      omega
    · have := ih h.2 hb
      omega

lemma Tiles.append {a : ℕ} {l t : List Blk} (h : Tiles hdr lim a (l ++ t)) :
    ∃ c, Tiles hdr c a l ∧ Tiles hdr lim c t := by
  induction l generalizing a with
  | nil => exact ⟨a, rfl, h⟩
  | cons b l ih =>
    obtain ⟨c, hl, ht⟩ := ih h.2
    exact ⟨c, ⟨h.1, hl⟩, ht⟩

lemma Tiles.join {a c : ℕ} {l t : List Blk} (hl : Tiles hdr c a l) (ht : Tiles hdr lim c t) :
    Tiles hdr lim a (l ++ t) := by
  induction l generalizing a with
  | nil =>
    rw [tiles_nil] at hl
    exact hl ▸ ht
  | cons b l ih => exact ⟨hl.1, ih hl.2⟩

lemma Tiles.length_le {a : ℕ} {bs : List Blk} (h : Tiles hdr lim a bs) :
    a + hdr * bs.length ≤ lim := by
  induction bs generalizing a with
  | nil => exact le_of_eq (by simpa using h)
  | cons b bs ih =>
    have := ih h.2
    rw [List.length_cons, Nat.mul_succ]
    omega

/-- Two blocks of a tiling: one ends before the other begins. -/
theorem Tiles.separated {a : ℕ} {bs : List Blk} (h : Tiles hdr lim a bs) {b c : Blk}
    (hb : b ∈ bs) (hc : c ∈ bs) :
    b = c ∨ b.addr + hdr + b.size ≤ c.addr ∨ c.addr + hdr + c.size ≤ b.addr := by
  induction bs generalizing a with
  | nil => exact absurd hb (by simp)
  | cons d bs ih =>
    have hd := h.1
    rcases List.mem_cons.mp hb with rfl | hb' <;> rcases List.mem_cons.mp hc with rfl | hc'
    · exact .inl rfl
    · have := (h.2.bounds hc').1
      omega
    · have := (h.2.bounds hb').1
      omega
    · exact ih h.2 hb' hc'

/-- With non-empty headers the addresses increase strictly along the list. -/
theorem Tiles.increasing (hh : 0 < hdr) {a : ℕ} {bs : List Blk} (h : Tiles hdr lim a bs) :
    (bs.map Blk.addr).Pairwise (· < ·) := by
  induction bs generalizing a with
  | nil => exact List.Pairwise.nil
  | cons b bs ih =>
    refine List.pairwise_cons.mpr ⟨?_, ih h.2⟩
    intro x hx
    obtain ⟨c, hc, rfl⟩ := List.mem_map.mp hx
    have := (h.2.bounds hc).1
    have := h.1
    omega

lemma splitAt_tiles {n a : ℕ} {b : Blk} {bs : List Blk}
    (h : Tiles hdr lim a (b :: bs)) : Tiles hdr lim a (splitAt hdr slack n b ++ bs) := by
  unfold splitAt
  split
  · refine ⟨h.1, by simp only; have := h.1; omega, ?_⟩
    have he : a + hdr + n + hdr + (b.size - n - hdr) = a + hdr + b.size := by omega
    simp only [he]
    exact h.2
  · exact ⟨h.1, h.2⟩

/-- First fit keeps the tiling. -/
theorem carve_tiles {n a p : ℕ} {bs bs' : List Blk} (h : Tiles hdr lim a bs)
    (hc : carve hdr slack n bs = some (p, bs')) : Tiles hdr lim a bs' := by
  induction bs generalizing a bs' with
  | nil => exact absurd hc (by simp [carve])
  | cons b bs ih =>
    unfold carve at hc
    split at hc
    · simp only [Option.some.injEq, Prod.mk.injEq] at hc
      rw [← hc.2]
      exact splitAt_tiles h
    · simp only [Option.map_eq_some_iff, Prod.exists, Prod.mk.injEq] at hc
      obtain ⟨q, cs, hq, rfl, rfl⟩ := hc
      exact ⟨h.1, ih h.2 hq⟩

@[simp] lemma mergeNext_nil (b : Blk) : mergeNext hdr b [] = [b] := rfl

lemma mergeNext_free (b : Blk) {c : Blk} (cs : List Blk) (hc : c.free = true) :
    mergeNext hdr b (c :: cs) = ⟨b.addr, b.size + (hdr + c.size), b.free⟩ :: cs := by
  simp [mergeNext, hc]

lemma mergeNext_used (b : Blk) {c : Blk} (cs : List Blk) (hc : c.free = false) :
    mergeNext hdr b (c :: cs) = b :: c :: cs := by
  simp [mergeNext, hc]

/-- The merged block keeps its address and its flag and is followed by a tail of the rest. -/
lemma mergeNext_eq_cons (hdr : ℕ) (b : Blk) (bs : List Blk) :
    ∃ n t, mergeNext hdr b bs = ⟨b.addr, n, b.free⟩ :: t ∧ ∀ c ∈ t, c ∈ bs := by
  cases bs with
  | nil => exact ⟨b.size, [], rfl, by simp⟩
  | cons c cs =>
    cases hc : c.free with
    | true => exact ⟨_, cs, mergeNext_free b cs hc, fun d hd => by simp [hd]⟩
    | false => exact ⟨b.size, c :: cs, mergeNext_used b cs hc, fun d hd => hd⟩

/-- Where `release` works: at the freed block and at the block before it. -/
lemma release_append {p : ℕ} {l t : List Blk} {b c : Blk} (hb : b.payload hdr = p)
    (hl : ∀ d ∈ l ++ [c], d.payload hdr ≠ p) :
    release hdr p (l ++ c :: b :: t) =
      l ++ (if c.free = true then mergeNext hdr c (mergeNext hdr ⟨b.addr, b.size, true⟩ t)
        else c :: mergeNext hdr ⟨b.addr, b.size, true⟩ t) := by
  induction l with
  | nil =>
    have hc := hl c (by simp)
    by_cases hcf : c.free = true <;> simp [release, hc, hb, hcf]
  | cons d l ih =>
    have hd := hl d (by simp)
    have hhead : ((l ++ c :: b :: t).head?.map (Blk.payload hdr)) ≠ some p := by
      cases l with
      | nil => simpa using hl c (by simp)
      | cons e l => simpa using hl e (by simp)
    have ht := ih (fun e he => hl e (by simp only [List.cons_append, List.mem_cons, he, or_true]))
    rw [List.cons_append, release, if_neg hd, if_neg (fun h => hhead h.2), ht, List.cons_append]

lemma mergeNext_tiles {a : ℕ} {b : Blk} {bs : List Blk} (h : Tiles hdr lim a (b :: bs)) :
    Tiles hdr lim a (mergeNext hdr b bs) := by
  cases bs with
  | nil => exact h
  | cons c cs =>
    cases hc : c.free with
    | true =>
      rw [mergeNext_free b cs hc]
      refine ⟨h.1, ?_⟩
      have he : a + hdr + (b.size + (hdr + c.size)) = a + hdr + b.size + hdr + c.size := by omega
      simp only [he]
      exact h.2.2
    | false =>
      rw [mergeNext_used b cs hc]
      exact h

/-- Freeing keeps the tiling. -/
theorem release_tiles {p a : ℕ} {bs : List Blk} (h : Tiles hdr lim a bs) :
    Tiles hdr lim a (release hdr p bs) := by
  induction bs generalizing a with
  | nil => exact h
  | cons b bs ih =>
    unfold release
    split
    · exact mergeNext_tiles ⟨h.1, h.2⟩
    · split
      · exact mergeNext_tiles ⟨h.1, ih h.2⟩
      · exact ⟨h.1, ih h.2⟩

end Tiling

section Coalescing

variable {hdr slack : ℕ}

lemma coalesced_cons {b : Blk} {bs : List Blk} :
    Coalesced (b :: bs) ↔ (∀ c ∈ bs.head?, ¬(b.free = true ∧ c.free = true)) ∧ Coalesced bs :=
  List.isChain_cons

lemma Coalesced.tail {b : Blk} {bs : List Blk} (h : Coalesced (b :: bs)) : Coalesced bs :=
  (coalesced_cons.mp h).2

/-- Only the flag of a block matters to its neighbours. -/
lemma Coalesced.set_head {b b' : Blk} {bs : List Blk} (h : Coalesced (b :: bs))
    (hf : b'.free = true → b.free = true) : Coalesced (b' :: bs) := by
  rw [coalesced_cons] at h ⊢
  exact ⟨fun c hc hbc => h.1 c hc ⟨hf hbc.1, hbc.2⟩, h.2⟩

lemma splitAt_coalesced {n : ℕ} {b : Blk} {bs : List Blk} (hb : b.free = true)
    (h : Coalesced (b :: bs)) : Coalesced (splitAt hdr slack n b ++ bs) := by
  unfold splitAt
  split
  · refine coalesced_cons.mpr ⟨by simp, ?_⟩
    exact h.set_head (fun _ => hb)
  · exact h.set_head (by simp)

lemma carve_head {n p : ℕ} {bs bs' : List Blk} (hc : carve hdr slack n bs = some (p, bs')) :
    ∀ c' ∈ bs'.head?, c'.free = true → ∃ c ∈ bs.head?, c.free = true := by
  intro c' hc' hf
  cases bs with
  | nil => exact absurd hc (by simp [carve])
  | cons b bs =>
    unfold carve at hc
    split at hc
    · rename_i hb
      exact ⟨b, by simp, hb.1⟩
    · simp only [Option.map_eq_some_iff, Prod.exists, Prod.mk.injEq] at hc
      obtain ⟨q, cs, -, -, rfl⟩ := hc
      exact ⟨c', by simpa using hc', hf⟩

/-- First fit leaves no two neighbouring free blocks. -/
theorem carve_coalesced {n p : ℕ} {bs bs' : List Blk} (h : Coalesced bs)
    (hc : carve hdr slack n bs = some (p, bs')) : Coalesced bs' := by
  induction bs generalizing bs' with
  | nil => exact absurd hc (by simp [carve])
  | cons b bs ih =>
    unfold carve at hc
    split at hc
    · rename_i hb
      simp only [Option.some.injEq, Prod.mk.injEq] at hc
      rw [← hc.2]
      exact splitAt_coalesced hb.1 h
    · simp only [Option.map_eq_some_iff, Prod.exists, Prod.mk.injEq] at hc
      obtain ⟨q, cs, hq, rfl, rfl⟩ := hc
      refine coalesced_cons.mpr ⟨?_, ih h.tail hq⟩
      intro c' hc' hbc
      obtain ⟨c, hc, hcf⟩ := carve_head hq c' hc' hbc.2
      exact (coalesced_cons.mp h).1 c hc ⟨hbc.1, hcf⟩

lemma mergeNext_coalesced (b : Blk) {bs : List Blk} (h : Coalesced bs) :
    Coalesced (mergeNext hdr b bs) := by
  cases bs with
  | nil => exact List.isChain_singleton b
  | cons c cs =>
    cases hc : c.free with
    | true =>
      rw [mergeNext_free b cs hc]
      exact h.set_head (fun _ => hc)
    | false =>
      rw [mergeNext_used b cs hc]
      exact coalesced_cons.mpr ⟨by simp [hc], h⟩

lemma release_head {p : ℕ} {bs : List Blk} :
    ∀ c' ∈ (release hdr p bs).head?, c'.free = true →
      ∃ c ∈ bs.head?, c.free = true ∨ c.payload hdr = p := by
  intro c' hc' hf
  cases bs with
  | nil => exact absurd hc' (by simp [release])
  | cons b bs =>
    refine ⟨b, by simp, ?_⟩
    unfold release at hc'
    split at hc'
    · exact .inr (by assumption)
    · split at hc'
      · rename_i hm
        exact .inl hm.1
      · simp only [List.head?_cons, Option.mem_def, Option.some.injEq] at hc'
        exact .inl (hc' ▸ hf)

/-- Freeing merges the freed block with both neighbours. -/
theorem release_coalesced {p : ℕ} {bs : List Blk} (h : Coalesced bs) :
    Coalesced (release hdr p bs) := by
  induction bs with
  | nil => exact h
  | cons b bs ih =>
    unfold release
    split
    · exact mergeNext_coalesced _ h.tail
    · split
      · exact mergeNext_coalesced _ (ih h.tail)
      · rename_i hm
        refine coalesced_cons.mpr ⟨?_, ih h.tail⟩
        intro c' hc' hbc
        obtain ⟨c, hc, hcf | hcp⟩ := release_head c' hc' hbc.2
        · exact (coalesced_cons.mp h).1 c hc ⟨hbc.1, hcf⟩
        · refine hm ⟨hbc.1, ?_⟩
          rw [Option.mem_def.mp hc, Option.map_some, hcp]

/-- A list without used blocks has at most one block. -/
lemma Coalesced.all_free {b : Blk} {bs : List Blk} (h : Coalesced (b :: bs))
    (hf : ∀ c ∈ b :: bs, c.free = true) : bs = [] := by
  cases bs with
  | nil => rfl
  | cons c cs =>
    have hbc := (coalesced_cons.mp h).1 c (by simp)
    exact absurd ⟨hf b (by simp), hf c (by simp)⟩ hbc

end Coalescing

section Payloads

variable {hdr slack lim : ℕ}

/-- `p` is the payload of a block in use. -/
def UsedAt (hdr : ℕ) (bs : List Blk) (p : ℕ) : Prop :=
  ∃ b ∈ bs, b.free = false ∧ b.payload hdr = p

lemma usedAt_cons {b : Blk} {bs : List Blk} {p : ℕ} :
    UsedAt hdr (b :: bs) p ↔ (b.free = false ∧ b.payload hdr = p) ∨ UsedAt hdr bs p := by
  simp [UsedAt]

lemma usedAt_append {l t : List Blk} {p : ℕ} :
    UsedAt hdr (l ++ t) p ↔ UsedAt hdr l p ∨ UsedAt hdr t p := by
  simp only [UsedAt, List.mem_append, or_and_right, exists_or]

lemma usedAt_splitAt {n : ℕ} {b : Blk} {q : ℕ} :
    UsedAt hdr (splitAt hdr slack n b) q ↔ q = b.payload hdr := by
  unfold splitAt
  split <;> simp only [UsedAt, Blk.payload, List.mem_cons, List.not_mem_nil, or_false,
    exists_eq_or_imp, exists_eq_left, Bool.true_eq_false, false_and, true_and]
  · exact eq_comm
  · exact eq_comm

/-- First fit adds exactly the returned payload to those in use. -/
theorem carve_used {n p : ℕ} {bs bs' : List Blk} (hc : carve hdr slack n bs = some (p, bs'))
    (q : ℕ) : UsedAt hdr bs' q ↔ UsedAt hdr bs q ∨ q = p := by
  induction bs generalizing bs' with
  | nil => exact absurd hc (by simp [carve])
  | cons b bs ih =>
    unfold carve at hc
    split at hc
    · rename_i hb
      simp only [Option.some.injEq, Prod.mk.injEq] at hc
      rw [← hc.2, ← hc.1, usedAt_append, usedAt_splitAt, usedAt_cons, hb.1]
      simp [or_comm]
    · simp only [Option.map_eq_some_iff, Prod.exists, Prod.mk.injEq] at hc
      obtain ⟨q', cs, hq, rfl, rfl⟩ := hc
      rw [usedAt_cons, usedAt_cons, ih hq, or_assoc]

lemma Tiles.lt_payload {a p : ℕ} {bs : List Blk} (h : Tiles hdr lim a bs)
    (hp : ∃ b ∈ bs, b.payload hdr = p) : a + hdr ≤ p := by
  obtain ⟨b, hb, rfl⟩ := hp
  have := (h.bounds hb).1
  simp only [Blk.payload]
  omega

lemma usedAt_mergeNext {b : Blk} {bs : List Blk} {q : ℕ} :
    UsedAt hdr (mergeNext hdr b bs) q ↔ (b.free = false ∧ b.payload hdr = q) ∨ UsedAt hdr bs q := by
  cases bs with
  | nil => exact usedAt_cons
  | cons c cs =>
    cases hc : c.free with
    | true =>
      rw [mergeNext_free b cs hc, usedAt_cons, usedAt_cons, hc]
      simp [Blk.payload]
    | false => rw [mergeNext_used b cs hc, usedAt_cons]

/-- Freeing removes exactly the freed payload from those in use. -/
theorem release_used (hh : 0 < hdr) {a p : ℕ} {bs : List Blk} (h : Tiles hdr lim a bs) (q : ℕ) :
    UsedAt hdr (release hdr p bs) q ↔ UsedAt hdr bs q ∧ q ≠ p := by
  induction bs generalizing a with
  | nil => simp [release, UsedAt]
  | cons b bs ih =>
    have hba := h.1
    have hbehind : ∀ q, UsedAt hdr bs q → b.payload hdr < q := by
      rintro q ⟨c, hc, -, hcp⟩
      have := h.2.lt_payload ⟨c, hc, hcp⟩
      simp only [Blk.payload]
      omega
    unfold release
    split
    · rename_i hp
      rw [usedAt_mergeNext, usedAt_cons]
      constructor
      · rintro (⟨hf, -⟩ | hu)
        · simp at hf
        · exact ⟨.inr hu, fun e => by have := hbehind q hu; omega⟩
      · rintro ⟨⟨-, hbq⟩ | hu, hne⟩
        · exact absurd (hbq.symm.trans hp) hne
        · exact .inr hu
    · rename_i hp
      have hkeep : (b.free = false ∧ b.payload hdr = q) ∨ UsedAt hdr (release hdr p bs) q ↔
          UsedAt hdr (b :: bs) q ∧ q ≠ p := by
        rw [usedAt_cons, ih h.2]
        constructor
        · rintro (⟨hf, hbq⟩ | ⟨hu, hne⟩)
          · exact ⟨.inl ⟨hf, hbq⟩, fun e => hp (hbq.trans e)⟩
          · exact ⟨.inr hu, hne⟩
        · rintro ⟨hb | hu, hne⟩
          · exact .inl hb
          · exact .inr ⟨hu, hne⟩
      split
      · rw [usedAt_mergeNext, hkeep]
      · rw [usedAt_cons, hkeep]

/-- The block is free and has room for `n` bytes. -/
def Blk.fits (n : ℕ) (b : Blk) : Bool := b.free && decide (n ≤ b.size)

/-- First fit takes the first block with room. -/
theorem carve_find (n : ℕ) (bs : List Blk) :
    (carve hdr slack n bs).map Prod.fst = (bs.find? (Blk.fits n)).map (Blk.payload hdr) := by
  induction bs with
  | nil => rfl
  | cons b bs ih =>
    by_cases hb : b.free = true ∧ n ≤ b.size
    · have hfits : b.fits n = true := by simp [Blk.fits, hb]
      rw [carve, if_pos hb, List.find?_cons_of_pos hfits]
      rfl
    · have hfits : ¬b.fits n = true := by simpa [Blk.fits] using hb
      rw [carve, if_neg hb, List.find?_cons_of_neg hfits, ← ih, Option.map_map]
      rfl

lemma carve_size {n p : ℕ} {bs bs' : List Blk} (hc : carve hdr slack n bs = some (p, bs')) :
    ∃ b ∈ bs', b.free = false ∧ b.payload hdr = p ∧ n ≤ b.size := by
  induction bs generalizing bs' with
  | nil => exact absurd hc (by simp [carve])
  | cons b bs ih =>
    rw [carve] at hc
    split at hc
    · rename_i hb
      simp only [Option.some.injEq, Prod.mk.injEq] at hc
      rw [← hc.2, ← hc.1]
      unfold splitAt
      split
      · exact ⟨⟨b.addr, n, false⟩, by simp, rfl, rfl, le_rfl⟩
      · exact ⟨⟨b.addr, b.size, false⟩, by simp, rfl, rfl, hb.2⟩
    · simp only [Option.map_eq_some_iff, Prod.exists, Prod.mk.injEq] at hc
      obtain ⟨q, cs, hq, rfl, rfl⟩ := hc
      obtain ⟨c, hcm, hrest⟩ := ih hq
      exact ⟨c, by simp [hcm], hrest⟩

end Payloads

section Granularity

variable {hdr slack k : ℕ}

/-- First fit keeps every size a multiple of the granule. -/
theorem carve_dvd (hk : k ∣ hdr) {n p : ℕ} (hn : k ∣ n) {bs bs' : List Blk}
    (h : ∀ b ∈ bs, k ∣ b.size) (hc : carve hdr slack n bs = some (p, bs')) :
    ∀ b ∈ bs', k ∣ b.size := by
  induction bs generalizing bs' with
  | nil => exact absurd hc (by simp [carve])
  | cons b bs ih =>
    unfold carve at hc
    split at hc
    · simp only [Option.some.injEq, Prod.mk.injEq] at hc
      rw [← hc.2]
      intro c hcm
      rcases List.mem_append.mp hcm with hcm | hcm
      · unfold splitAt at hcm
        have hb := h b (by simp)
        split at hcm
        · simp only [List.mem_cons, List.not_mem_nil, or_false] at hcm
          rcases hcm with rfl | rfl
          · exact hn
          · exact Nat.dvd_sub (Nat.dvd_sub hb hn) hk
        · simp only [List.mem_cons, List.not_mem_nil, or_false] at hcm
          exact hcm ▸ hb
      · exact h c (by simp [hcm])
    · simp only [Option.map_eq_some_iff, Prod.exists, Prod.mk.injEq] at hc
      obtain ⟨q, cs, hq, rfl, rfl⟩ := hc
      have ht := ih (fun c hcm => h c (by simp [hcm])) hq
      intro c hcm
      rcases List.mem_cons.mp hcm with rfl | hcm
      · exact h c (by simp)
      · exact ht c hcm

lemma mergeNext_dvd (hk : k ∣ hdr) {b : Blk} {bs : List Blk} (hb : k ∣ b.size)
    (h : ∀ c ∈ bs, k ∣ c.size) : ∀ c ∈ mergeNext hdr b bs, k ∣ c.size := by
  cases bs with
  | nil => simpa using hb
  | cons c cs =>
    cases hc : c.free with
    | true =>
      rw [mergeNext_free b cs hc]
      have hcs := h c (by simp)
      intro d hd
      rcases List.mem_cons.mp hd with rfl | hd
      · exact Nat.dvd_add hb (Nat.dvd_add hk hcs)
      · exact h d (by simp [hd])
    | false =>
      rw [mergeNext_used b cs hc]
      intro d hd
      rcases List.mem_cons.mp hd with rfl | hd
      · exact hb
      · exact h d hd

theorem release_dvd (hk : k ∣ hdr) {p : ℕ} {bs : List Blk} (h : ∀ b ∈ bs, k ∣ b.size) :
    ∀ b ∈ release hdr p bs, k ∣ b.size := by
  induction bs with
  | nil => exact h
  | cons b bs ih =>
    have hb := h b (by simp)
    have ht : ∀ c ∈ bs, k ∣ c.size := fun c hc => h c (by simp [hc])
    unfold release
    split
    · exact mergeNext_dvd hk hb ht
    · split
      · exact mergeNext_dvd hk hb (ih ht)
      · intro c hc
        rcases List.mem_cons.mp hc with rfl | hc
        · exact hb
        · exact ih ht c hc

end Granularity

end SBoy28.Lib
