import SBoy28.Lib.FreeSpace

/-!
# Coalesced tilings are canonical

Where no two neighbouring blocks are free, the used blocks determine the whole list: what lies between
two of them is one free block.
-/

namespace SBoy28.Lib

variable {hdr lim a : ℕ} {b b' : Blk} {bs bs' : List Blk}

/-- Behind a free block comes a used one, which the free block of another tiling cannot cover. -/
lemma Tiles.free_head_le (h : Tiles hdr lim a (b :: bs)) (hco : Coalesced (b :: bs))
    (h' : Tiles hdr lim a (b' :: bs')) (hk : KeepsUsed (b :: bs) (b' :: bs')) (hfree : b.free = true)
    (hfree' : b'.free = true) : b'.size ≤ b.size := by
  have hba := h'.1
  have hlim := (h'.bounds (b := b') List.mem_cons_self).2
  cases bs with
  | nil =>
    have hend : a + hdr + b.size = lim := h.2
    omega
  | cons c cs =>
    have hca := h.2.1
    have hused : c.free = false := by
      cases hc : c.free with
      | false => rfl
      | true => exact absurd ⟨hfree, hc⟩ ((coalesced_cons.mp hco).1 c rfl)
    rcases List.mem_cons.mp (hk c (by simp) hused) with rfl | hc
    · rw [hfree'] at hused
      cases hused
    · have := (h'.2.bounds hc).1
      omega

lemma Tiles.head_eq (hh : 0 < hdr) (h : Tiles hdr lim a (b :: bs)) (hco : Coalesced (b :: bs))
    (h' : Tiles hdr lim a (b' :: bs')) (hco' : Coalesced (b' :: bs')) (hk : KeepsUsed (b :: bs) (b' :: bs'))
    (hk' : KeepsUsed (b' :: bs') (b :: bs)) : b = b' := by
  have hba := h.1
  have hba' := h'.1
  cases hf : b.free with
  | false =>
    rcases h'.separated (hk b List.mem_cons_self hf) List.mem_cons_self with heq | hsep | hsep
    · exact heq
    · omega
    · omega
  | true =>
    cases hf' : b'.free with
    | false =>
      rcases h.separated (hk' b' List.mem_cons_self hf') List.mem_cons_self with heq | hsep | hsep
      · exact heq.symm
      · omega
      · omega
    | true =>
      have hle := h.free_head_le hco h' hk hf hf'
      have hle' := h'.free_head_le hco' h hk' hf' hf
      obtain ⟨addr, size, free⟩ := b
      obtain ⟨addr', size', free'⟩ := b'
      simp only at hba hba' hle hle' hf hf'
      rw [Blk.mk.injEq]
      exact ⟨hba.trans hba'.symm, Nat.le_antisymm hle' hle, hf.trans hf'.symm⟩

lemma KeepsUsed.tail (hh : 0 < hdr) (h : Tiles hdr lim a (b :: bs)) (hk : KeepsUsed (b :: bs) (b :: bs')) :
    KeepsUsed bs bs' := by
  intro c hc hused
  rcases List.mem_cons.mp (hk c (List.mem_cons_of_mem b hc) hused) with rfl | hc'
  · have hca := h.1
    have := (h.2.bounds hc).1
    omega
  · exact hc'

/-- The used blocks determine a coalesced tiling. -/
theorem Tiles.determined (hh : 0 < hdr) (h : Tiles hdr lim a bs) (hco : Coalesced bs)
    (h' : Tiles hdr lim a bs') (hco' : Coalesced bs') (hk : KeepsUsed bs bs') (hk' : KeepsUsed bs' bs) :
    bs = bs' := by
  induction bs generalizing a bs' with
  | nil =>
    rw [tiles_nil] at h
    cases bs' with
    | nil => rfl
    | cons b' bs' =>
      have hba' := h'.1
      have := (h'.bounds (b := b') List.mem_cons_self).2
      omega
  | cons b bs ih =>
    cases bs' with
    | nil =>
      rw [tiles_nil] at h'
      have hba := h.1
      have := (h.bounds (b := b) List.mem_cons_self).2
      omega
    | cons b' bs' =>
      obtain rfl := h.head_eq hh hco h' hco' hk hk'
      rw [ih h.2 hco.tail h'.2 hco'.tail (hk.tail hh h) (hk'.tail hh h')]

end SBoy28.Lib
