import Mathlib.Algebra.GroupWithZero.Nat
import SBoy28.Lib.Tiling
import Mathlib.Order.Interval.Finset.Nat

/-!
# The free bytes of a tiling

In a coalesced tiling a free block reaches from the end of one used block to the beginning of the
next. So a used block that disappears from the list is the only way in which a byte can become
free, and more used blocks leave fewer free bytes.
-/

namespace SBoy28.Lib

variable {hdr slack lim : ℕ}

/-- The payload bytes of the free blocks, added up. -/
def freeSize (bs : List Blk) : ℕ := ((bs.filter Blk.free).map Blk.size).sum

/-- Every used block of the first list is one of the second. -/
def KeepsUsed (bs bs' : List Blk) : Prop := ∀ b ∈ bs, b.free = false → b ∈ bs'

section Used

variable {n p : ℕ} {b : Blk} {bs bs' : List Blk}

lemma KeepsUsed.trans {bs'' : List Blk} (h : KeepsUsed bs bs') (h' : KeepsUsed bs' bs'') : KeepsUsed bs bs'' := by
  intro b hb hused
  exact h' b (h b hb hused) hused

/-- First fit takes a free block, so the used ones stay. -/
theorem carve_keepsUsed (hc : carve hdr slack n bs = some (p, bs')) : KeepsUsed bs bs' := by
  induction bs generalizing bs' with
  | nil => exact absurd hc (by simp [carve])
  | cons c bs ih =>
    intro b hb hused
    rw [carve] at hc
    split at hc
    · rename_i hfit
      simp only [Option.some.injEq, Prod.mk.injEq] at hc
      rw [← hc.2]
      rcases List.mem_cons.mp hb with rfl | hb
      · rw [hfit.1] at hused
        cases hused
      · exact List.mem_append_right _ hb
    · simp only [Option.map_eq_some_iff, Prod.exists, Prod.mk.injEq] at hc
      obtain ⟨q, cs, hq, rfl, rfl⟩ := hc
      rcases List.mem_cons.mp hb with rfl | hb
      · exact List.mem_cons_self
      · exact List.mem_cons_of_mem _ (ih hq b hb hused)

/-- First fit returns the payload of a block that was not in use. -/
theorem carve_fresh (hh : 0 < hdr) {a : ℕ} (h : Tiles hdr lim a bs)
    (hc : carve hdr slack n bs = some (p, bs')) : ¬UsedAt hdr bs p := by
  rintro ⟨c, hcm, hused, hcp⟩
  have hfind : (carve hdr slack n bs).map Prod.fst = _ := carve_find n bs
  rw [hc] at hfind
  obtain ⟨b, hb, hbp⟩ := Option.map_eq_some_iff.mp hfind.symm
  have hfree : b.free = true := by
    have hfits := List.find?_some hb
    simp only [Blk.fits, Bool.and_eq_true] at hfits
    exact hfits.1
  simp only [Blk.payload] at hcp hbp
  rcases h.separated (List.mem_of_find?_eq_some hb) hcm with rfl | hsep | hsep
  · rw [hfree] at hused
    cases hused
  · omega
  · omega

lemma mem_mergeNext_used {c : Blk} (hb : b ∈ bs) (hused : b.free = false) : b ∈ mergeNext hdr c bs := by
  cases bs with
  | nil => exact absurd hb (by simp)
  | cons d ds =>
    cases hd : d.free with
    | true =>
      rw [mergeNext_free c ds hd]
      rcases List.mem_cons.mp hb with rfl | hb
      · rw [hd] at hused
        cases hused
      · exact List.mem_cons_of_mem _ hb
    | false =>
      rw [mergeNext_used c ds hd]
      exact List.mem_cons_of_mem _ hb

/-- Freeing takes no other used block away. -/
theorem release_keepsUsed (hb : b ∈ bs) (hused : b.free = false) (hne : b.payload hdr ≠ p) :
    b ∈ release hdr p bs := by
  induction bs with
  | nil => exact absurd hb (by simp)
  | cons c bs ih =>
    unfold release
    split
    · rename_i hp
      rcases List.mem_cons.mp hb with rfl | hb
      · exact absurd hp hne
      · exact mem_mergeNext_used hb hused
    · split
      · rename_i hm
        rcases List.mem_cons.mp hb with rfl | hb
        · rw [hm.1] at hused
          cases hused
        · exact mem_mergeNext_used (ih hb) hused
      · rcases List.mem_cons.mp hb with rfl | hb
        · exact List.mem_cons_self
        · exact List.mem_cons_of_mem _ (ih hb)

end Used

section Bytes

variable {a i : ℕ} {b : Blk} {bs bs' : List Blk}

/-- The addresses of the payload bytes of the free blocks. -/
def freeBytes (hdr : ℕ) : List Blk → Finset ℕ
  | [] => ∅
  | b :: bs =>
    (if b.free = true then Finset.Ico (b.addr + hdr) (b.addr + hdr + b.size) else ∅) ∪ freeBytes hdr bs

lemma mem_freeBytes :
    i ∈ freeBytes hdr bs ↔ ∃ b ∈ bs, b.free = true ∧ b.addr + hdr ≤ i ∧ i < b.addr + hdr + b.size := by
  induction bs with
  | nil => simp [freeBytes]
  | cons b bs ih => by_cases hb : b.free = true <;> simp [freeBytes, ih, hb]

lemma card_freeBytes (h : Tiles hdr lim a bs) : (freeBytes hdr bs).card = freeSize bs := by
  induction bs generalizing a with
  | nil => rfl
  | cons b bs ih =>
    have hba := h.1
    have ht := ih h.2
    by_cases hb : b.free = true
    · have hdisj : Disjoint (Finset.Ico (b.addr + hdr) (b.addr + hdr + b.size)) (freeBytes hdr bs) := by
        rw [Finset.disjoint_left]
        intro i hi hmem
        obtain ⟨c, hc, -, hlo, -⟩ := mem_freeBytes.mp hmem
        have := (h.2.bounds hc).1
        have := (Finset.mem_Ico.mp hi).2
        omega
      rw [freeBytes, if_pos hb, Finset.card_union_of_disjoint hdisj, ht, Nat.card_Ico]
      simp [freeSize, hb]
    · rw [freeBytes, if_neg hb, Finset.empty_union, ht]
      simp [freeSize, hb]

lemma Tiles.covers (h : Tiles hdr lim a bs) (hlo : a ≤ i) (hhi : i < lim) :
    ∃ b ∈ bs, b.addr ≤ i ∧ i < b.addr + hdr + b.size := by
  induction bs generalizing a with
  | nil =>
    rw [tiles_nil] at h
    omega
  | cons b bs ih =>
    have hba := h.1
    by_cases hi : i < a + hdr + b.size
    · exact ⟨b, List.mem_cons_self, by omega, by omega⟩
    · obtain ⟨c, hc, hin⟩ := ih h.2 (by omega)
      exact ⟨c, List.mem_cons_of_mem _ hc, hin⟩

/-- A free block begins where the tiling does or where a used block ends. -/
lemma Tiles.before_free (hh : 0 < hdr) (h : Tiles hdr lim a bs) (hco : Coalesced bs) (hb : b ∈ bs)
    (hfree : b.free = true) :
    b.addr = a ∨ ∃ c ∈ bs, c.free = false ∧ c.addr + hdr + c.size = b.addr := by
  induction bs generalizing a with
  | nil => exact absurd hb (by simp)
  | cons c bs ih =>
    have hca := h.1
    rcases List.mem_cons.mp hb with rfl | hb
    · exact Or.inl hca
    · right
      rcases ih h.2 hco.tail hb with hstart | ⟨d, hd, hused, hend⟩
      · -- `b` is the neighbour of `c`, which is therefore not free
        have hhead : bs.head? = some b := by
          cases bs with
          | nil => exact absurd hb (by simp)
          | cons d ds =>
            rcases List.mem_cons.mp hb with rfl | hb
            · rfl
            · have := (h.2.2.bounds hb).1
              omega
        have hcf : c.free = false := by
          cases hf : c.free with
          | false => rfl
          | true => exact absurd ⟨hf, hfree⟩ ((coalesced_cons.mp hco).1 b hhead)
        exact ⟨c, List.mem_cons_self, hcf, by omega⟩
      · exact ⟨d, List.mem_cons_of_mem _ hd, hused, hend⟩

/-- The payload of a block of the second list is free in the first, unless it is one of the used
blocks there. -/
lemma payload_subset_freeBytes (hh : 0 < hdr) (h : Tiles hdr lim a bs) (hco : Coalesced bs)
    (h' : Tiles hdr lim a bs') (hk : KeepsUsed bs bs') (hb : b ∈ bs') (hnew : b ∈ bs → b.free = true)
    (hlo : b.addr + hdr ≤ i) (hhi : i < b.addr + hdr + b.size) : i ∈ freeBytes hdr bs := by
  have hbnd := h'.bounds hb
  obtain ⟨c, hc, hclo, hchi⟩ := h.covers (i := i) (by omega) (by omega)
  have hcf : c.free = true := by
    by_contra hused
    rw [Bool.not_eq_true] at hused
    rcases h'.separated hb (hk c hc hused) with rfl | hsep | hsep
    · rw [hnew hc] at hused
      cases hused
    · omega
    · omega
  refine mem_freeBytes.mpr ⟨c, hc, hcf, ?_, hchi⟩
  rcases h.before_free hh hco hc hcf with hstart | ⟨d, hd, hused, hend⟩
  · omega
  · -- the used block before `c` is there in both lists, and `b` lies behind it
    rcases h'.separated hb (hk d hd hused) with rfl | hsep | hsep
    · rw [hnew hd] at hused
      cases hused
    · omega
    · omega

lemma freeBytes_subset (hh : 0 < hdr) (h : Tiles hdr lim a bs) (hco : Coalesced bs)
    (h' : Tiles hdr lim a bs') (hk : KeepsUsed bs bs') : freeBytes hdr bs' ⊆ freeBytes hdr bs := by
  intro i hi
  obtain ⟨b, hb, hfree, hlo, hhi⟩ := mem_freeBytes.mp hi
  exact payload_subset_freeBytes hh h hco h' hk hb (fun _ => hfree) hlo hhi

/-- Two coalesced tilings with the same used blocks have as many free bytes. -/
theorem freeSize_eq (hh : 0 < hdr) (h : Tiles hdr lim a bs) (hco : Coalesced bs)
    (h' : Tiles hdr lim a bs') (hco' : Coalesced bs') (hk : KeepsUsed bs bs') (hk' : KeepsUsed bs' bs) :
    freeSize bs' = freeSize bs := by
  rw [← card_freeBytes h, ← card_freeBytes h']
  exact congrArg Finset.card
    (Finset.Subset.antisymm (freeBytes_subset hh h hco h' hk) (freeBytes_subset hh h' hco' h hk'))

/-- A further used block leaves fewer free bytes. -/
theorem freeSize_lt (hh : 0 < hdr) (h : Tiles hdr lim a bs) (hco : Coalesced bs)
    (h' : Tiles hdr lim a bs') (hk : KeepsUsed bs bs') (hb : b ∈ bs') (hused : b.free = false)
    (hnew : b ∉ bs) (hsize : 0 < b.size) : freeSize bs' < freeSize bs := by
  rw [← card_freeBytes h, ← card_freeBytes h']
  apply Finset.card_lt_card
  refine (Finset.ssubset_iff_of_subset (freeBytes_subset hh h hco h' hk)).mpr ⟨b.addr + hdr, ?_, ?_⟩
  · exact payload_subset_freeBytes hh h hco h' hk hb (fun hm => absurd hm hnew) le_rfl (by omega)
  · intro hmem
    obtain ⟨c, hc, hcf, hlo, hhi⟩ := mem_freeBytes.mp hmem
    rcases h'.separated hb hc with rfl | hsep | hsep
    · rw [hcf] at hused
      cases hused
    · omega
    · omega

end Bytes

end SBoy28.Lib
