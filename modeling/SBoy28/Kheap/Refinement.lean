import SBoy28.Kheap.Model
import SBoy28.Lib.Linked
import SBoy28.Lib.Memory
import SBoy28.Lib.Tiling

/-!
# The heap in memory and the list of its blocks

`Represents m p bs` reads the headers reached from `p` as the block list `bs`. On a tiling
that ends below 2³², the search loop of `kmalloc` computes first fit on the list, and the
two merges of `kfree` compute `release`.
-/

namespace SBoy28.Kheap
open Lib

/-- A pointer, with `0` as the null pointer. -/
def ptr (p : UInt32) : Option ℕ :=
  if p = 0 then none else some p.toNat

def nextBlock (m : Memory) (a : ℕ) : Option ℕ :=
  ptr (load32 m a)

structure HeaderAt (m : Memory) (b : Blk) : Prop where
  size : (load32 m (b.addr + 4)).toNat = b.size
  free : (m (b.addr + 8) != 0) = b.free
  magic : load32 m (b.addr + 12) = kheapMagic

structure Represents (m : Memory) (p : UInt32) (bs : List Blk) : Prop where
  chain : Linked (nextBlock m) (ptr p) (bs.map Blk.addr)
  header : ∀ b ∈ bs, HeaderAt m b

lemma ptr_eq_some {p : UInt32} {a : ℕ} : ptr p = some a ↔ p ≠ 0 ∧ p.toNat = a := by
  unfold ptr
  split <;> simp_all

lemma ptr_eq_none {p : UInt32} : ptr p = none ↔ p = 0 := by
  unfold ptr
  split <;> simp_all

lemma HeaderAt.congr {m m' : Memory} {b : Blk} (h : HeaderAt m b)
    (he : ∀ i, b.addr ≤ i → i < b.addr + 16 → m' i = m i) : HeaderAt m' b where
  size := by
    rw [load32_frame m _ (fun i _ _ => he i (by omega) (by omega))]
    exact h.size
  free := by
    rw [he _ (by omega) (by omega)]
    exact h.free
  magic := by
    rw [load32_frame m _ (fun i _ _ => he i (by omega) (by omega))]
    exact h.magic

lemma represents_nil {m : Memory} {p : UInt32} : Represents m p [] ↔ p = 0 := by
  constructor
  · intro h
    exact ptr_eq_none.mp h.chain
  · rintro rfl
    exact ⟨rfl, by simp⟩

lemma represents_cons {m : Memory} {p : UInt32} {b : Blk} {bs : List Blk} :
    Represents m p (b :: bs) ↔
      ptr p = some b.addr ∧ HeaderAt m b ∧ Represents m (load32 m b.addr) bs := by
  constructor
  · intro h
    exact ⟨h.chain.1, h.header b (by simp), h.chain.2, fun c hc => h.header c (by simp [hc])⟩
  · rintro ⟨hp, hb, hr⟩
    refine ⟨⟨hp, hr.chain⟩, ?_⟩
    simpa using ⟨hb, hr.header⟩

lemma Represents.congr {m m' : Memory} {p : UInt32} {bs : List Blk} (h : Represents m p bs)
    (he : ∀ b ∈ bs, ∀ i, b.addr ≤ i → i < b.addr + 16 → m' i = m i) : Represents m' p bs where
  chain := by
    apply h.chain.congr
    intro a ha
    obtain ⟨b, hb, rfl⟩ := List.mem_map.mp ha
    simp only [nextBlock]
    rw [load32_frame m _ (fun i _ _ => he b hb i (by omega) (by omega))]
  header := fun b hb => (h.header b hb).congr (he b hb)

/-- The blocks `bs` are passed on the way from `p` to `q`. -/
def Segment (m : Memory) : UInt32 → List Blk → UInt32 → Prop
  | p, [], q => q = p
  | p, b :: bs, q => ptr p = some b.addr ∧ HeaderAt m b ∧ Segment m (load32 m b.addr) bs q

lemma represents_append {m : Memory} {p : UInt32} {l t : List Blk} :
    Represents m p (l ++ t) ↔ ∃ q, Segment m p l q ∧ Represents m q t := by
  induction l generalizing p with
  | nil => simp [Segment]
  | cons b l ih =>
    rw [List.cons_append, represents_cons, ih]
    constructor
    · rintro ⟨hp, hb, q, hs, ht⟩
      exact ⟨q, ⟨hp, hb, hs⟩, ht⟩
    · rintro ⟨q, ⟨hp, hb, hs⟩, ht⟩
      exact ⟨hp, hb, q, hs, ht⟩

lemma Segment.congr {m m' : Memory} {p q : UInt32} {l : List Blk} (h : Segment m p l q)
    (he : ∀ b ∈ l, ∀ i, b.addr ≤ i → i < b.addr + 16 → m' i = m i) : Segment m' p l q := by
  induction l generalizing p with
  | nil => exact h
  | cons b l ih =>
    obtain ⟨hp, hb, hs⟩ := h
    have hn : load32 m' b.addr = load32 m b.addr :=
      load32_congr (fun i hi => he b (by simp) _ (by omega) (by omega))
    refine ⟨hp, hb.congr (he b (by simp)), ?_⟩
    rw [hn]
    exact ih hs (fun c hc => he c (by simp [hc]))

/-- A segment that tiles up to `c` survives any change of memory from `c` on. -/
lemma Segment.frame {m m' : Memory} {p q : UInt32} {l : List Blk} {a c : ℕ}
    (h : Segment m p l q) (ht : Tiles 16 c a l) (he : ∀ i < c, m' i = m i) :
    Segment m' p l q := by
  apply h.congr
  intro b hb i _ hi
  have := (ht.bounds hb).2
  exact he i (by omega)

section Headers

variable {m : Memory} {p : UInt32} {b : Blk}

lemma HeaderAt.blockSize (hb : HeaderAt m b) (hp : p.toNat = b.addr) :
    (blockSize m p).toNat = b.size := by
  rw [Kheap.blockSize, hp]
  exact hb.size

lemma HeaderAt.blockIsFree (hb : HeaderAt m b) (hp : p.toNat = b.addr) :
    blockIsFree m p = b.free := by
  rw [Kheap.blockIsFree, hp]
  exact hb.free

lemma setNext_outside (v : UInt32) {i : ℕ} (h : i < p.toNat ∨ p.toNat + 4 ≤ i) :
    setNext m p v i = m i := store32_outside m v h

lemma setSize_outside (v : UInt32) {i : ℕ} (h : i < p.toNat + 4 ∨ p.toNat + 8 ≤ i) :
    setSize m p v i = m i := store32_outside m v (by omega)

lemma setIsFree_outside (f : Bool) {i : ℕ} (h : i ≠ p.toNat + 8) : setIsFree m p f i = m i :=
  store8_other m _ h

lemma setMagic_outside (v : UInt32) {i : ℕ} (h : i < p.toNat + 12 ∨ p.toNat + 16 ≤ i) :
    setMagic m p v i = m i := store32_outside m v (by omega)

lemma header_setIsFree (hb : HeaderAt m b) (hp : p.toNat = b.addr) (f : Bool) :
    HeaderAt (setIsFree m p f) ⟨b.addr, b.size, f⟩ where
  size := by
    rw [setIsFree, load32_store8_other _ _ (by simp only; omega)]
    exact hb.size
  free := by
    rw [setIsFree, hp, store8_same]
    cases f <;> rfl
  magic := by
    rw [setIsFree, load32_store8_other _ _ (by simp only; omega)]
    exact hb.magic

lemma header_setNext (hb : HeaderAt m b) (hp : p.toNat = b.addr) (v : UInt32) :
    HeaderAt (setNext m p v) b := by
  have hd : ∀ i, b.addr + 4 ≤ i → setNext m p v i = m i :=
    fun i hi => setNext_outside v (by omega)
  constructor
  · rw [load32_frame m _ (fun i _ _ => hd i (by omega))]
    exact hb.size
  · rw [hd _ (by omega)]
    exact hb.free
  · rw [load32_frame m _ (fun i _ _ => hd i (by omega))]
    exact hb.magic

lemma header_setSize (hb : HeaderAt m b) (hp : p.toNat = b.addr) (v : UInt32) :
    HeaderAt (setSize m p v) ⟨b.addr, v.toNat, b.free⟩ := by
  have hd : ∀ i, b.addr + 8 ≤ i → setSize m p v i = m i :=
    fun i hi => setSize_outside v (by omega)
  constructor
  · rw [setSize, hp, load32_store32]
  · rw [hd _ (by simp)]
    exact hb.free
  · rw [load32_frame m _ (fun i hi _ => hd i (by simp only at hi; omega))]
    exact hb.magic

lemma load32_setNext (hp : p.toNat = b.addr) (v : UInt32) :
    load32 (setNext m p v) b.addr = v := by
  rw [setNext, hp, load32_store32]

/-- Marking the first block of a representation. -/
lemma represents_setIsFree {bs : List Blk} (hr : Represents m p (b :: bs)) (hp : p.toNat = b.addr)
    (hbs : ∀ d ∈ bs, b.addr + 16 ≤ d.addr) (f : Bool) :
    Represents (setIsFree m p f) p (⟨b.addr, b.size, f⟩ :: bs) := by
  obtain ⟨hpb, hb, hrest⟩ := represents_cons.mp hr
  refine represents_cons.mpr ⟨hpb, header_setIsFree hb hp f, ?_⟩
  simp only [setIsFree]
  rw [load32_store8_other _ _ (by omega)]
  apply hrest.congr
  intro d hd i hi _
  have := hbs d hd
  exact store8_other _ _ (by omega)

/-- A header written from scratch, in the order of the assignments of `kmalloc`. -/
lemma header_fresh (m : Memory) (p size next : UInt32) :
    HeaderAt (setMagic (setNext (setSize (setIsFree m p true) p size) p next) p kheapMagic)
      ⟨p.toNat, size.toNat, true⟩ where
  size := by
    rw [setMagic, load32_store32_other _ _ (by simp only; omega), setNext,
      load32_store32_other _ _ (by simp only; omega), setSize, load32_store32]
  free := by
    rw [setMagic_outside _ (by simp only; omega), setNext_outside _ (by simp only; omega),
      setSize_outside _ (by simp only; omega), setIsFree, store8_same]
    rfl
  magic := by
    rw [setMagic, load32_store32]

end Headers

section Kmalloc

variable {m : Memory} {p size : UInt32} {b : Blk} {bs : List Blk} {a lim : ℕ}

lemma newBlock_toNat (hp : p.toNat = b.addr) (hl : b.addr + 16 + b.size ≤ lim)
    (hlim : lim < 2 ^ 32) (hs : size.toNat + 16 ≤ b.size) :
    (p + blockHeader + size).toNat = b.addr + 16 + size.toNat := by
  simp only [UInt32.toNat_add, blockHeader, hp]
  change ((b.addr + 16) % 2 ^ 32 + size.toNat) % 2 ^ 32 = _
  omega

lemma restSize_toNat (hb : HeaderAt m b) (hp : p.toNat = b.addr) (hs : size.toNat + 16 ≤ b.size) :
    (blockSize m p - size - blockHeader).toNat = b.size - size.toNat - 16 := by
  have hbs := hb.blockSize hp
  have h1 : (blockSize m p - size).toNat = b.size - size.toNat := by
    rw [toNat_sub_of_le (by omega), hbs]
  rw [toNat_sub_of_le (by rw [h1]; change 16 ≤ _; omega), h1]
  rfl

/-- A split writes the header of the new block, and then two fields of the old one; what it reads in between
is as it was. -/
lemma splitBlock_eq {q : UInt32} (hqd : p + blockHeader + size = q) (hq : p.toNat + 16 ≤ q.toNat) :
    splitBlock m p size = setNext (setSize (setMagic (setNext (setSize (setIsFree m q true) q
      (blockSize m p - size - blockHeader)) q (blockNext m p)) q kheapMagic) p size) p q := by
  have hn : ∀ f, blockNext (setSize (setIsFree m q true) q f) p = blockNext m p := by
    intro f
    apply load32_congr
    intro i hi
    rw [setSize_outside _ (by omega), setIsFree_outside _ (by omega)]
  have hz : blockSize (setIsFree m q true) p = blockSize m p := by
    apply load32_congr
    intro i hi
    rw [setIsFree_outside _ (by omega)]
  simp only [splitBlock, hqd, hz, hn]

lemma splitBlock_represents (hr : Represents m p (b :: bs)) (hp : p.toNat = b.addr)
    (ht : Tiles 16 lim a (b :: bs)) (hlim : lim < 2 ^ 32) (h0 : 4 ≤ a)
    (hs : size.toNat + 16 + 4 ≤ b.size) :
    Represents (splitBlock m p size) p
      (⟨b.addr, size.toNat, b.free⟩ :: ⟨b.addr + 16 + size.toNat, b.size - size.toNat - 16, true⟩ ::
        bs) ∧
    ∀ i < a, splitBlock m p size i = m i := by
  obtain ⟨hpb, hb, hrest⟩ := represents_cons.mp hr
  have hba := ht.1
  have hle := (ht.bounds (b := b) (by simp)).2
  have hq := newBlock_toNat hp hle hlim (by omega : size.toNat + 16 ≤ b.size)
  have hsz := restSize_toNat hb hp (by omega : size.toNat + 16 ≤ b.size)
  generalize hqd : p + blockHeader + size = q at hq
  -- the header of the new block, then the two stores into the old one
  let m₁ := setMagic (setNext (setSize (setIsFree m q true) q
    (blockSize m p - size - blockHeader)) q (blockNext m p)) q kheapMagic
  have hsplit : splitBlock m p size = setNext (setSize m₁ p size) p q := splitBlock_eq hqd (by omega)
  have hm₁ : ∀ i, i < q.toNat ∨ q.toNat + 16 ≤ i → m₁ i = m i := by
    intro i hi
    simp only [m₁]
    rw [setMagic_outside _ (by omega), setNext_outside _ (by omega), setSize_outside _ (by omega),
      setIsFree_outside _ (by omega)]
  have hm₂ : ∀ i, i < p.toNat ∨ p.toNat + 8 ≤ i → setNext (setSize m₁ p size) p q i = m₁ i := by
    intro i hi
    rw [setNext_outside _ (by omega), setSize_outside _ (by omega)]
  have hb₁ : HeaderAt m₁ b := hb.congr (fun i _ hi => hm₁ i (by omega))
  have hb₂ := header_setNext (header_setSize hb₁ hp size) hp q
  have hnew : HeaderAt (setNext (setSize m₁ p size) p q) ⟨q.toNat, b.size - size.toNat - 16, true⟩ := by
    have hf := header_fresh m q (blockSize m p - size - blockHeader) (blockNext m p)
    rw [hsz] at hf
    exact hf.congr (fun i hi _ => hm₂ i (by simp only at hi; omega))
  have hnext : load32 (setNext (setSize m₁ p size) p q) q.toNat = load32 m b.addr := by
    rw [load32_frame m₁ _ (fun i _ _ => hm₂ i (by omega))]
    simp only [m₁, setMagic, setNext]
    rw [load32_store32_other _ _ (by omega), load32_store32, blockNext, hp]
  have htail : Represents (setNext (setSize m₁ p size) p q) (load32 m b.addr) bs := by
    apply hrest.congr
    intro c hc i hi _
    have hca := (ht.2.bounds hc).1
    rw [hm₂ i (by omega), hm₁ i (by omega)]
  rw [hsplit]
  refine ⟨represents_cons.mpr ⟨hpb, hb₂, ?_⟩, ?_⟩
  · rw [load32_setNext (b := b) hp]
    refine represents_cons.mpr ⟨ptr_eq_some.mpr ⟨?_, hq⟩, hq ▸ hnew, ?_⟩
    · rintro rfl
      simp only [UInt32.toNat_zero] at hq
      omega
    · simp only [← hq, hnext]
      exact htail
  · intro i hi
    rw [hm₂ i (by omega), hm₁ i (by omega)]

lemma kmalloc_fit_represents (hr : Represents m p (b :: bs)) (hp : p.toNat = b.addr)
    (ht : Tiles 16 lim a (b :: bs)) (hlim : lim < 2 ^ 32) (h0 : 4 ≤ a) :
    let m' := if size + blockHeader + 4 ≤ blockSize m p then splitBlock m p size else m
    size ≤ blockSize m p →
    Represents (setIsFree m' p false) p (splitAt 16 4 size.toNat b ++ bs) ∧
      ∀ i < a, setIsFree m' p false i = m i := by
  intro m' hle
  obtain ⟨hpb, hb, hrest⟩ := represents_cons.mp hr
  have hba := ht.1
  have hbl := (ht.bounds (b := b) (by simp)).2
  have hbs := hb.blockSize hp
  rw [UInt32.le_iff_toNat_le, hbs] at hle
  have hcond : size + blockHeader + 4 ≤ blockSize m p ↔ size.toNat + 16 + 4 ≤ b.size := by
    rw [UInt32.le_iff_toNat_le, hbs]
    simp only [UInt32.toNat_add, blockHeader]
    change ((size.toNat + 16) % 2 ^ 32 + 4) % 2 ^ 32 ≤ b.size ↔ _
    omega
  have hrest_addr : ∀ d ∈ bs, b.addr + 16 ≤ d.addr := by
    intro d hd
    have := (ht.2.bounds hd).1
    omega
  by_cases hc : size.toNat + 16 + 4 ≤ b.size
  · have hm' : m' = splitBlock m p size := if_pos (hcond.mpr hc)
    obtain ⟨hs, hf⟩ := splitBlock_represents hr hp ht hlim h0 hc
    rw [hm', splitAt, if_pos hc]
    refine ⟨represents_setIsFree hs hp ?_ false, ?_⟩
    · intro d hd
      rcases List.mem_cons.mp hd with rfl | hd
      · simp only
        omega
      · exact hrest_addr d hd
    · intro i hi
      rw [setIsFree_outside _ (by omega), hf i hi]
  · have hm' : m' = m := if_neg (fun h => hc (hcond.mp h))
    rw [hm', splitAt, if_neg hc]
    refine ⟨represents_setIsFree hr hp hrest_addr false, ?_⟩
    intro i hi
    rw [setIsFree_outside _ (by omega)]

variable (size) in
/-- The search loop of `kmalloc` is first fit on the block list. -/
theorem kmalloc_loop {fuel : ℕ} (hr : Represents m p bs) (ht : Tiles 16 lim a bs)
    (hlim : lim < 2 ^ 32) (h0 : 4 ≤ a) (hf : bs.length < fuel) :
    (carve 16 4 size.toNat bs = none → loop (kmallocStep m size) fuel p = some (0, m)) ∧
    ∀ q bs', carve 16 4 size.toNat bs = some (q, bs') →
      ∃ m', loop (kmallocStep m size) fuel p = some (UInt32.ofNat q, m') ∧ Represents m' p bs' ∧
        ∀ i < a, m' i = m i := by
  induction bs generalizing p a fuel with
  | nil =>
    rw [represents_nil] at hr
    obtain ⟨fuel, rfl⟩ : ∃ k, fuel = k + 1 := ⟨fuel - 1, by simp at hf; omega⟩
    have hs : kmallocStep m size p = .inr (0, m) := by simp [kmallocStep, hr]
    refine ⟨fun _ => loop_succ_inr hs, ?_⟩
    intro q bs' hc
    exact absurd hc (by simp [carve])
  | cons b bs ih =>
    obtain ⟨hpb, hb, hrest⟩ := represents_cons.mp hr
    obtain ⟨hp0, hp⟩ := ptr_eq_some.mp hpb
    have hba := ht.1
    obtain ⟨fuel, rfl⟩ : ∃ k, fuel = k + 1 := ⟨fuel - 1, by omega⟩
    have hfit : (blockIsFree m p = true ∧ size ≤ blockSize m p) ↔
        (b.free = true ∧ size.toNat ≤ b.size) := by
      rw [hb.blockIsFree hp, UInt32.le_iff_toNat_le, hb.blockSize hp]
    by_cases hc : b.free = true ∧ size.toNat ≤ b.size
    · have hs : kmallocStep m size p = .inr (p + blockHeader, setIsFree
          (if size + blockHeader + 4 ≤ blockSize m p then splitBlock m p size else m) p false) := by
        simp only [kmallocStep, hp0, ite_false, hfit.mpr hc, and_self, ite_true]
      simp only [carve, hc, and_self, ite_true]
      refine ⟨by simp, ?_⟩
      intro q bs' he
      simp only [Option.some.injEq, Prod.mk.injEq] at he
      obtain ⟨rfl, rfl⟩ := he
      have hfr := kmalloc_fit_represents hr hp ht hlim h0 (hfit.mpr hc).2
      refine ⟨_, ?_, hfr.1, hfr.2⟩
      rw [loop_succ_inr hs]
      have hq : p + blockHeader = UInt32.ofNat (b.payload 16) := by
        apply UInt32.toNat_inj.mp
        have hbl := (ht.bounds (b := b) (by simp)).2
        simp only [UInt32.toNat_add, UInt32.toNat_ofNat', Blk.payload, hp]
        rfl
      rw [hq]
    · have hs : kmallocStep m size p = .inl (load32 m b.addr) := by
        have hn : ¬(blockIsFree m p = true ∧ size ≤ blockSize m p) := fun h => hc (hfit.mp h)
        simp only [kmallocStep, hp0, ite_false, hn, blockNext, hp]
      obtain ⟨hnone, hsome⟩ := ih hrest ht.2 (by omega) (Nat.lt_of_succ_lt_succ hf)
      simp only [carve, if_neg hc, Option.map_eq_none_iff, Option.map_eq_some_iff,
        loop_succ_inl hs, Prod.exists, Prod.mk.injEq]
      refine ⟨hnone, ?_⟩
      rintro q bs' ⟨q', cs, hq, rfl, rfl⟩
      obtain ⟨m', hl, hr', hframe⟩ := hsome q' cs hq
      refine ⟨m', hl, represents_cons.mpr ⟨hpb, ?_, ?_⟩, ?_⟩
      · exact hb.congr (fun i _ hi => hframe i (by omega))
      · rw [load32_frame m _ (fun i _ _ => hframe i (by omega))]
        exact hr'
      · intro i hi
        exact hframe i (by omega)

end Kmalloc

section Kfree

variable {m : Memory} {p q : UInt32} {b c : Blk} {bs : List Blk} {a lim : ℕ}

/-- The two stores of either merge turn a block and its successor into one block. -/
lemma merge_represents (hr : Represents m p (b :: c :: bs)) (ht : Tiles 16 lim a (b :: c :: bs))
    (hlim : lim < 2 ^ 32) (hq : q = blockNext m p) :
    Represents (setNext (setSize m p (blockSize m p + (blockHeader + blockSize m q))) p
      (blockNext m q)) p (⟨b.addr, b.size + (16 + c.size), b.free⟩ :: bs) := by
  obtain ⟨hpb, hb, hrc⟩ := represents_cons.mp hr
  obtain ⟨-, hp⟩ := ptr_eq_some.mp hpb
  have hqc : q = load32 m b.addr := by rw [hq, blockNext, hp]
  rw [← hqc] at hrc
  obtain ⟨hpc, hc, hrest⟩ := represents_cons.mp hrc
  obtain ⟨-, hqa⟩ := ptr_eq_some.mp hpc
  have hba := ht.1
  have hca := ht.2.1
  have hcl := (ht.bounds (b := c) (by simp)).2
  have hsz : (blockSize m p + (blockHeader + blockSize m q)).toNat = b.size + (16 + c.size) := by
    have h1 : (blockHeader + blockSize m q).toNat = 16 + c.size := by
      rw [toNat_add_of_lt (by rw [hc.blockSize hqa]; change 16 + _ < _; omega), hc.blockSize hqa]
      rfl
    rw [toNat_add_of_lt (by rw [h1, hb.blockSize hp]; omega), h1, hb.blockSize hp]
  refine represents_cons.mpr ⟨hpb, ?_, ?_⟩
  · rw [← hsz]
    exact header_setNext (header_setSize hb hp _) hp _
  · simp only
    rw [load32_setNext hp, blockNext, hqa]
    apply hrest.congr
    intro d hd i hi _
    have := (ht.2.2.bounds hd).1
    rw [setNext_outside _ (by omega), setSize_outside _ (by omega)]

lemma merge_frame (v w : UInt32) {i : ℕ} (hi : i < p.toNat) :
    setNext (setSize m p v) p w i = m i := by
  rw [setNext_outside _ (by omega), setSize_outside _ (by omega)]

lemma mergeWithNext_represents (hr : Represents m p (b :: bs)) (ht : Tiles 16 lim a (b :: bs))
    (hlim : lim < 2 ^ 32) :
    Represents (mergeWithNext (setIsFree m p true) p) p (mergeNext 16 ⟨b.addr, b.size, true⟩ bs) ∧
      ∀ i < a, mergeWithNext (setIsFree m p true) p i = m i := by
  obtain ⟨hpb, hb, hrest⟩ := represents_cons.mp hr
  obtain ⟨hp0, hp⟩ := ptr_eq_some.mp hpb
  have hba := ht.1
  let m₁ := setIsFree m p true
  have hm₁ : ∀ i, i ≠ p.toNat + 8 → m₁ i = m i := fun i hi => setIsFree_outside _ hi
  have hn₁ : load32 m₁ b.addr = load32 m b.addr := load32_frame m _ (fun i _ _ => hm₁ i (by omega))
  have hr₁ : Represents m₁ p (⟨b.addr, b.size, true⟩ :: bs) := by
    apply represents_setIsFree hr hp
    intro d hd
    have := (ht.2.bounds hd).1
    omega
  have hnext : blockNext m₁ p = load32 m b.addr := by rw [blockNext, hp, hn₁]
  cases bs with
  | nil =>
    have hz : blockNext m₁ p = 0 := hnext.trans (represents_nil.mp hrest)
    have hm : mergeWithNext m₁ p = m₁ := by simp [mergeWithNext, hz]
    rw [hm]
    exact ⟨hr₁, fun i hi => hm₁ i (by omega)⟩
  | cons c cs =>
    obtain ⟨-, -, hr₂⟩ := represents_cons.mp hr₁
    obtain ⟨hqc, hc, -⟩ := represents_cons.mp hr₂
    simp only [hn₁, ← hnext] at hqc
    obtain ⟨hq0, hqa⟩ := ptr_eq_some.mp hqc
    have hqf : blockIsFree m₁ (blockNext m₁ p) = c.free := hc.blockIsFree hqa
    cases hcf : c.free with
    | true =>
      have hm : mergeWithNext m₁ p = setNext (setSize m₁ p (blockSize m₁ p + (blockHeader +
          blockSize m₁ (blockNext m₁ p)))) p (blockNext m₁ (blockNext m₁ p)) := by
        have hpn : blockNext (setSize m₁ p (blockSize m₁ p + (blockHeader +
            blockSize m₁ (blockNext m₁ p)))) p = blockNext m₁ p :=
          load32_frame m₁ _ (fun i _ _ => setSize_outside _ (by omega))
        have hqn : ∀ v, blockNext (setSize m₁ p v) (blockNext m₁ p) = blockNext m₁ (blockNext m₁ p) := by
          intro v
          have := ht.2.1
          exact load32_frame m₁ _ (fun i _ _ => setSize_outside _ (by omega))
        simp only [mergeWithNext, hq0, hqf, hcf, ne_eq, not_false_eq_true, and_self, ite_true, hpn,
          hqn]
      rw [mergeNext_free _ cs hcf, hm]
      refine ⟨merge_represents hr₁ ⟨ht.1, ht.2⟩ hlim rfl, ?_⟩
      intro i hi
      rw [merge_frame _ _ (by omega), hm₁ i (by omega)]
    | false =>
      have hm : mergeWithNext m₁ p = m₁ := by simp [mergeWithNext, hqf, hcf]
      rw [mergeNext_used _ cs hcf, hm]
      exact ⟨hr₁, fun i hi => hm₁ i (by omega)⟩

/-- Nothing points back: a search from a block itself or from behind it ends at the null pointer. -/
lemma prevStep_behind {fuel : ℕ} {block : UInt32} (hr : Represents m p bs)
    (ht : Tiles 16 lim a bs) (hb : block.toNat < a + 16) (hb0 : block ≠ 0) (hf : bs.length < fuel) :
    loop (prevStep m block) fuel p = some 0 := by
  induction bs generalizing p a fuel with
  | nil =>
    rw [represents_nil] at hr
    obtain ⟨fuel, rfl⟩ : ∃ k, fuel = k + 1 := ⟨fuel - 1, by simp at hf; omega⟩
    exact loop_succ_inr (by simp [prevStep, hr])
  | cons b bs ih =>
    obtain ⟨hpb, -, hrest⟩ := represents_cons.mp hr
    obtain ⟨hp0, hp⟩ := ptr_eq_some.mp hpb
    obtain ⟨fuel, rfl⟩ : ∃ k, fuel = k + 1 := ⟨fuel - 1, by omega⟩
    have hne : blockNext m p ≠ block := by
      rw [blockNext, hp]
      intro he
      cases bs with
      | nil => exact hb0 (he.symm.trans (represents_nil.mp hrest))
      | cons c cs =>
        obtain ⟨hq, -, -⟩ := represents_cons.mp hrest
        have hqa := (ptr_eq_some.mp hq).2
        have := ht.2.1
        rw [he] at hqa
        omega
    have hs : prevStep m block p = .inl (load32 m b.addr) := by
      rw [prevStep, if_pos ⟨hp0, hne⟩, blockNext, hp]
    rw [loop_succ_inl hs]
    exact ih hrest ht.2 (by omega) (Nat.lt_of_succ_lt_succ hf)

lemma prevStep_self {fuel : ℕ} (hr : Represents m p (b :: bs)) (ht : Tiles 16 lim a (b :: bs))
    (hf : (b :: bs).length < fuel) : loop (prevStep m p) fuel p = some 0 := by
  obtain ⟨hp0, hp⟩ := ptr_eq_some.mp (represents_cons.mp hr).1
  have hba := ht.1
  exact prevStep_behind hr ht (by omega) hp0 hf

/-- The search of `kfree` finds the block whose `next` is the freed one. -/
lemma prevStep_segment {fuel : ℕ} {block : UInt32} {l : List Blk} (hs : Segment m p (l ++ [c]) block)
    (ht : Tiles 16 lim a (l ++ [c])) (hb : lim ≤ block.toNat) (hf : l.length + 1 < fuel) :
    ∃ r, loop (prevStep m block) fuel p = some r ∧ ptr r = some c.addr := by
  induction l generalizing p a fuel with
  | nil =>
    obtain ⟨hpc, -, hn⟩ := hs
    obtain ⟨-, hp⟩ := ptr_eq_some.mp hpc
    obtain ⟨fuel, rfl⟩ : ∃ k, fuel = k + 1 := ⟨fuel - 1, by omega⟩
    have hn' : block = load32 m c.addr := hn
    refine ⟨p, loop_succ_inr ?_, hpc⟩
    simp [prevStep, blockNext, hp, hn']
  | cons d l ih =>
    obtain ⟨hpd, -, hn⟩ := hs
    obtain ⟨hp0, hp⟩ := ptr_eq_some.mp hpd
    obtain ⟨fuel, rfl⟩ : ∃ k, fuel = k + 1 := ⟨fuel - 1, by omega⟩
    have hne : blockNext m p ≠ block := by
      rw [blockNext, hp]
      intro he
      -- the next block of the segment lies before `lim`
      have hnext : ∃ e, ptr (load32 m d.addr) = some (Blk.addr e) ∧ e ∈ l ++ [c] := by
        cases l with
        | nil => exact ⟨c, hn.1, by simp⟩
        | cons e l => exact ⟨e, hn.1, by simp⟩
      obtain ⟨e, he', hem⟩ := hnext
      have hea := (ptr_eq_some.mp he').2
      have := (ht.2.bounds hem).2
      rw [he] at hea
      omega
    have hst : prevStep m block p = .inl (load32 m d.addr) := by
      rw [prevStep, if_pos ⟨hp0, hne⟩, blockNext, hp]
    rw [loop_succ_inl hst]
    exact ih hn ht.2 (Nat.lt_of_succ_lt_succ hf)

lemma Tiles.length_lt_walkFuel (ht : Tiles 16 lim a bs) (hlim : lim < 2 ^ 32) :
    bs.length + 1 < walkFuel := by
  have := ht.length_le
  simp only [walkFuel]
  omega

/-- The second half of `kfree` when the freed block is the first one. -/
lemma mergeWithPrev_first (hr : Represents m p (b :: bs)) (ht : Tiles 16 lim a (b :: bs))
    (hlim : lim < 2 ^ 32) :
    ∃ r, loop (prevStep m p) walkFuel p = some r ∧ mergeWithPrev m p r = m := by
  have hlen := Tiles.length_lt_walkFuel ht hlim
  refine ⟨0, prevStep_self hr ht (by omega), ?_⟩
  simp [mergeWithPrev]

/-- The second half of `kfree` behind a block `c`. -/
lemma mergeWithPrev_append {l : List Blk} (hs : Segment m p (l ++ [c]) q)
    (hr : Represents m q (b :: bs)) (ht : Tiles 16 lim a (l ++ c :: b :: bs))
    (hlim : lim < 2 ^ 32) (hbf : b.free = true) :
    ∃ r, loop (prevStep m q) walkFuel p = some r ∧
      Represents (mergeWithPrev m q r) p
        (l ++ if c.free = true then mergeNext 16 c (b :: bs) else c :: b :: bs) := by
  obtain ⟨hq0, hqa⟩ := ptr_eq_some.mp (represents_cons.mp hr).1
  have hall : Represents m p (l ++ c :: b :: bs) := by
    have := represents_append.mpr ⟨q, hs, hr⟩
    rwa [List.append_assoc] at this
  have htc : Tiles 16 b.addr a (l ++ [c]) := by
    have hta : Tiles 16 lim a ((l ++ [c]) ++ (b :: bs)) := by rwa [List.append_assoc]
    obtain ⟨e, h1, h2⟩ := hta.append
    exact h2.1 ▸ h1
  have hlen : l.length + 1 < walkFuel := by
    have := Tiles.length_lt_walkFuel ht hlim
    simp only [List.length_append, List.length_cons] at this
    omega
  obtain ⟨r, hloop, hrc⟩ := prevStep_segment hs htc (le_of_eq hqa.symm) hlen
  obtain ⟨r', hsl, hrr⟩ := represents_append.mp hall
  obtain ⟨lc, htl, htr⟩ := ht.append
  obtain ⟨hr0, hra⟩ := ptr_eq_some.mp hrc
  have hrr' : r' = r := by
    have hc := (ptr_eq_some.mp (represents_cons.mp hrr).1).2
    exact UInt32.toNat_inj.mp (hc.trans hra.symm)
  subst hrr'
  have hcf : blockIsFree m r' = c.free := (represents_cons.mp hrr).2.1.blockIsFree hra
  refine ⟨r', hloop, ?_⟩
  cases hc : c.free with
  | true =>
    have hqn : q = blockNext m r' := by
      obtain ⟨-, -, hrb⟩ := represents_cons.mp hrr
      have h1 := (ptr_eq_some.mp (represents_cons.mp hrb).1).2
      rw [blockNext, hra]
      exact UInt32.toNat_inj.mp (hqa.trans h1.symm)
    have hm : mergeWithPrev m q r' = setNext (setSize m r' (blockSize m r' + (blockHeader +
        blockSize m q))) r' (blockNext m q) := by
      have hn : blockNext (setSize m r' (blockSize m r' + (blockHeader + blockSize m q))) q =
          blockNext m q := by
        have := (htr.bounds (b := c) (by simp)).2
        have hcb := htr.2.1
        have hca := htr.1
        exact load32_frame m _ (fun i _ _ => setSize_outside _ (by omega))
      simp only [mergeWithPrev, hr0, hcf, hc, ne_eq, not_false_eq_true, and_self, ite_true, hn]
    rw [if_pos rfl, mergeNext_free c bs hbf, hm]
    refine represents_append.mpr ⟨r', ?_, merge_represents hrr htr hlim hqn⟩
    apply hsl.frame htl
    intro i hi
    have := htr.1
    exact merge_frame _ _ (by omega)
  | false =>
    have hm : mergeWithPrev m q r' = m := by simp [mergeWithPrev, hcf, hc]
    rw [if_neg (by simp), hm]
    exact hall

/-- `kfree` of the payload of a listed block is `release` on the block list. -/
theorem kfree_represents {h : Heap} (hr : Represents h.mem h.heapHead bs)
    (ht : Tiles 16 lim a bs) (hlim : lim < 2 ^ 32) (hb : b ∈ bs) (hp : p.toNat = b.payload 16) :
    ∃ m', kfree h p = some ⟨m', h.heapHead⟩ ∧ Represents m' h.heapHead (release 16 p.toNat bs) := by
  obtain ⟨l, t, rfl⟩ := List.append_of_mem hb
  obtain ⟨block, hseg, hrb⟩ := represents_append.mp hr
  obtain ⟨lb, htl, htb⟩ := ht.append
  obtain rfl : b.addr = lb := htb.1
  obtain ⟨hpb, hhb, -⟩ := represents_cons.mp hrb
  obtain ⟨hb0, hba⟩ := ptr_eq_some.mp hpb
  have hp' : p.toNat = b.addr + 16 := hp
  have hblock : p - blockHeader = block := by
    apply UInt32.toNat_inj.mp
    rw [toNat_sub_of_le (by rw [hp']; exact Nat.le_add_left _ _), hp', hba]
    exact Nat.add_sub_cancel _ _
  have hp0 : p ≠ 0 := by
    rintro rfl
    simp only [UInt32.toNat_zero] at hp'
    omega
  have hmagic : blockMagic h.mem block = kheapMagic := by
    rw [blockMagic, hba]
    exact hhb.magic
  obtain ⟨hrm, hfm⟩ := mergeWithNext_represents hrb htb hlim
  generalize hmd : mergeWithNext (setIsFree h.mem block true) block = m at hrm hfm
  have htm : Tiles 16 lim b.addr (mergeNext 16 ⟨b.addr, b.size, true⟩ t) := mergeNext_tiles htb
  obtain ⟨n, s, hms, -⟩ := mergeNext_eq_cons 16 ⟨b.addr, b.size, true⟩ t
  simp only at hms
  rw [hms] at hrm htm
  have hsegm : Segment m h.heapHead l block := hseg.frame htl hfm
  have hkfree : kfree h p = (loop (prevStep m block) walkFuel h.heapHead).map
      (fun curr => { h with mem := mergeWithPrev m block curr }) := by
    simp only [kfree, hp0, ite_false, hblock, hmagic, ite_true, hmd]
  rw [hkfree]
  rcases List.eq_nil_or_concat l with rfl | ⟨l', c, rfl⟩
  · -- no block before the freed one
    have hhead : block = h.heapHead := hsegm
    obtain ⟨r, hloop, hsame⟩ := mergeWithPrev_first hrm htm hlim
    refine ⟨m, ?_, ?_⟩
    · rw [← hhead, hloop, Option.map_some, hsame]
    · rw [List.nil_append, release, if_pos hp.symm, hms, ← hhead]
      exact hrm
  · rw [List.concat_eq_append] at hsegm htl ht ⊢
    have htall : Tiles 16 lim a (l' ++ c :: ⟨b.addr, n, true⟩ :: s) := by
      have := htl.join htm
      rwa [List.append_assoc] at this
    obtain ⟨r, hloop, hrep⟩ := mergeWithPrev_append hsegm hrm htall hlim rfl
    refine ⟨_, by rw [hloop]; rfl, ?_⟩
    have hl : ∀ d ∈ l' ++ [c], d.payload 16 ≠ p.toNat := by
      intro d hd
      have := (htl.bounds hd).2
      simp only [Blk.payload]
      omega
    rw [List.append_assoc, List.singleton_append, release_append hp.symm hl, hms]
    exact hrep

/-- `kmalloc` is first fit on the block list. -/
theorem kmalloc_represents {h : Heap} {size : UInt32} (hr : Represents h.mem h.heapHead bs)
    (ht : Tiles 16 lim a bs) (hlim : lim < 2 ^ 32) (h0 : 4 ≤ a) (hs : size ≠ 0) :
    (carve 16 4 (alignSize size).toNat bs = none → kmalloc h size = some (0, h)) ∧
    ∀ q bs', carve 16 4 (alignSize size).toNat bs = some (q, bs') →
      ∃ m', kmalloc h size = some (UInt32.ofNat q, ⟨m', h.heapHead⟩) ∧
        Represents m' h.heapHead bs' := by
  have hlen : bs.length < walkFuel := by
    have := Tiles.length_lt_walkFuel ht hlim
    omega
  obtain ⟨hnone, hsome⟩ := kmalloc_loop (alignSize size) hr ht hlim h0 hlen
  constructor
  · intro hc
    simp only [kmalloc, hs, ite_false, hnone hc, Option.map_some]
  · intro q bs' hc
    obtain ⟨m', hl, hr', -⟩ := hsome q bs' hc
    refine ⟨m', ?_, hr'⟩
    simp only [kmalloc, hs, ite_false, hl, Option.map_some]

end Kfree

end SBoy28.Kheap
