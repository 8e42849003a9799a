import SBoy28.Kheap.Blocks
import SBoy28.Kheap.FirstFit

/-!
# The heap as a store of objects

A client of the heap sees objects: each has the size that was asked for, and a byte of it is the one that was
stored there last. The calls change no byte of an object that is not freed.
-/

namespace SBoy28.Kheap
open Lib

section Specification

/-- An object; a byte that has not been stored yet is unknown. -/
structure Object where
  size : ℕ
  bytes : ℕ → Option UInt8

/-- The objects at their pointers. -/
abbrev Objects := UInt32 → Option Object

/-- The calls with their results, and the stores into objects. -/
inductive HeapEvent where
  | malloc (n p : UInt32)
  | free (p : UInt32)
  | store (p : UInt32) (i : ℕ) (b : UInt8)

/-- The size of a new object. The rounding of the three largest sizes wraps around, and leaves no room at all. -/
def usable (n : UInt32) : ℕ := if n.toNat ≤ 2 ^ 32 - 4 then n.toNat else 0

def Object.store (object : Object) (i : ℕ) (b : UInt8) : Object :=
  { object with bytes := Function.update object.bytes i (some b) }

def Objects.step (objects : Objects) : HeapEvent → Objects
  | .malloc n p => if p = 0 then objects else Function.update objects p (some ⟨usable n, fun _ => none⟩)
  | .free p => Function.update objects p none
  | .store p i b => Function.update objects p ((objects p).map fun object => object.store i b)

/-- The calls as the heap performs them: only objects are freed, and stores stay inside of them. -/
inductive HeapStep (objects : Objects) (h : Heap) : HeapEvent → Heap → Prop where
  | malloc {n p : UInt32} {h' : Heap} (hc : kmalloc h n = some (p, h')) : HeapStep objects h (.malloc n p) h'
  | free {p : UInt32} {h' : Heap} (hp : p = 0 ∨ (objects p).isSome) (hc : kfree h p = some h') :
    HeapStep objects h (.free p) h'
  | store {p : UInt32} {i : ℕ} {object : Object} (b : UInt8) (hp : objects p = some object) (hi : i < object.size) :
    HeapStep objects h (.store p i b) { h with mem := store8 h.mem (p.toNat + i) b }

/-- The heap with the objects that its client has. -/
structure Session where
  heap : Heap
  objects : Objects

inductive Session.Step (s : Session) : Session → Prop where
  | perform {e : HeapEvent} {h' : Heap} (h : HeapStep s.objects s.heap e h') :
    Session.Step s ⟨h', s.objects.step e⟩

/-- The objects lie apart from each other inside the heap, and hold the bytes that were stored. -/
structure Holds (h : Heap) (objects : Objects) : Prop where
  inside : ∀ p object, objects p = some object → heapStart ≤ p.toNat ∧ p.toNat + object.size ≤ heapEnd
  apart : ∀ p q object object', p ≠ q → objects p = some object → objects q = some object' →
    p.toNat + object.size ≤ q.toNat ∨ q.toNat + object'.size ≤ p.toNat
  bytes : ∀ p object i b, objects p = some object → object.bytes i = some b →
    i < object.size ∧ h.mem (p.toNat + i) = b

end Specification

variable {h h' : Heap} {live : Finset UInt32} {bs bs' : List Blk} {objects : Objects}

section Frame

variable {m m' : Memory} {p q size : UInt32} {b : Blk} {a lim : ℕ}

/-- The byte is none that the heap uses for itself. -/
def Kept (bs : List Blk) (i : ℕ) : Prop :=
  (i < heapStart ∨ heapEnd ≤ i) ∨ ∃ b ∈ bs, b.free = false ∧ b.addr + 16 ≤ i ∧ i < b.addr + 16 + b.size

/-- Such a byte is in no header and in no free block. -/
lemma Kept.outside {i : ℕ} (hk : Kept bs i) (ht : Tiles 16 heapEnd heapStart bs) (hb : b ∈ bs) :
    (i < b.addr ∨ b.addr + 16 ≤ i) ∧ (b.free = true → i < b.addr ∨ b.addr + 16 + b.size ≤ i) := by
  have hbnd := ht.bounds hb
  obtain hout | ⟨c, hc, hused, hlo, hhi⟩ := hk
  · omega
  · rcases ht.separated hb hc with rfl | hsep | hsep
    · rw [hused]
      exact ⟨Or.inr hlo, fun hfree => by cases hfree⟩
    · omega
    · omega

lemma splitBlock_outside (hp : p.toNat = b.addr) (hlim : b.addr + 16 + b.size < 2 ^ 32)
    (hs : size.toNat + 16 + 4 ≤ b.size) {i : ℕ} (hi : i < b.addr ∨ b.addr + 16 + b.size ≤ i) :
    splitBlock m p size i = m i := by
  have hq := newBlock_toNat hp le_rfl hlim (by omega : size.toNat + 16 ≤ b.size)
  rw [splitBlock_eq rfl (by omega)]
  rw [setNext_outside _ (by omega), setSize_outside _ (by omega), setMagic_outside _ (by omega),
    setNext_outside _ (by omega), setSize_outside _ (by omega), setIsFree_outside _ (by omega)]

/-- The search changes nothing or one free block. -/
lemma kmalloc_loop_frame {fuel : ℕ} (hr : Represents m p bs) (ht : Tiles 16 lim a bs) (hlim : lim < 2 ^ 32)
    (h0 : 4 ≤ a) (hloop : loop (kmallocStep m size) fuel p = some (q, m')) :
    m' = m ∨ ∃ b ∈ bs, b.free = true ∧ ∀ i, i < b.addr ∨ b.addr + 16 + b.size ≤ i → m' i = m i := by
  induction bs generalizing p a fuel with
  | nil =>
    rw [represents_nil] at hr
    cases fuel with
    | zero => cases hloop
    | succ fuel =>
      have hs : kmallocStep m size p = .inr (0, m) := by simp [kmallocStep, hr]
      rw [loop_succ_inr hs] at hloop
      exact Or.inl (Prod.mk.inj (Option.some.inj hloop)).2.symm
  | cons b bs ih =>
    obtain ⟨hpb, hb, hrest⟩ := represents_cons.mp hr
    obtain ⟨hp0, hp⟩ := ptr_eq_some.mp hpb
    cases fuel with
    | zero => cases hloop
    | succ fuel =>
      by_cases hfit : blockIsFree m p = true ∧ size ≤ blockSize m p
      · have hs : kmallocStep m size p = .inr (p + blockHeader, setIsFree
            (if size + blockHeader + 4 ≤ blockSize m p then splitBlock m p size else m) p false) := by
          simp only [kmallocStep, hp0, ite_false, hfit, and_self, ite_true]
        rw [loop_succ_inr hs] at hloop
        have hm := (Prod.mk.inj (Option.some.inj hloop)).2
        have hbnd := ht.bounds (b := b) (by simp)
        refine Or.inr ⟨b, by simp, (hb.blockIsFree hp).symm.trans hfit.1, fun i hi => ?_⟩
        rw [← hm, setIsFree_outside _ (by omega)]
        split
        · next hroom =>
          have hle := hfit.2
          rw [UInt32.le_iff_toNat_le, hb.blockSize hp] at hroom hle
          simp only [UInt32.toNat_add, blockHeader] at hroom
          change ((size.toNat + 16) % 2 ^ 32 + 4) % 2 ^ 32 ≤ b.size at hroom
          exact splitBlock_outside hp (by omega) (by omega) hi
        · rfl
      · have hs : kmallocStep m size p = .inl (load32 m b.addr) := by
          simp only [kmallocStep, hp0, ite_false, hfit, blockNext, hp]
        rw [loop_succ_inl hs] at hloop
        obtain heq | ⟨c, hc, hfree, hsame⟩ := ih hrest ht.2 (by omega) hloop
        · exact Or.inl heq
        · exact Or.inr ⟨c, List.mem_cons_of_mem _ hc, hfree, hsame⟩

lemma HeapInvariant.kmalloc_kept (hi : HeapInvariant h live bs) {n : UInt32} (hc : Kheap.kmalloc h n = some (p, h'))
    {i : ℕ} (hk : Kept bs i) : h'.mem i = h.mem i := by
  unfold Kheap.kmalloc at hc
  split at hc
  · rw [(Prod.mk.inj (Option.some.inj hc)).2]
  · obtain ⟨⟨q, m'⟩, hloop, heq⟩ := Option.map_eq_some_iff.mp hc
    have hm := congrArg Heap.mem (Prod.mk.inj heq).2
    simp only at hm
    rw [← hm]
    obtain hsame | ⟨b, hb, hfree, hsame⟩ :=
      kmalloc_loop_frame hi.represents hi.tiles heapEnd_lt four_le_heapStart hloop
    · rw [hsame]
    · exact hsame i ((hk.outside hi.tiles hb).2 hfree)

/-- The search for the previous block ends at a block or at the null pointer. -/
lemma prevStep_found {fuel : ℕ} {block r : UInt32} (hr : Represents m p bs)
    (hloop : loop (prevStep m block) fuel p = some r) : r = 0 ∨ ∃ b ∈ bs, r.toNat = b.addr := by
  induction bs generalizing p fuel with
  | nil =>
    rw [represents_nil] at hr
    cases fuel with
    | zero => cases hloop
    | succ fuel =>
      have hs : prevStep m block p = .inr p := by simp [prevStep, hr]
      rw [loop_succ_inr hs, hr] at hloop
      exact Or.inl (Option.some.inj hloop).symm
  | cons b bs ih =>
    obtain ⟨hpb, -, hrest⟩ := represents_cons.mp hr
    obtain ⟨hp0, hp⟩ := ptr_eq_some.mp hpb
    cases fuel with
    | zero => cases hloop
    | succ fuel =>
      by_cases hnext : blockNext m p = block
      · have hs : prevStep m block p = .inr p := by simp [prevStep, hnext]
        rw [loop_succ_inr hs] at hloop
        refine Or.inr ⟨b, by simp, ?_⟩
        rw [← Option.some.inj hloop, hp]
      · have hs : prevStep m block p = .inl (load32 m b.addr) := by
          rw [prevStep, if_pos ⟨hp0, hnext⟩, blockNext, hp]
        rw [loop_succ_inl hs] at hloop
        obtain hzero | ⟨c, hc, hrc⟩ := ih hrest hloop
        · exact Or.inl hzero
        · exact Or.inr ⟨c, List.mem_cons_of_mem _ hc, hrc⟩

lemma mergeWithNext_outside {i : ℕ} (hi : i < p.toNat ∨ p.toNat + 16 ≤ i) : mergeWithNext m p i = m i := by
  unfold mergeWithNext
  split
  · dsimp only
    rw [setNext_outside _ (by omega), setSize_outside _ (by omega)]
  · rfl

lemma mergeWithPrev_outside {i : ℕ} (hi : q = 0 ∨ i < q.toNat ∨ q.toNat + 16 ≤ i) :
    mergeWithPrev m p q i = m i := by
  unfold mergeWithPrev
  split
  · next hq =>
    have hi' : i < q.toNat ∨ q.toNat + 16 ≤ i := hi.resolve_left hq.1
    dsimp only
    rw [setNext_outside _ (by omega), setSize_outside _ (by omega)]
  · rfl

/-- What is freed is merged by stores into headers only. -/
lemma HeapInvariant.kfree_kept (hi : HeapInvariant h live bs) (hp : p ∈ live) (hc : Kheap.kfree h p = some h')
    {i : ℕ} (hk : Kept bs i) : h'.mem i = h.mem i := by
  obtain ⟨b, hb, -, hpb, -⟩ := hi.live_block hp
  obtain ⟨l, t, hbs⟩ := List.append_of_mem hb
  have hr := hi.represents
  have ht := hi.tiles
  rw [hbs] at hr ht
  obtain ⟨block, hseg, hrb⟩ := represents_append.mp hr
  obtain ⟨lb, htl, htb⟩ := ht.append
  obtain rfl : b.addr = lb := htb.1
  obtain ⟨hb0, hba⟩ := ptr_eq_some.mp (represents_cons.mp hrb).1
  have hblock : p - blockHeader = block := by
    apply UInt32.toNat_inj.mp
    rw [toNat_sub_of_le (by rw [hpb]; exact Nat.le_add_left _ _), hpb, hba]
    exact Nat.add_sub_cancel _ _
  obtain ⟨hrm, hfm⟩ := mergeWithNext_represents hrb htb heapEnd_lt
  have hall := represents_append.mpr ⟨block, hseg.frame htl hfm, hrm⟩
  have hheader : ∀ c ∈ l ++ mergeNext 16 ⟨b.addr, b.size, true⟩ t, ∃ d ∈ bs, d.addr = c.addr := by
    obtain ⟨n, s, hms, hs⟩ := mergeNext_eq_cons 16 ⟨b.addr, b.size, true⟩ t
    rw [hms, hbs]
    intro c hc
    rcases List.mem_append.mp hc with hc | hc
    · exact ⟨c, List.mem_append_left _ hc, rfl⟩
    · rcases List.mem_cons.mp hc with rfl | hc
      · exact ⟨b, by simp, rfl⟩
      · exact ⟨c, by simp [hs c hc], rfl⟩
  have hout := (hk.outside hi.tiles hb).1
  have hfirst : mergeWithNext (setIsFree h.mem block true) block i = h.mem i := by
    rw [mergeWithNext_outside (by omega), setIsFree_outside _ (by omega)]
  unfold Kheap.kfree at hc
  split at hc
  · rw [Option.some.inj hc]
  · dsimp only at hc
    rw [hblock] at hc
    split at hc
    · obtain ⟨r, hloop, rfl⟩ := Option.map_eq_some_iff.mp hc
      dsimp only
      rw [mergeWithPrev_outside ?_, hfirst]
      obtain hzero | ⟨c, hc, hrc⟩ := prevStep_found hall hloop
      · exact Or.inl hzero
      · obtain ⟨d, hd, hdc⟩ := hheader c hc
        have hd' := (hk.outside hi.tiles hd).1
        right
        omega
    · rw [Option.some.inj hc]

end Frame

section Runs

variable {p : UInt32}

/-- The objects are those of the live pointers, and each has room in its block. -/
structure Tracks (h : Heap) (objects : Objects) (live : Finset UInt32) (bs : List Blk) : Prop where
  invariant : HeapInvariant h live bs
  owned : ∀ p, p ∈ live ↔ (objects p).isSome
  room : ∀ p object, objects p = some object →
    ∃ b ∈ bs, b.free = false ∧ p.toNat = b.addr + 16 ∧ object.size ≤ b.size
  bytes : ∀ p object i b, objects p = some object → object.bytes i = some b →
    i < object.size ∧ h.mem (p.toNat + i) = b

lemma usable_le (n : UInt32) : usable n ≤ (alignSize n).toNat := by
  unfold usable
  split
  · next hle =>
    rw [alignSize_toNat hle, roundUp]
    omega
  · exact Nat.zero_le _

/-- A byte of an object is none that the heap uses for itself. -/
lemma Tracks.kept (ht : Tracks h objects live bs) {object : Object} (hp : objects p = some object) {i : ℕ}
    (hi : i < object.size) : Kept bs (p.toNat + i) := by
  obtain ⟨b, hb, hused, hpb, hsize⟩ := ht.room p object hp
  exact Or.inr ⟨b, hb, hused, by omega, by omega⟩

lemma Tracks.holds (ht : Tracks h objects live bs) : Holds h objects where
  inside p object hp := by
    obtain ⟨b, hb, -, hpb, hsize⟩ := ht.room p object hp
    have hbnd := ht.invariant.tiles.bounds hb
    omega
  apart p q object object' hne hp hq := by
    obtain ⟨b, hb, -, hpb, hsize⟩ := ht.room p object hp
    obtain ⟨c, hc, -, hqc, hsize'⟩ := ht.room q object' hq
    rcases ht.invariant.tiles.separated hb hc with rfl | hsep | hsep
    · exact absurd (UInt32.toNat_inj.mp (hpb.trans hqc.symm)) hne
    · omega
    · omega
  bytes := ht.bytes

/-- What is said of the heap depends on the bytes of the heap only. -/
lemma Tracks.congr (ht : Tracks h objects live bs) {mem : Memory}
    (hm : ∀ i, heapStart ≤ i → i < heapEnd → mem i = h.mem i) :
    Tracks ⟨mem, h.heapHead⟩ objects live bs := by
  have hi := ht.invariant
  refine ⟨⟨?_, hi.tiles, hi.granular, hi.coalesced, hi.live_iff⟩, ht.owned, ht.room, ?_⟩
  · apply hi.represents.congr
    intro b hb i hlo hhi
    have hbnd := hi.tiles.bounds hb
    exact hm i (by omega) (by omega)
  · intro p object i b hp hb
    obtain ⟨hlt, hmem⟩ := ht.bytes p object i b hp hb
    have hin := ht.holds.inside p object hp
    refine ⟨hlt, (hm _ (by omega) (by omega)).trans hmem⟩

/-- A call that succeeds carves its block from the first free one with room. -/
lemma Tracks.malloc_carves (ht : Tracks h objects live bs) {n : UInt32} (hc : kmalloc h n = some (p, h')) :
    ∃ live' bs', Tracks h' (objects.step (.malloc n p)) live' bs' ∧
      (p ≠ 0 → carve 16 4 (alignSize n).toNat bs = some (p.toNat, bs')) := by
  by_cases hn : n = 0
  · rw [kmalloc, if_pos hn] at hc
    obtain ⟨rfl, rfl⟩ := Prod.mk.inj (Option.some.inj hc)
    exact ⟨live, bs, ht, fun h0 => absurd rfl h0⟩
  obtain ⟨-, hk⟩ | ⟨q, h₁, bs', -, hcarve, hq, hfresh, hk, hi', hkeeps, c, hcm, hused, hpay, hsize⟩ :=
    ht.invariant.kmalloc_used hn
  · rw [hk] at hc
    obtain ⟨rfl, rfl⟩ := Prod.mk.inj (Option.some.inj hc)
    exact ⟨live, bs, ht, fun h0 => absurd rfl h0⟩
  · have hframe := fun i (hki : Kept bs i) => ht.invariant.kmalloc_kept hc hki
    rw [hk] at hc
    obtain ⟨rfl, rfl⟩ := Prod.mk.inj (Option.some.inj hc)
    have hother : ∀ r object, objects.step (.malloc n q) r = some object → r ≠ q → objects r = some object := by
      intro r object hr hne
      rwa [Objects.step, if_neg hq, Function.update_of_ne hne] at hr
    have hself : objects.step (.malloc n q) q = some ⟨usable n, fun _ => none⟩ := by
      rw [Objects.step, if_neg hq, Function.update_self]
    refine ⟨insert q live, bs', ⟨hi', fun r => ?_, fun r object hr => ?_, fun r object i b hr hb => ?_⟩,
      fun _ => hcarve⟩
    · by_cases hrq : r = q
      · rw [hrq, hself]
        simp
      · rw [Finset.mem_insert, Objects.step, if_neg hq, Function.update_of_ne hrq, ht.owned]
        simp [hrq]
    · by_cases hrq : r = q
      · rw [hrq, hself] at hr
        have husable := usable_le n
        obtain rfl := Option.some.inj hr
        exact ⟨c, hcm, hused, by rw [hrq]; exact hpay.symm, husable.trans hsize⟩
      · obtain ⟨d, hd, hdused, hrd, hdsize⟩ := ht.room r object (hother r object hr hrq)
        exact ⟨d, hkeeps d hd hdused, hdused, hrd, hdsize⟩
    · by_cases hrq : r = q
      · rw [hrq, hself] at hr
        obtain rfl := Option.some.inj hr
        cases hb
      · have hr' := hother r object hr hrq
        obtain ⟨hlt, hmem⟩ := ht.bytes r object i b hr' hb
        exact ⟨hlt, (hframe _ (ht.kept hr' hlt)).trans hmem⟩

lemma Tracks.malloc (ht : Tracks h objects live bs) {n : UInt32} (hc : kmalloc h n = some (p, h')) :
    ∃ live' bs', Tracks h' (objects.step (.malloc n p)) live' bs' := by
  obtain ⟨live', bs', ht', -⟩ := ht.malloc_carves hc
  exact ⟨live', bs', ht'⟩

lemma Tracks.free (ht : Tracks h objects live bs) (hp : p = 0 ∨ (objects p).isSome) (hc : kfree h p = some h') :
    ∃ live' bs', Tracks h' (objects.step (.free p)) live' bs' := by
  by_cases hlive : p ∈ live
  · obtain ⟨h₁, bs', hk, hi', hkeeps⟩ := ht.invariant.kfree_used hlive
    have hframe := fun i (hki : Kept bs i) => ht.invariant.kfree_kept hlive hc hki
    rw [hk] at hc
    obtain rfl := Option.some.inj hc
    have hother : ∀ r object, objects.step (.free p) r = some object → r ≠ p ∧ objects r = some object := by
      intro r object hr
      rw [Objects.step] at hr
      by_cases hrp : r = p
      · rw [hrp, Function.update_self] at hr
        cases hr
      · exact ⟨hrp, by rwa [Function.update_of_ne hrp] at hr⟩
    refine ⟨live.erase p, bs', hi', fun r => ?_, fun r object hr => ?_, fun r object i b hr hb => ?_⟩
    · rw [Finset.mem_erase, Objects.step]
      by_cases hrp : r = p
      · rw [hrp, Function.update_self]
        simp
      · rw [Function.update_of_ne hrp, ht.owned]
        simp [hrp]
    · obtain ⟨hrp, hr'⟩ := hother r object hr
      obtain ⟨d, hd, hdused, hrd, hdsize⟩ := ht.room r object hr'
      refine ⟨d, hkeeps d hd hdused ?_, hdused, hrd, hdsize⟩
      intro hpay
      exact hrp (UInt32.toNat_inj.mp (hrd.trans hpay))
    · obtain ⟨-, hr'⟩ := hother r object hr
      obtain ⟨hlt, hmem⟩ := ht.bytes r object i b hr' hb
      exact ⟨hlt, (hframe _ (ht.kept hr' hlt)).trans hmem⟩
  · have hnone : objects p = none := by
      rw [← Option.not_isSome_iff_eq_none, ← ht.owned]
      exact hlive
    obtain rfl : p = 0 := hp.resolve_right (by rw [hnone]; simp)
    have hsame : objects.step (.free 0) = objects := by
      rw [Objects.step, ← hnone, Function.update_eq_self]
    rw [kfree, if_pos rfl] at hc
    rw [hsame, ← Option.some.inj hc]
    exact ⟨live, bs, ht⟩

lemma Tracks.store (ht : Tracks h objects live bs) {i : ℕ} {object : Object} (b : UInt8)
    (hp : objects p = some object) (hi : i < object.size) :
    Tracks { h with mem := store8 h.mem (p.toNat + i) b } (objects.step (.store p i b)) live bs := by
  obtain ⟨c, hc, hused, hpc, hsize⟩ := ht.room p object hp
  have hself : objects.step (.store p i b) p = some (object.store i b) := by
    rw [Objects.step, Function.update_self, hp]
    rfl
  have hother : ∀ r, r ≠ p → objects.step (.store p i b) r = objects r := by
    intro r hne
    rw [Objects.step, Function.update_of_ne hne]
  refine ⟨ht.invariant.payload hc fun j hj => store8_other _ _ (by omega), fun r => ?_, fun r object' hr => ?_,
    fun r object' j v hr hv => ?_⟩
  · by_cases hrp : r = p
    · rw [hrp, hself, ht.owned, hp]
      simp
    · rw [hother r hrp, ht.owned]
  · by_cases hrp : r = p
    · rw [hrp, hself] at hr
      obtain rfl := Option.some.inj hr
      exact ⟨c, hc, hused, by rw [hrp]; exact hpc, hsize⟩
    · exact ht.room r object' (by rwa [hother r hrp] at hr)
  · by_cases hrp : r = p
    · subst hrp
      rw [hself] at hr
      obtain rfl := Option.some.inj hr
      by_cases hji : j = i
      · subst hji
        simp only [Object.store, Function.update_self] at hv
        exact ⟨hi, (store8_same _ _ _).trans (Option.some.inj hv)⟩
      · simp only [Object.store, Function.update_of_ne hji] at hv
        obtain ⟨hlt, hmem⟩ := ht.bytes r object j v hp hv
        exact ⟨hlt, (store8_other _ _ (by omega)).trans hmem⟩
    · rw [hother r hrp] at hr
      obtain ⟨hlt, hmem⟩ := ht.bytes r object' j v hr hv
      have hapart := ht.holds.apart r p object' object hrp hr hp
      exact ⟨hlt, (store8_other _ _ (by omega)).trans hmem⟩

lemma Tracks.step (ht : Tracks h objects live bs) {e : HeapEvent} (hs : HeapStep objects h e h') :
    ∃ live' bs', Tracks h' (objects.step e) live' bs' := by
  cases hs with
  | malloc hc => exact ht.malloc hc
  | free hp hc => exact ht.free hp hc
  | store b hp hi => exact ⟨live, bs, ht.store b hp hi⟩

lemma tracks_start (m : Memory) : Tracks (kheapInit m) (fun _ => none) ∅ [initialBlock] where
  invariant := kheapInit_invariant m
  owned p := by simp
  room p object hp := by cases hp
  bytes p object i b hp := by cases hp

lemma tracks_run {m : Memory} {s : Session}
    (hrun : Relation.ReflTransGen Session.Step ⟨kheapInit m, fun _ => none⟩ s) :
    ∃ live bs, Tracks s.heap s.objects live bs := by
  induction hrun with
  | refl => exact ⟨_, _, tracks_start m⟩
  | tail _ hs ih =>
    obtain ⟨live, bs, ht⟩ := ih
    obtain ⟨he⟩ := hs
    exact ht.step he

/-- The next calls return: a new pointer is none of an object, and every object can be freed. -/
lemma Tracks.serves (ht : Tracks h objects live bs) :
    (∀ n, ∃ p h', kmalloc h n = some (p, h') ∧ (p = 0 ∨ objects p = none)) ∧
      ∀ p, p = 0 ∨ (objects p).isSome → (kfree h p).isSome := by
  refine ⟨fun n => ?_, fun p hp => ?_⟩
  · by_cases hn : n = 0
    · exact ⟨0, h, by rw [kmalloc, if_pos hn], Or.inl rfl⟩
    · obtain ⟨-, hk⟩ | ⟨q, h₁, bs', -, -, hq, hfresh, hk, -⟩ := ht.invariant.kmalloc_used hn
      · exact ⟨0, h, hk, Or.inl rfl⟩
      · rw [ht.owned, Option.not_isSome_iff_eq_none] at hfresh
        exact ⟨q, h₁, hk, Or.inr hfresh⟩
  · obtain rfl | hp := hp
    · rfl
    · obtain ⟨h₁, -, hk, -⟩ := ht.invariant.kfree_used ((ht.owned p).mpr hp)
      rw [hk]
      rfl

/-- The kernel heap is a store of objects. Whatever is allocated and freed in between, an object keeps the bytes that
were stored into it and shares none with another one. -/
theorem heap_refines_objects {m : Memory} {s : Session}
    (hrun : Relation.ReflTransGen Session.Step ⟨kheapInit m, fun _ => none⟩ s) :
    Holds s.heap s.objects ∧ (∀ n, ∃ p h', kmalloc s.heap n = some (p, h') ∧ (p = 0 ∨ s.objects p = none)) ∧
      ∀ p, p = 0 ∨ (s.objects p).isSome → (kfree s.heap p).isSome := by
  obtain ⟨live, bs, ht⟩ := tracks_run hrun
  exact ⟨ht.holds, ht.serves⟩

/-- A byte is stored before another object is allocated. -/
theorem heap_refines_objects_byte : ∃ h : Heap, ∃ objects : Objects, Holds h objects ∧
    objects 0xD0000010 = some ((⟨10, fun _ => none⟩ : Object).store 2 7) ∧
      objects 0xD000002C = some ⟨4, fun _ => none⟩ := by
  have hrun : Relation.ReflTransGen Session.Step ⟨kheapInit fun _ => 0, fun _ => none⟩ ⟨_, _⟩ :=
    .head ⟨.malloc (n := 10) (p := 0xD0000010) rfl⟩ <|
      .head ⟨.store (p := 0xD0000010) (i := 2) 7 rfl (show 2 < 10 by decide)⟩ <|
        .head ⟨.malloc (n := 4) (p := 0xD000002C) rfl⟩ .refl
  exact ⟨_, _, (heap_refines_objects hrun).1, rfl, rfl⟩

end Runs

end SBoy28.Kheap
