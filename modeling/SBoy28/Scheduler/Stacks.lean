import SBoy28.Scheduler.Lifecycle

/-!
# The first frame of a thread and the block of its stack

`prepare_stack` builds the first frame downwards from the end of the stack and does not look where
the stack begins. Right below the stack is the header of its block.
-/

namespace SBoy28.Scheduler
open Lib
open Kheap (Heap HeapInvariant kmalloc blockSize blockHeader alignSize)

variable {S S' : System} {bs : List Blk} {fn arg stackSize : UInt32}

/-- When `thread_create` finds memory, the frame of the new thread lies in the block of its stack,
and the heap is well formed afterwards. -/
def System.StackInBlock (S : System) (fn arg stackSize : UInt32) : Prop :=
  ∀ t h₁ stack h₂, kmalloc S.heap sizeofThread = some (t, h₁) → t ≠ 0 →
    kmalloc h₁ (actualStackSize stackSize) = some (stack, h₂) → stack ≠ 0 →
      (∀ w ∈ stackWords stack (actualStackSize stackSize) fn arg S.trampoline, stack.toNat ≤ w.1.toNat ∧
        w.1.toNat + 4 ≤ stack.toNat + (blockSize h₂.mem (stack - blockHeader)).toNat) ∧
      ∀ S', S.create fn arg stackSize = some S' → ∃ bs, HeapInvariant S'.heap S'.live bs

lemma serves_kmalloc (hi : HeapInvariant S.heap S.live bs) (hs : S.Serves (.create fn arg stackSize)) :
    ∃ t h₁ stack h₂ bs', kmalloc S.heap sizeofThread = some (t, h₁) ∧ t ≠ 0 ∧
      kmalloc h₁ (actualStackSize stackSize) = some (stack, h₂) ∧ stack ≠ 0 ∧
      HeapInvariant h₂ (insert stack (insert t S.live)) bs' ∧
      ∃ b ∈ bs', b.free = false ∧ b.payload 16 = stack.toNat ∧
        (alignSize (actualStackSize stackSize)).toNat ≤ b.size := by
  obtain ⟨bs₀, t₀, bs₁', hi₀, hc₀, hroom⟩ := hs
  rw [hi₀.unique hi] at hc₀
  rcases hi.kmalloc_used (show sizeofThread ≠ 0 by decide) with
    ⟨hno, -⟩ | ⟨t, h₁, bs₁, -, hcarve, ht0, -, hk₁, hi₁, -, -⟩
  · rw [Kheap.carve_none_iff.mpr hno] at hc₀
    cases hc₀
  · obtain rfl : bs₁' = bs₁ := (Prod.mk.inj (Option.some.inj (hc₀.symm.trans hcarve))).2
    rcases hi₁.kmalloc_used (actualStackSize_ne_zero stackSize) with
      ⟨hno, -⟩ | ⟨k, h₂, bs₂, -, -, hk0, -, hk₂, hi₂, -, hblock⟩
    · exact absurd hroom hno
    · exact ⟨t, h₁, k, h₂, bs₂, hk₁, ht0, hk₂, hk0, hi₂, hblock⟩

/-- If both calls of `kmalloc` find memory, then there was room. -/
lemma serves_of_kmalloc (fn arg : UInt32) (hi : HeapInvariant S.heap S.live bs) {t stack : UInt32} {h₁ h₂ : Heap}
    (hk₁ : kmalloc S.heap sizeofThread = some (t, h₁)) (ht : t ≠ 0)
    (hk₂ : kmalloc h₁ (actualStackSize stackSize) = some (stack, h₂)) (hstack : stack ≠ 0) :
    S.Serves (.create fn arg stackSize) := by
  rcases hi.kmalloc_used (show sizeofThread ≠ 0 by decide) with
    ⟨-, hk⟩ | ⟨t', h₁', bs₁, -, hcarve, -, -, hk, hi₁, -, -⟩
  · exact absurd (Prod.mk.inj (Option.some.inj (hk₁.symm.trans hk))).1 ht
  · obtain rfl : h₁ = h₁' := (Prod.mk.inj (Option.some.inj (hk₁.symm.trans hk))).2
    rcases hi₁.kmalloc_used (actualStackSize_ne_zero stackSize) with
      ⟨-, hk⟩ | ⟨k, h₂', bs₂, hroom, -⟩
    · exact absurd (Prod.mk.inj (Option.some.inj (hk₂.symm.trans hk))).1 hstack
    · exact ⟨bs, _, bs₁, hi, hcarve, hroom⟩

lemma create_served {t stack : UInt32} {h₁ h₂ : Heap} (hk₁ : kmalloc S.heap sizeofThread = some (t, h₁))
    (ht : t ≠ 0) (hk₂ : kmalloc h₁ (actualStackSize stackSize) = some (stack, h₂)) (hstack : stack ≠ 0)
    (hs : S.create fn arg stackSize = some S') :
    S'.heap = { h₂ with mem := prepareStack h₂.mem stack (actualStackSize stackSize) fn arg S.trampoline } ∧
      S'.live = insert stack (insert t S.live) := by
  simp only [System.create, hk₁, Option.bind_some, ht, ite_false, hk₂, hstack, Option.map_eq_some_iff] at hs
  obtain ⟨M, -, rfl⟩ := hs
  exact ⟨rfl, rfl⟩

/-- A frame on a stack of at least 48 bytes, whose rounding does not wrap around, lies in its block. -/
lemma stackWords_in_block {h : Heap} {live : Finset UInt32} {stack size : UInt32} {trampoline : UInt32}
    (hi : HeapInvariant h live bs) (hlive : stack ∈ live)
    (hblock : ∃ b ∈ bs, b.free = false ∧ b.payload 16 = stack.toNat ∧ (alignSize size).toNat ≤ b.size)
    (hlo : 48 ≤ size.toNat) (hhi : size.toNat ≤ 2 ^ 32 - 4) {w : UInt32 × UInt32}
    (hw : w ∈ stackWords stack size fn arg trampoline) :
    stack.toNat ≤ w.1.toNat ∧ w.1.toNat + 4 ≤ stack.toNat + (blockSize h.mem (stack - blockHeader)).toNat := by
  obtain ⟨b, hb, -, hpay, hroom⟩ := hblock
  obtain ⟨c, hc, -, hstack, hsize⟩ := hi.live_block hlive
  have hend := Kheap.heapEnd_lt
  have hbnd := hi.tiles.bounds hb
  have hcb : c.size = b.size := by
    simp only [Blk.payload] at hpay
    rcases hi.tiles.separated hb hc with rfl | hsep | hsep
    · rfl
    · omega
    · omega
  have hle : size.toNat ≤ b.size := by
    rw [Kheap.alignSize_toNat hhi, Kheap.roundUp] at hroom
    omega
  simp only [Blk.payload] at hpay
  have hin := stackWords_inside hlo (by omega) hw
  rw [hsize, hcb]
  omega

lemma stackWords_below (fn arg trampoline : UInt32) {h : Heap} {live : Finset UInt32} {stack size : UInt32}
    (hi : HeapInvariant h live bs) (hlive : stack ∈ live) (hsize : size.toNat < 48 ∨ 2 ^ 32 - 4 < size.toNat) :
    ∃ w ∈ stackWords stack size fn arg trampoline, w.1.toNat < stack.toNat := by
  obtain ⟨c, hc, -, hstack, -⟩ := hi.live_block hlive
  have hbnd := hi.tiles.bounds hc
  have hstart : Kheap.heapStart = 0xD0000000 := rfl
  have hlast : Kheap.heapEnd = 0xD0400000 := rfl
  have h4 : (4 : UInt32).toNat = 4 := rfl
  have h48 : (48 : UInt32).toNat = 48 := rfl
  have hlt := size.toNat_lt
  rcases hsize with hsmall | hlarge
  · refine ⟨(stack + size - 48 + 4 * UInt32.ofNat 0, 0), mem_stackWords.mpr ?_, ?_⟩
    · exact Or.inr (Or.inr (Or.inr (Or.inr ⟨0, by decide, rfl⟩)))
    · have hsp : (stack + size).toNat = stack.toNat + size.toNat := toNat_add_of_lt (by omega)
      have h0 : stack + size - 48 + 4 * UInt32.ofNat 0 = stack + size - 48 := by simp
      rw [h0, toNat_sub_of_le (by omega)]
      omega
  · refine ⟨(stack + size - 4, arg), mem_stackWords.mpr (Or.inl rfl), ?_⟩
    have hsp : (stack + size).toNat = stack.toNat + size.toNat - 2 ^ 32 := by
      rw [UInt32.toNat_add]
      omega
    rw [toNat_sub_of_le (by omega)]
    omega

lemma not_stackInBlock (hi : HeapInvariant S.heap S.live bs) (hserves : S.Serves (.create fn arg stackSize))
    (hsize : (actualStackSize stackSize).toNat < 48 ∨ 2 ^ 32 - 4 < (actualStackSize stackSize).toNat) :
    ¬S.StackInBlock fn arg stackSize := by
  intro hin
  obtain ⟨t, h₁, stack, h₂, bs', hk₁, ht, hk₂, hstack, hi₂, -⟩ := serves_kmalloc hi hserves
  obtain ⟨w, hw, hlt⟩ := stackWords_below fn arg S.trampoline hi₂
    (Finset.mem_insert_self stack _) hsize
  have hle := ((hin t h₁ stack h₂ hk₁ ht hk₂ hstack).1 w hw).1
  omega

/-- Over a well-formed heap, the first frame of every thread stays in the block of the stack just if
a stack for which there is room has a size from 48 to `2 ^ 32 - 4` bytes. -/
theorem stack_in_block_iff (hi : HeapInvariant S.heap S.live bs) (fn arg stackSize : UInt32) :
    S.StackInBlock fn arg stackSize ↔ S.StackFits (.create fn arg stackSize) := by
  constructor
  · intro hin hserves
    by_contra hsize
    exact not_stackInBlock hi hserves (by omega) hin
  · intro hfits t h₁ stack h₂ hk₁ ht hk₂ hstack
    have hserves := serves_of_kmalloc fn arg hi hk₁ ht hk₂ hstack
    obtain ⟨hlo, hhi⟩ := hfits hserves
    obtain ⟨t', h₁', stack', h₂', bs', hk₁', -, hk₂', -, hi₂, hblock⟩ := serves_kmalloc hi hserves
    rw [hk₁, Option.some.injEq, Prod.mk.injEq] at hk₁'
    obtain ⟨rfl, rfl⟩ := hk₁'
    rw [hk₂, Option.some.injEq, Prod.mk.injEq] at hk₂'
    obtain ⟨rfl, rfl⟩ := hk₂'
    refine ⟨fun w hw => stackWords_in_block hi₂ (Finset.mem_insert_self stack _) hblock hlo hhi hw, ?_⟩
    intro S' hs
    obtain ⟨hheap, hlive⟩ := create_served hk₁ ht hk₂ hstack hs
    rw [hheap, hlive]
    exact ⟨bs', prepareStack_invariant hi₂ fn arg S.trampoline hblock hlo hhi⟩

lemma freshSystem_invariant : HeapInvariant freshSystem.heap freshSystem.live [Kheap.initialBlock] :=
  Kheap.kheapInit_invariant fun _ => 0

theorem stack_in_block_iff_default : freshSystem.StackInBlock 0x200000 0 0 :=
  (stack_in_block_iff freshSystem_invariant 0x200000 0 0).mpr (fun _ => by decide)

/-- A stack of 44 bytes in a fresh heap: the frame begins in the header of its own block, over the magic. -/
theorem stack_in_block_small : HeapInvariant freshSystem.heap freshSystem.live [Kheap.initialBlock] ∧
    ¬freshSystem.StackInBlock 0x200000 0 44 := by
  have hserves : freshSystem.Serves (.create 0x200000 0 44) := by
    refine ⟨_, _, _, freshSystem_invariant, rfl, ?_⟩
    exact ⟨_, List.mem_cons_of_mem _ List.mem_cons_self, rfl, by decide⟩
  exact ⟨freshSystem_invariant, not_stackInBlock freshSystem_invariant hserves (Or.inl (by decide))⟩

end SBoy28.Scheduler
