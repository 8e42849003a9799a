import SBoy28.Lib.Memory
import SBoy28.Lib.Loop
import Mathlib.Data.Finset.Insert

/-!
# The kernel heap

The block headers of `kheap.c` live in byte memory: `next` at offset 0, `size` at 4,
`is_free` (one byte) at 8 and `magic` at 12. Pointers and `size_t` are 32 bits wide and
`0` is the null pointer.
-/

namespace SBoy28.Kheap
open Lib

def kheapMagic : UInt32 := 0xC001C0DE
def kheapInitialPages : UInt32 := 1024
def pageSize : UInt32 := 4096
def heapVirtualAddress : UInt32 := 0xD0000000

/-- `sizeof(kheap_block_t)`. -/
def blockHeader : UInt32 := 16

def blockNext (m : Memory) (p : UInt32) : UInt32 := load32 m p.toNat
def blockSize (m : Memory) (p : UInt32) : UInt32 := load32 m (p.toNat + 4)
def blockIsFree (m : Memory) (p : UInt32) : Bool := m (p.toNat + 8) != 0
def blockMagic (m : Memory) (p : UInt32) : UInt32 := load32 m (p.toNat + 12)

def setNext (m : Memory) (p v : UInt32) : Memory := store32 m p.toNat v
def setSize (m : Memory) (p v : UInt32) : Memory := store32 m (p.toNat + 4) v
def setIsFree (m : Memory) (p : UInt32) (b : Bool) : Memory :=
  store8 m (p.toNat + 8) (if b then 1 else 0)
def setMagic (m : Memory) (p v : UInt32) : Memory := store32 m (p.toNat + 12) v

/-- The memory and the static `heap_head`. -/
structure Heap where
  mem : Memory
  heapHead : UInt32

/-- `kheap_init` after the heap pages were mapped, whatever their contents. -/
def kheapInit (m : Memory) : Heap :=
  let m := setSize m heapVirtualAddress (kheapInitialPages * pageSize - blockHeader)
  let m := setIsFree m heapVirtualAddress true
  let m := setNext m heapVirtualAddress 0
  ⟨setMagic m heapVirtualAddress kheapMagic, heapVirtualAddress⟩

/-- A walk along `next` that takes more steps than there are addresses never ends. -/
def walkFuel : ℕ := 2 ^ 32

/-- The split of `curr` in `kmalloc`: a new free block behind `size` bytes of payload. -/
def splitBlock (m : Memory) (curr size : UInt32) : Memory :=
  let newBlock := curr + blockHeader + size
  let m := setIsFree m newBlock true
  let m := setSize m newBlock (blockSize m curr - size - blockHeader)
  let m := setNext m newBlock (blockNext m curr)
  let m := setMagic m newBlock kheapMagic
  let m := setSize m curr size
  setNext m curr newBlock

/-- One iteration of the search loop of `kmalloc`. -/
def kmallocStep (m : Memory) (size curr : UInt32) : UInt32 ⊕ (UInt32 × Memory) :=
  if curr = 0 then .inr (0, m)
  else if blockIsFree m curr ∧ size ≤ blockSize m curr then
    let m := if size + blockHeader + 4 ≤ blockSize m curr then splitBlock m curr size else m
    .inr (curr + blockHeader, setIsFree m curr false)
  else .inl (blockNext m curr)

/-- `size` rounded up to a multiple of 4, in 32 bits. -/
def alignSize (size : UInt32) : UInt32 :=
  if size % 4 ≠ 0 then size + (4 - size % 4) else size

/-- `kmalloc`: the returned pointer and the new heap, or `none` if the search never ends. -/
def kmalloc (h : Heap) (size : UInt32) : Option (UInt32 × Heap) :=
  if size = 0 then some (0, h)
  else
    (loop (kmallocStep h.mem (alignSize size)) walkFuel h.heapHead).map
      (fun r => (r.1, { h with mem := r.2 }))

/-- The merge with the next block in `kfree`. -/
def mergeWithNext (m : Memory) (block : UInt32) : Memory :=
  if blockNext m block ≠ 0 ∧ blockIsFree m (blockNext m block) then
    let m := setSize m block (blockSize m block + (blockHeader + blockSize m (blockNext m block)))
    setNext m block (blockNext m (blockNext m block))
  else m

/-- One iteration of the search for the previous block in `kfree`. -/
def prevStep (m : Memory) (block curr : UInt32) : UInt32 ⊕ UInt32 :=
  if curr ≠ 0 ∧ blockNext m curr ≠ block then .inl (blockNext m curr) else .inr curr

/-- The merge with the previous block in `kfree`, if `curr` is one and is free. -/
def mergeWithPrev (m : Memory) (block curr : UInt32) : Memory :=
  if curr ≠ 0 ∧ blockIsFree m curr then
    let m := setSize m curr (blockSize m curr + (blockHeader + blockSize m block))
    setNext m curr (blockNext m block)
  else m

/-- `kfree`, or `none` if the search for the previous block never ends. -/
def kfree (h : Heap) (p : UInt32) : Option Heap :=
  if p = 0 then some h
  else
    let block := p - blockHeader
    if blockMagic h.mem block = kheapMagic then
      let m := mergeWithNext (setIsFree h.mem block true) block
      (loop (prevStep m block) walkFuel h.heapHead).map
        (fun curr => { h with mem := mergeWithPrev m block curr })
    else some h

/-- The heaps reached from `kheap_init`, with the pointers that are live. Between the calls
the owner of a live pointer may store into its payload. -/
inductive HeapRun : Heap → Finset UInt32 → Prop
  | init (m : Memory) : HeapRun (kheapInit m) ∅
  | malloc {h h' : Heap} {live : Finset UInt32} (n p : UInt32) (hr : HeapRun h live)
      (hc : kmalloc h n = some (p, h')) : HeapRun h' (if p = 0 then live else insert p live)
  | freeNull {h h' : Heap} {live : Finset UInt32} (hr : HeapRun h live)
      (hc : kfree h 0 = some h') : HeapRun h' live
  | free {h h' : Heap} {live : Finset UInt32} (p : UInt32) (hr : HeapRun h live)
      (hp : p ∈ live) (hc : kfree h p = some h') : HeapRun h' (live.erase p)
  | store {h : Heap} {live : Finset UInt32} (p : UInt32) (a : ℕ) (b : UInt8)
      (hr : HeapRun h live) (hp : p ∈ live) (hlo : p.toNat ≤ a)
      (hhi : a < p.toNat + (blockSize h.mem (p - blockHeader)).toNat) :
      HeapRun { h with mem := store8 h.mem a b } live

end SBoy28.Kheap
