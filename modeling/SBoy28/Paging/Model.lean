import SBoy28.Lib.Bitmap

/-!
# Physical frames and page tables

`pmm.c` keeps a bitmap of 4096-byte blocks behind the kernel, and `vmm.c` maps pages to blocks
through a page directory and page tables that are blocks themselves. Physical memory below the
end of the blocks is mapped to itself, so the code reads and writes tables at their physical
addresses.
-/

namespace SBoy28.Paging
open Lib

section Pmm

structure Pmm where
  bitmap : Bitmap
  totalBlocks : UInt32
  usedBlocks : UInt32

def pmmBlockSize : UInt32 := 4096

def pmmBitmapSet (p : Pmm) (bit : UInt32) : Pmm := { p with bitmap := p.bitmap.set bit }

def pmmBitmapUnset (p : Pmm) (bit : UInt32) : Pmm := { p with bitmap := p.bitmap.unset bit }

def pmmBitmapTest (p : Pmm) (bit : UInt32) : Bool := p.bitmap.test bit

/-- The size of the bitmap in double words, computed in `pmm_init` and in `pmm_alloc_block`. -/
def bitmapSizeDwords (totalBlocks : UInt32) : UInt32 :=
  if totalBlocks % 32 ≠ 0 then totalBlocks / 32 + 1 else totalBlocks / 32

/-- The body of the loop that frees the blocks from 1 MB on. -/
def freeBlock (p : Pmm) (i : ℕ) : Pmm :=
  { pmmBitmapUnset p (UInt32.ofNat i) with usedBlocks := p.usedBlocks - 1 }

/-- The body of the loop that reserves the blocks of the kernel and the bitmap. -/
def reserveBlock (p : Pmm) (i : ℕ) : Pmm :=
  if !pmmBitmapTest p (UInt32.ofNat i) then
    { pmmBitmapSet p (UInt32.ofNat i) with usedBlocks := p.usedBlocks + 1 }
  else p

/-- `pmm_init`; `ebss` is the address of the end of the kernel, and `p` what was in memory. -/
def pmmInit (ebss : UInt32) (p : Pmm) : Pmm :=
  let memSize : UInt32 := 32 * 1024 * 1024
  let totalBlocks := memSize / pmmBlockSize
  let dwords := bitmapSizeDwords totalBlocks
  let marked := (List.range dwords.toNat).foldl (fun m i => Function.update m i 0xFFFFFFFF) p.bitmap
  let p : Pmm := ⟨marked, totalBlocks, totalBlocks⟩
  let startBlockToFree : UInt32 := (1024 * 1024) / pmmBlockSize
  let p := (List.range' startBlockToFree.toNat (totalBlocks.toNat - startBlockToFree.toNat)).foldl
    freeBlock p
  let bitmapEnd := ebss + dwords * 4
  let reserveEndBlock := (bitmapEnd + pmmBlockSize - 1) / pmmBlockSize
  (List.range reserveEndBlock.toNat).foldl reserveBlock p

/-- `pmm_alloc_block`; the null pointer is 0. -/
def pmmAllocBlock (p : Pmm) : UInt32 × Pmm :=
  match p.bitmap.scan (bitmapSizeDwords p.totalBlocks).toNat p.totalBlocks.toNat with
  | some bit =>
    (UInt32.ofNat bit * pmmBlockSize,
      { pmmBitmapSet p (UInt32.ofNat bit) with usedBlocks := p.usedBlocks + 1 })
  | none => (0, p)

def pmmFreeBlock (p : Pmm) (addr : UInt32) : Pmm :=
  let block := addr / pmmBlockSize
  if block < p.totalBlocks then
    if pmmBitmapTest p block then
      { pmmBitmapUnset p block with usedBlocks := p.usedBlocks - 1 }
    else p
  else p

def pmmGetFreeBlockCount (p : Pmm) : UInt32 := p.totalBlocks - p.usedBlocks

def pmmGetTotalBlockCount (p : Pmm) : UInt32 := p.totalBlocks

end Pmm

section Vmm

def pagePresent : UInt32 := 0x01
def pageRw : UInt32 := 0x02
def pageUser : UInt32 := 0x04

/-- Physical memory by words, the statics of both files, and whether `pmm_alloc_block` has
returned the null pointer so far. The bitmap is kept apart from `word`: it stands behind the kernel
in reserved blocks, and no table does, not even one at the null pointer. -/
structure Vmm where
  pmm : Pmm
  word : ℕ → UInt32
  pageDirectory : UInt32
  exhausted : Bool

/-- `table[i]`. -/
def Vmm.entry (s : Vmm) (table : UInt32) (i : ℕ) : UInt32 := s.word (table.toNat / 4 + i)

/-- `table[i] = value`. -/
def Vmm.setEntry (s : Vmm) (table : UInt32) (i : ℕ) (value : UInt32) : Vmm :=
  { s with word := Function.update s.word (table.toNat / 4 + i) value }

/-- The loop that fills a table. -/
def Vmm.fill (s : Vmm) (table : UInt32) (value : ℕ → UInt32) : Vmm :=
  (List.range 1024).foldl (fun s i => s.setEntry table i (value i)) s

/-- A call of `pmm_alloc_block`. -/
def Vmm.allocBlock (s : Vmm) : UInt32 × Vmm :=
  let r := pmmAllocBlock s.pmm
  (r.1, { s with pmm := r.2, exhausted := s.exhausted || r.1 == 0 })

/-- One page table of the identity mapping in `vmm_init`. -/
def identityTable (totalBlocks : UInt32) (s : Vmm) (pt : ℕ) : Vmm :=
  let r := s.allocBlock
  let pageTable := r.1
  let s := r.2.fill pageTable fun i =>
    let physAddr := UInt32.ofNat (pt * 1024 + i) * 0x1000
    if physAddr < totalBlocks * 0x1000 then physAddr ||| pagePresent ||| pageRw else 0
  s.setEntry s.pageDirectory pt (pageTable ||| pagePresent ||| pageRw)

def vmmInit (s : Vmm) : Vmm :=
  let r := s.allocBlock
  let s := { r.2 with pageDirectory := r.1 }
  let s := s.fill s.pageDirectory fun _ => pageRw
  let totalBlocks := pmmGetTotalBlockCount s.pmm
  let requiredPageTables := (totalBlocks + 1023) / 1024
  (List.range requiredPageTables.toNat).foldl (identityTable totalBlocks) s

def pdIndex (virtualAddr : UInt32) : ℕ := (virtualAddr >>> 22).toNat

def ptIndex (virtualAddr : UInt32) : ℕ := ((virtualAddr >>> 12) &&& 0x03FF).toNat

/-- The page table of an address in `vmm_map_page`, created if there is none. -/
def pageTableFor (s : Vmm) (pdindex : ℕ) (flags : UInt32) : UInt32 × Vmm :=
  if s.entry s.pageDirectory pdindex &&& pagePresent ≠ 0 then
    (s.entry s.pageDirectory pdindex &&& ~~~0xFFF, s)
  else
    let r := s.allocBlock
    let s := r.2.fill r.1 fun _ => 0
    (r.1, s.setEntry s.pageDirectory pdindex (r.1 ||| pagePresent ||| pageRw ||| (flags &&& pageUser)))

def vmmMapPage (s : Vmm) (virtualAddr physicalAddr flags : UInt32) : Vmm :=
  let r := pageTableFor s (pdIndex virtualAddr) flags
  r.2.setEntry r.1 (ptIndex virtualAddr)
    ((physicalAddr &&& ~~~0xFFF) ||| (flags &&& 0xFFF) ||| pagePresent)

def vmmAllocPage (s : Vmm) (virtualAddr flags : UInt32) : Vmm :=
  let r := s.allocBlock
  if r.1 ≠ 0 then vmmMapPage r.2 virtualAddr r.1 flags else r.2

def vmmFreePage (s : Vmm) (virtualAddr : UInt32) : Vmm :=
  let pde := s.entry s.pageDirectory (pdIndex virtualAddr)
  if pde &&& pagePresent ≠ 0 then
    let pageTable := pde &&& ~~~0xFFF
    let pte := s.entry pageTable (ptIndex virtualAddr)
    if pte &&& pagePresent ≠ 0 then
      let s := { s with pmm := pmmFreeBlock s.pmm (pte &&& ~~~0xFFF) }
      s.setEntry pageTable (ptIndex virtualAddr) 0
    else s
  else s

/-- The physical address that the processor finds for a virtual one. -/
def walk (s : Vmm) (virtualAddr : UInt32) : Option UInt32 :=
  let pde := s.entry s.pageDirectory (pdIndex virtualAddr)
  if pde &&& pagePresent ≠ 0 then
    let pte := s.entry (pde &&& ~~~0xFFF) (ptIndex virtualAddr)
    if pte &&& pagePresent ≠ 0 then some ((pte &&& ~~~0xFFF) ||| (virtualAddr &&& 0xFFF)) else none
  else none

end Vmm

end SBoy28.Paging
