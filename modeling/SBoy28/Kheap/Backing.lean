import SBoy28.Kheap.Objects
import SBoy28.Paging.Cells
import SBoy28.Lib.Translation

/-!
# The heap behind the page tables

`kheap_init` maps the pages of the heap. From then on every store of the heap code and of its clients goes through the
page tables, which stand in the same memory, while `vmm.c` goes on to map and unmap other pages.
-/

namespace SBoy28.Kheap
open Lib Paging

section Model

def putByte (s : Vmm) (a : ℕ) (b : UInt8) : Vmm :=
  { s with word := Function.update s.word (a / 4) (load32 (Function.update (physicalByte s) a b) (a / 4 * 4)) }

lemma physicalByte_putByte (s : Vmm) (a : ℕ) (b : UInt8) :
    physicalByte (putByte s a b) = Function.update (physicalByte s) a b := by
  funext i
  have hlt : i % 4 < 4 := Nat.mod_lt _ (by decide)
  unfold physicalByte putByte
  by_cases hi : i / 4 = a / 4
  · have hdiv := Nat.div_add_mod i 4
    simp only [hi, Function.update_self]
    rw [byteOf_load32 _ _ hlt]
    change Function.update (physicalByte s) a b _ = Function.update (physicalByte s) a b i
    apply congrArg
    omega
  · have hne : i ≠ a := fun h => hi (by rw [h])
    simp only [Function.update_of_ne hi]
    exact (Function.update_of_ne hne b (physicalByte s)).symm

/-- Physical memory as the processor reaches it through the page tables. -/
def mmu : Mmu Vmm ℕ ℕ UInt8 where
  byte := physicalByte
  put := putByte
  walk s v := (walk s (UInt32.ofNat v)).map UInt32.toNat
  byte_put := physicalByte_putByte

/-- What the kernel reads. -/
def virtualMemory (s : Vmm) : Memory := fun v => (mmu.load s v).getD 0

/-- The body of the loop of `kheap_init`. -/
def mapHeapPage (s : Vmm) (i : ℕ) : Vmm := vmmAllocPage s (heapVirtualAddress + UInt32.ofNat i * pageSize) pageRw

def mapHeapPages (s : Vmm) : Vmm := (List.range kheapInitialPages.toNat).foldl mapHeapPage s

/-- The addresses of the heap. -/
def heapRange : Set ℕ := {v | heapStart ≤ v ∧ v < heapEnd}

/-- The stores that the code makes to turn what it sees into `mem'`, one after the other. -/
def Executes (s : Vmm) (mem' : Memory) (s' : Vmm) : Prop :=
  ∃ l : List (ℕ × UInt8), (∀ w ∈ l, w.1 ∈ heapRange) ∧ stored (virtualMemory s) l = mem' ∧ mmu.stores s l = some s'

structure Machine where
  vmm : Vmm
  heapHead : UInt32
  objects : Objects

def Machine.heap (m : Machine) : Heap := ⟨virtualMemory m.vmm, m.heapHead⟩

/-- `kheap_init`. -/
def Starts (s : Vmm) (m : Machine) : Prop :=
  Executes (mapHeapPages s) (kheapInit (virtualMemory (mapHeapPages s))).mem m.vmm ∧
    m.heapHead = heapVirtualAddress ∧ m.objects = fun _ => none

/-- Calls of the heap, stores into objects, and calls that map and unmap pages elsewhere. -/
inductive Machine.Step (m : Machine) : Machine → Prop where
  | heap {e : HeapEvent} {h' : Heap} {s' : Vmm} (he : HeapStep m.objects m.heap e h')
      (hs : Executes m.vmm h'.mem s') : Machine.Step m ⟨s', h'.heapHead, m.objects.step e⟩
  | page (c : PageCall) (hv : m.vmm.pmm.totalBlocks.toNat * 4096 ≤ c.addr.toNat) (hout : c.addr.toNat ∉ heapRange)
      (halive : (c.perform m.vmm).exhausted = false) : Machine.Step m { m with vmm := c.perform m.vmm }

/-- The heap serves its clients, none of its addresses has moved since the pages were mapped to frames, and the frames
of the kernel hold what they held, but for the bitmap of the frame allocator, which is kept apart. -/
structure Works (ebss : UInt32) (s : Vmm) (m : Machine) : Prop where
  holds : Holds m.heap m.objects
  malloc : ∀ n, ∃ p h', kmalloc m.heap n = some (p, h') ∧ (p = 0 ∨ m.objects p = none)
  free : ∀ p, p = 0 ∨ (m.objects p).isSome → (kfree m.heap p).isSome
  executes : ∀ e h', HeapStep m.objects m.heap e h' → ∃ s', Executes m.vmm h'.mem s'
  mapped : ∀ v ∈ heapRange, ∃ a, mmu.walk m.vmm v = some a ∧ mmu.walk (mapHeapPages s) v = some a ∧
    ¬Reserved ebss (a / 4096)
  kernel : ∀ a, Reserved ebss (a / 4096) → physicalByte m.vmm a = physicalByte s a

end Model

variable {ebss : UInt32} {s s' : Vmm} {d i j k : ℕ} {F : ℕ → ℕ}

section Backed

/-- The tables are in order, and page `j` of the heap stands in the block `F j`. -/
structure Backed (ebss : UInt32) (d : ℕ) (F : ℕ → ℕ) (s : Vmm) : Prop where
  pages : PagesOk ebss s d
  frame : ∀ j < 1024, frameOf s (.page 832 j) = some (F j)

lemma heapPage_outside (hj : j < 1024) : User.page 832 j ∈ outside 8192 := ⟨by decide, hj, by omega⟩

lemma heapAddress_toNat {v : ℕ} (hv : v ∈ heapRange) : (UInt32.ofNat v).toNat = v := by
  have hend := heapEnd_lt
  have hlt := hv.2
  exact toNat_ofNat_of_lt (by omega)

lemma pageOf_heap {v : ℕ} (hv : v ∈ heapRange) : pageOf (UInt32.ofNat v) = .page 832 (v / 4096 % 1024) := by
  have hrange : 3489660928 ≤ v ∧ v < 3493855232 := hv
  rw [pageOf, pdIndex_eq, ptIndex_eq, heapAddress_toNat hv]
  have hdiv : v / 4194304 = 832 := by omega
  rw [hdiv]

lemma Backed.frame_lt (h : Backed ebss d F s) (hj : j < 1024) :
    F j < 8192 ∧ ¬Reserved ebss (F j) ∧ F j ∈ usedBlocks ebss s.pmm ∧ Untabled s d (F j) := by
  have hmem := h.pages.mapped.owns.taken _ (heapPage_outside hj) _ (h.frame j hj)
  exact ⟨hmem.1, hmem.2.1, hmem,
    h.pages.untabled (heapPage_outside hj) (h.frame j hj) ⟨fun he => (by cases he), fun i he => by cases he⟩⟩

lemma Backed.walk (h : Backed ebss d F s) {v : ℕ} (hv : v ∈ heapRange) :
    mmu.walk s v = some (F (v / 4096 % 1024) * 4096 + v % 4096) := by
  have hj : v / 4096 % 1024 < 1024 := Nat.mod_lt _ (by decide)
  have hlt := (h.frame_lt hj).1
  have hframe := h.frame _ hj
  rw [← pageOf_heap hv] at hframe
  have hwalk : Paging.walk s (UInt32.ofNat v) =
      some (UInt32.ofNat (F (v / 4096 % 1024) * 4096 + (UInt32.ofNat v).toNat % 4096)) := by
    rw [walk_page rfl, hframe, Option.map_some]
  change (Paging.walk s (UInt32.ofNat v)).map UInt32.toNat = _
  rw [hwalk, Option.map_some, heapAddress_toNat hv, toNat_ofNat_of_lt (by omega)]

/-- The places of the heap are in its own blocks. -/
lemma Backed.place (h : Backed ebss d F s) {v a : ℕ} (hv : v ∈ heapRange) (ha : mmu.walk s v = some a) :
    ∃ j < 1024, a / 4096 = F j ∧ a = F j * 4096 + v % 4096 ∧ j = v / 4096 % 1024 := by
  have hj : v / 4096 % 1024 < 1024 := Nat.mod_lt _ (by decide)
  rw [h.walk hv] at ha
  obtain rfl := Option.some.inj ha
  exact ⟨_, hj, by omega, rfl, rfl⟩

lemma Backed.cells (h : Backed ebss d F s) (hpmm : s'.pmm = s.pmm) (hdir : s'.pageDirectory = s.pageDirectory)
    (hj : j < 1024) (hcell : ∀ b k, k < 1024 → b ≠ F j → s'.cell b k = s.cell b k) :
    Backed ebss d F s' ∧ mmu.walk s' = mmu.walk s := by
  obtain ⟨-, -, -, hn⟩ := h.frame_lt hj
  have hsame : ∀ u ∈ outside 0, frameOf s' u = frameOf s u := fun u hu =>
    frameOf_congr h.pages.mapped.dir hdir hn hcell hu
  refine ⟨⟨⟨hpmm ▸ h.pages.pmm, ⟨by rw [hdir]; exact h.pages.mapped.dir, ?_, ?_⟩⟩, ?_⟩, ?_⟩
  · rw [hpmm]
    exact h.pages.mapped.owns.congr fun u hu => hsame u (outside_zero hu)
  · intro i hi l hl
    rw [hsame (.page i l) ⟨by omega, hl, Nat.zero_le _⟩]
    exact h.pages.mapped.identity i hi l hl
  · intro l hl
    rw [hsame (.page 832 l) ⟨by decide, hl, Nat.zero_le _⟩]
    exact h.frame l hl
  · funext v
    change (Paging.walk s' _).map _ = (Paging.walk s _).map _
    rw [walk_eq, walk_eq, hsame (.page _ _) ⟨pdIndex_lt _, ptIndex_lt _, Nat.zero_le _⟩]

/-- No page table stands in a page of the heap. -/
lemma isolates : mmu.Isolates heapRange (Backed ebss d F) where
  mapped h hv := ⟨_, h.walk hv⟩
  injective {s v w} h hv hw heq := by
    obtain ⟨j, hj, -, hjv, hdiv⟩ := h.place hv (h.walk hv)
    obtain ⟨l, hl, -, hlw, hdiv'⟩ := h.place hw (h.walk hw)
    have hplace : F j * 4096 + v % 4096 = F l * 4096 + w % 4096 := by
      rw [h.walk hv, h.walk hw, hjv, hlw] at heq
      exact Option.some.inj heq
    have hframe : F j = F l := by omega
    have hpage := h.pages.mapped.owns.distinct _ (heapPage_outside hj) _ (heapPage_outside hl) _ (h.frame j hj)
      (hframe ▸ h.frame l hl)
    have hjl : j = l := (User.page.inj hpage).2
    have hrange : 3489660928 ≤ v ∧ v < 3493855232 := hv
    have hrange' : 3489660928 ≤ w ∧ w < 3493855232 := hw
    omega
  put {s v a} b h hv ha := by
    obtain ⟨j, hj, hblock, -⟩ := h.place hv ha
    have hcell : ∀ c k, k < 1024 → c ≠ F j → (putByte s a b).cell c k = s.cell c k := by
      intro c k hk hne
      have hword : c * 1024 + k ≠ a / 4 := by omega
      exact Function.update_of_ne hword _ s.word
    exact h.cells rfl rfl hj hcell

/-- Calls for other pages. -/
lemma Backed.page (h : Backed ebss d F s) (c : PageCall) (hv : 8192 * 4096 ≤ c.addr.toNat)
    (hout : c.addr.toNat ∉ heapRange) (halive : (c.perform s).exhausted = false) :
    Backed ebss d F (c.perform s) ∧ ∀ a, Reserved ebss (a / 4096) ∨ (∃ j < 1024, a / 4096 = F j) →
      physicalByte (c.perform s) a = physicalByte s a := by
  have hregion : ∀ j, .page 832 j ≠ pageOf c.addr := by
    intro j heq
    have hpd := (User.page.inj heq).1
    rw [pdIndex_eq] at hpd
    apply hout
    change 3489660928 ≤ c.addr.toNat ∧ c.addr.toNat < 3493855232
    omega
  have hblock : ∀ a, Reserved ebss (a / 4096) ∨ (∃ j < 1024, a / 4096 = F j) →
      Untabled s d (a / 4096) ∧ (Reserved ebss (a / 4096) ∨ a / 4096 ∈ usedBlocks ebss s.pmm) := by
    rintro a (hres | ⟨j, hj, heq⟩)
    · exact ⟨h.pages.reserved_untabled hres, Or.inl hres⟩
    · obtain ⟨-, -, hused, hn⟩ := h.frame_lt hj
      exact ⟨heq ▸ hn, Or.inr (heq ▸ hused)⟩
  have hk : ∀ a, a / 4 % 1024 < 1024 := fun a => Nat.mod_lt _ (by decide)
  cases c with
  | alloc v flags =>
    constructor
    · rcases h.pages.allocPage hv flags with hex | ⟨m, hok, -, -, hsame⟩
      · exact absurd (halive.symm.trans hex) Bool.false_ne_true
      · refine ⟨hok, fun j hj => ?_⟩
        exact (hsame _ (heapPage_outside hj) (hregion j) (fun he => by cases he)).trans (h.frame j hj)
    · intro a ha
      obtain ⟨hn, hused⟩ := hblock a ha
      rw [physicalByte_cell, physicalByte_cell]
      exact congrArg (byteOf · (a % 4)) (h.pages.allocPage_cell v flags halive hn hused (hk a))
  | free v =>
    obtain ⟨hok, -, hsame⟩ := h.pages.freePage hv
    constructor
    · exact ⟨hok, fun j hj => (hsame _ (heapPage_outside hj) (hregion j)).trans (h.frame j hj)⟩
    · intro a ha
      rw [physicalByte_cell, physicalByte_cell]
      exact congrArg (byteOf · (a % 4)) (freePage_cell (hblock a ha).1 v (hk a))

end Backed

section Boot

/-- The state after `k` pages of the heap were mapped; `c` is the number of blocks that were used before. -/
structure HeapPages (ebss : UInt32) (c k : ℕ) (s : Vmm) (d : ℕ) : Prop where
  pages : PagesOk ebss s d
  alive : s.exhausted = false
  count : s.pmm.usedBlocks.toNat ≤ c + k + 1
  table : k ≠ 0 ∨ s.pmm.usedBlocks.toNat ≤ c
  frame : ∀ j < k, (frameOf s (.page 832 j)).isSome

lemma heapPage_toNat (hk : k < 1024) :
    (heapVirtualAddress + UInt32.ofNat k * pageSize).toNat = heapStart + k * 4096 := by
  have hstart : heapVirtualAddress.toNat = 3489660928 := rfl
  have hsize : pageSize.toNat = 4096 := rfl
  have hheap : heapStart = 3489660928 := rfl
  have hmul : (UInt32.ofNat k * pageSize).toNat = k * 4096 := by
    rw [UInt32.toNat_mul, toNat_ofNat_of_lt (by omega), hsize, Nat.mod_eq_of_lt (by omega)]
  rw [toNat_add_of_lt (by omega), hmul, hstart, hheap]

lemma pageOf_heapPage (hk : k < 1024) :
    pageOf (heapVirtualAddress + UInt32.ofNat k * pageSize) = .page 832 k := by
  have hheap : heapStart = 3489660928 := rfl
  rw [pageOf, pdIndex_eq, ptIndex_eq, heapPage_toNat hk, hheap]
  have hdir : (3489660928 + k * 4096) / 4194304 = 832 := by omega
  have htab : (3489660928 + k * 4096) / 4096 % 1024 = k := by omega
  rw [hdir, htab]

lemma HeapPages.step {c : ℕ} (h : HeapPages ebss c k s d) (hk : k < 1024) (hroom : c + 1026 ≤ 8192) :
    HeapPages ebss c (k + 1) (mapHeapPage s k) d := by
  unfold mapHeapPage
  obtain ⟨v, hv⟩ : ∃ v, v = heapVirtualAddress + UInt32.ofNat k * pageSize := ⟨_, rfl⟩
  have hpage : pageOf v = .page 832 k := hv ▸ pageOf_heapPage hk
  have hdir : pdIndex v = 832 := (User.page.inj hpage).1
  have haddr := heapPage_toNat hk
  rw [← hv] at haddr ⊢
  have hstart : heapStart = 3489660928 := rfl
  have hcount := h.count
  have hused : s.pmm.usedBlocks.toNat + 2 ≤ 8192 := by
    rcases h.table with hne | hle <;> omega
  have halive := allocPage_alive h.pages.pmm h.alive hused v pageRw
  have hnext := allocPage_count h.pages.pmm halive
  rcases h.pages.allocPage (v := v) (by omega) pageRw with hex | ⟨m, hok, hself, -, hsame⟩
  · exact absurd (halive.symm.trans hex) Bool.false_ne_true
  refine ⟨hok, halive, ?_, Or.inl (Nat.succ_ne_zero k), fun j hj => ?_⟩
  · rw [hnext, hdir]
    rcases h.table with hne | hle
    · -- the first page has brought the table
      obtain ⟨n, hn⟩ := Option.isSome_iff_exists.mp (h.frame 0 (by omega))
      rw [if_pos (tablePresent_of_page hn)]
      omega
    · split <;> omega
  · by_cases hjk : j = k
    · rw [hjk, ← hpage, hself]
      rfl
    · rw [hsame (.page 832 j) ⟨by decide, by omega, by omega⟩ ?_ (fun he => by cases he)]
      · exact h.frame j (by omega)
      · rw [hpage]
        exact fun he => hjk (User.page.inj he).2

lemma HeapPages.turns {c : ℕ} (h : HeapPages ebss c 0 s d) (hroom : c + 1026 ≤ 8192) (hk : k ≤ 1024) :
    HeapPages ebss c k ((List.range k).foldl mapHeapPage s) d := by
  induction k with
  | zero => exact h
  | succ k ih =>
    rw [List.range_succ, List.foldl_append]
    exact (ih (by omega)).step (by omega) hroom

/-- A mapped page of the heap changes no reserved block. -/
lemma HeapPages.kernel {c : ℕ} (h : HeapPages ebss c 0 s d) (hroom : c + 1026 ≤ 8192) (hk : k ≤ 1024) {a : ℕ}
    (ha : Reserved ebss (a / 4096)) :
    physicalByte ((List.range k).foldl mapHeapPage s) a = physicalByte s a := by
  induction k with
  | zero => rfl
  | succ k ih =>
    have hpages := (h.turns hroom (show k ≤ 1024 by omega)).pages
    have hnext := h.turns hroom hk
    rw [List.range_succ, List.foldl_append] at hnext ⊢
    rw [← ih (by omega), physicalByte_cell, physicalByte_cell]
    exact congrArg (byteOf · (a % 4)) (hpages.allocPage_cell _ pageRw hnext.alive (hpages.reserved_untabled ha)
      (Or.inl ha) (Nat.mod_lt _ (by decide)))

/-- After the loop of `kheap_init` every page of the heap has its own block. -/
lemma mapHeapPages_backed (hend : ebss.toNat + 1024 ≤ 7157 * 4096) (s₀ : Vmm) :
    ∃ d F, Backed ebss d F (mapHeapPages (bootPaging ebss s₀)) ∧
      ∀ a, Reserved ebss (a / 4096) →
        physicalByte (mapHeapPages (bootPaging ebss s₀)) a = physicalByte (bootPaging ebss s₀) a := by
  obtain ⟨d, hok, hroom⟩ := bootPaging_room (k := 1026) (by decide) hend s₀
  have hstart : HeapPages ebss (bootPaging ebss s₀).pmm.usedBlocks.toNat 0 (bootPaging ebss s₀) d :=
    ⟨hok.pagesOk, hok.alive, by omega, Or.inr le_rfl, fun j hj => absurd hj (Nat.not_lt_zero j)⟩
  have hpages := hstart.turns hroom (le_refl 1024)
  refine ⟨d, fun j => (frameOf (mapHeapPages (bootPaging ebss s₀)) (.page 832 j)).getD 0, ⟨hpages.pages, ?_⟩, ?_⟩
  · intro j hj
    obtain ⟨n, hn⟩ := Option.isSome_iff_exists.mp (hpages.frame j hj)
    have hmap : frameOf (mapHeapPages (bootPaging ebss s₀)) (.page 832 j) = some n := hn
    rw [hmap]
    rfl
  · exact fun a ha => hstart.kernel hroom (le_refl 1024) ha

end Boot

section Runs

variable {h h' : Heap} {live : Finset UInt32} {bs : List Blk} {objects : Objects} {m m₀ m' : Machine}

lemma kheapInit_outside (mem : Memory) {v : ℕ} (hv : v ∉ heapRange) : (kheapInit mem).mem v = mem v := by
  have hstart : heapVirtualAddress.toNat = heapStart := rfl
  have hroom : heapStart + 16 ≤ heapEnd := by decide
  have hout : v < heapStart ∨ heapEnd ≤ v := by
    by_contra hc
    exact hv ⟨by omega, by omega⟩
  unfold kheapInit
  dsimp only
  rw [setMagic_outside _ (by omega), setNext_outside _ (by omega), setIsFree_outside _ (by omega),
    setSize_outside _ (by omega)]

/-- A call stores only to addresses of the heap. -/
lemma Tracks.outside (ht : Tracks h objects live bs) {e : HeapEvent} (hs : HeapStep objects h e h') {v : ℕ}
    (hv : v ∉ heapRange) : h'.mem v = h.mem v := by
  have hout : v < heapStart ∨ heapEnd ≤ v := by
    by_contra hc
    exact hv ⟨by omega, by omega⟩
  cases hs with
  | malloc hc => exact ht.invariant.kmalloc_kept hc (Or.inl hout)
  | @free p _ hp hc =>
    by_cases hlive : p ∈ live
    · exact ht.invariant.kfree_kept hlive hc (Or.inl hout)
    · rw [ht.owned] at hlive
      obtain rfl : p = 0 := hp.resolve_right hlive
      rw [kfree, if_pos rfl] at hc
      rw [← Option.some.inj hc]
  | @store p i object b hp hi =>
    have hin := ht.holds.inside p object hp
    exact store8_other _ _ (by omega)

/-- The stores of a call meet no unmapped address, and the kernel sees what they should leave. -/
lemma Backed.executes (hb : Backed ebss d F s) {mem' : Memory}
    (hmem : ∀ v, v ∉ heapRange → mem' v = virtualMemory s v) : ∃ s', Executes s mem' s' := by
  have hshows : mmu.Shows heapRange s (virtualMemory s) := by
    intro v hv
    obtain ⟨a, ha⟩ := isolates.mapped hb hv
    simp only [Mmu.load, virtualMemory, ha, Option.map_some, Option.getD_some]
  have hlist : ∀ w ∈ (List.range' heapStart (heapEnd - heapStart)).map fun v => (v, mem' v), w.1 ∈ heapRange := by
    intro w hw
    obtain ⟨v, hv, rfl⟩ := List.mem_map.mp hw
    rw [List.mem_range'_1] at hv
    exact ⟨hv.1, by omega⟩
  obtain ⟨s', hs', -⟩ := isolates.stores hb hshows hlist
  refine ⟨s', _, hlist, stored_map fun v hv => hmem v fun hin => hv ?_, hs'⟩
  rw [List.mem_range'_1]
  exact ⟨hin.1, by have := hin.2; omega⟩

lemma Backed.executed (hb : Backed ebss d F s) {mem' : Memory} (hs : Executes s mem' s') :
    Backed ebss d F s' ∧ (∀ v ∈ heapRange, virtualMemory s' v = mem' v) ∧
      ∀ a, Reserved ebss (a / 4096) → physicalByte s' a = physicalByte s a := by
  obtain ⟨l, hl, rfl, hstores⟩ := hs
  have hshows : mmu.Shows heapRange s (virtualMemory s) := by
    intro v hv
    obtain ⟨a, ha⟩ := isolates.mapped hb hv
    simp only [Mmu.load, virtualMemory, ha, Option.map_some, Option.getD_some]
  obtain ⟨s₁, hs₁, hb', -, hshows', hrest⟩ := isolates.stores hb hshows hl
  obtain rfl : s₁ = s' := Option.some.inj (hs₁.symm.trans hstores)
  refine ⟨hb', fun v hv => ?_, fun a ha => hrest a fun v hv hwalk => ?_⟩
  · rw [virtualMemory, hshows' v hv, Option.getD_some]
  · obtain ⟨j, hj, hblock, -⟩ := hb.place hv hwalk
    exact (hb.frame_lt hj).2.1 (hblock ▸ ha)

/-- The invariant of the machine: `s` is the state after `vmm_init`. -/
structure Runs (ebss : UInt32) (d : ℕ) (F : ℕ → ℕ) (s : Vmm) (m : Machine) : Prop where
  backed : Backed ebss d F m.vmm
  tracks : ∃ live bs, Tracks m.heap m.objects live bs
  kernel : ∀ a, Reserved ebss (a / 4096) → physicalByte m.vmm a = physicalByte s a

lemma Runs.step (h : Runs ebss d F s m) (hs : m.Step m') : Runs ebss d F s m' := by
  obtain ⟨live, bs, ht⟩ := h.tracks
  cases hs with
  | heap he hs =>
    obtain ⟨hb, hmem, hkernel⟩ := h.backed.executed hs
    obtain ⟨live', bs', ht'⟩ := ht.step he
    exact ⟨hb, ⟨live', bs', ht'.congr fun v hlo hhi => hmem v ⟨hlo, hhi⟩⟩,
      fun a ha => (hkernel a ha).trans (h.kernel a ha)⟩
  | page c hv hout halive =>
    rw [h.backed.pages.total] at hv
    obtain ⟨hb, hbytes⟩ := h.backed.page c hv hout halive
    refine ⟨hb, ⟨live, bs, ht.congr fun v hlo hhi => ?_⟩, fun a ha => (hbytes a (Or.inl ha)).trans (h.kernel a ha)⟩
    have hv : v ∈ heapRange := ⟨hlo, hhi⟩
    obtain ⟨j, hj, hblock, -⟩ := h.backed.place hv (h.backed.walk hv)
    have hbyte := hbytes _ (Or.inr ⟨j, hj, hblock⟩)
    simp only [virtualMemory, Machine.heap, Mmu.load, hb.walk hv, h.backed.walk hv, Option.map_some, Option.getD_some]
    exact hbyte

lemma Runs.works (h : Runs ebss d F s m) (hb : Backed ebss d F (mapHeapPages s)) : Works ebss s m := by
  obtain ⟨live, bs, ht⟩ := h.tracks
  refine ⟨ht.holds, ht.serves.1, ht.serves.2, fun e h' he => ?_, fun v hv => ?_, h.kernel⟩
  · exact h.backed.executes fun v hv => ht.outside he hv
  · obtain ⟨j, hj, hblock, -⟩ := h.backed.place hv (h.backed.walk hv)
    exact ⟨_, h.backed.walk hv, hb.walk hv, hblock ▸ (h.backed.frame_lt hj).2.1⟩

/-- The heap works behind the page tables as it does in flat memory: from `kheap_init` on, in every run of its calls,
of stores into objects and of calls that map and unmap other pages. -/
theorem heap_behind_paging (hend : ebss.toNat + 1024 ≤ 7157 * 4096) (s₀ : Vmm) :
    (∃ m₀, Starts (bootPaging ebss s₀) m₀) ∧ ∀ m₀ m, Starts (bootPaging ebss s₀) m₀ →
      Relation.ReflTransGen Machine.Step m₀ m → Works ebss (bootPaging ebss s₀) m := by
  obtain ⟨d, F, hb, hkernel⟩ := mapHeapPages_backed hend s₀
  constructor
  · obtain ⟨s', hs'⟩ := hb.executes fun v hv => kheapInit_outside _ hv
    exact ⟨⟨s', heapVirtualAddress, fun _ => none⟩, hs', rfl, rfl⟩
  · rintro m₀ m ⟨hinit, hhead, hobjects⟩ hrun
    obtain ⟨hb', hmem, hkernel'⟩ := hb.executed hinit
    have hstart : Runs ebss d F (bootPaging ebss s₀) m₀ := by
      refine ⟨hb', ⟨∅, [initialBlock], ?_⟩, fun a ha => (hkernel' a ha).trans (hkernel a ha)⟩
      rw [Machine.heap, hhead, hobjects]
      exact (tracks_start _).congr fun v hlo hhi => hmem v ⟨hlo, hhi⟩
    have hruns : Runs ebss d F (bootPaging ebss s₀) m := by
      clear hinit hhead hobjects hmem hb'
      induction hrun with
      | refl => exact hstart
      | tail _ hs ih => exact ih.step hs
    exact hruns.works hb

/-- A kernel that ends at 128 KB. -/
theorem heap_behind_paging_small : (∃ m₀, Starts (bootPaging 0x20000 blankMemory) m₀) ∧
    ∀ m₀ m, Starts (bootPaging 0x20000 blankMemory) m₀ →
      Relation.ReflTransGen Machine.Step m₀ m → Works 0x20000 (bootPaging 0x20000 blankMemory) m :=
  heap_behind_paging (by decide) blankMemory

end Runs

end SBoy28.Kheap
