import SBoy28.Scheduler.Pointers
import SBoy28.Scheduler.Guarantees
import SBoy28.Kheap.Blocks
import SBoy28.Kheap.FirstFit
import SBoy28.Lib.Ownership
import SBoy28.Lib.Simulation

/-!
# Threads and the kernel heap

The scheduler together with the heap from which `thread_create` takes the `thread_t` and the stack.
`thread_exit` gives the stack back and nothing gives the `thread_t` back.
-/

namespace SBoy28.Scheduler
open Lib
open Kheap (Heap HeapInvariant HasRoom kmalloc kfree blockSize blockHeader alignSize)

section Model

/-- `sizeof(thread_t)`. -/
def sizeofThread : UInt32 := 24

/-- The stores of `prepare_stack`. The pointer that it returns is the context of the thread. -/
def prepareStack (m : Memory) (stackBase stackSize fn arg trampoline : UInt32) : Memory :=
  let sp := stackBase + stackSize
  let sp := sp - 4
  let m := store32 m sp.toNat arg
  let sp := sp - 4
  let m := store32 m sp.toNat fn
  let sp := sp - 4
  let m := store32 m sp.toNat 0
  let sp := sp - 4
  let m := store32 m sp.toNat trampoline
  let sp := sp - 32
  (List.range 8).foldl (fun m i => store32 m (sp + 4 * UInt32.ofNat i).toNat 0) m

/-- The scheduler and the heap, with the pointers into the heap that are live. The fields of a
`thread_t` are in `machine`, not in the bytes of the heap; `trampoline` is the address of
`thread_trampoline`. -/
structure System where
  machine : Machine
  heap : Heap
  live : Finset UInt32
  trampoline : UInt32

/-- The stack size that `thread_create` works with. -/
def actualStackSize (stackSize : UInt32) : UInt32 :=
  if stackSize = 0 then threadDefaultStack else stackSize

/-- `thread_create`, `none` if a loop of the heap does not end or the scheduler faults. -/
def System.create (S : System) (fn arg stackSize : UInt32) : Option System :=
  let stackSize := actualStackSize stackSize
  (kmalloc S.heap sizeofThread).bind fun (t, h) =>
    if t = 0 then
      (step S.machine (.create none none stackSize)).map fun M => { S with machine := M, heap := h }
    else
      (kmalloc h stackSize).bind fun (stack, h) =>
        if stack = 0 then
          (kfree h t).bind fun h =>
            (step S.machine (.create (some t.toNat) none stackSize)).map fun M =>
              { S with machine := M, heap := h }
        else
          (step S.machine (.create (some t.toNat) (some stack.toNat) stackSize)).map fun M =>
            { S with
              machine := M
              heap := { h with mem := prepareStack h.mem stack stackSize fn arg S.trampoline }
              live := insert stack (insert t S.live) }

/-- `thread_exit` as one operation. What it pushes on the freed stack before the switch stays in the
payload of a free block. -/
def System.exit (S : System) : Option System :=
  match S.machine.sched.current with
  | none => (step S.machine .exitMark).map fun M => { S with machine := M }
  | some p =>
    (step S.machine .exitMark).bind fun M =>
      let stack := UInt32.ofNat ((M.sched.threads p).stack.getD 0)
      (kfree S.heap stack).bind fun h =>
        (step M .exitClear).bind fun M =>
          (step M .exitSwitch).map fun M => { S with machine := M, heap := h, live := S.live.erase stack }

/-- What happens to the system: the two operations that use the heap, any other step of the
scheduler, a tick included, and a store of a thread into memory that belongs to it. -/
inductive Call where
  | create (fn arg stackSize : UInt32)
  | exit
  | sched (op : Op)
  | store (p : UInt32) (a : ℕ) (b : UInt8)
  deriving DecidableEq, Repr

def System.step (S : System) : Call → Option System
  | .create fn arg stackSize => S.create fn arg stackSize
  | .exit => S.exit
  | .sched op =>
    if op.plain then (Scheduler.step S.machine op).map fun M => { S with machine := M } else none
  | .store p a b =>
    if p ∈ S.live ∧ p.toNat ≤ a ∧ a < p.toNat + (blockSize S.heap.mem (p - blockHeader)).toNat then
      some { S with heap := { S.heap with mem := store8 S.heap.mem a b } }
    else none

/-- The step relation of the system. -/
def System.Steps (S : System) (c : Call) (S' : System) : Prop := S.step c = some S'

/-- The threads are initialised over a heap that is in use. -/
def System.start (h : Heap) (live : Finset UInt32) (s : Sched) (count : ℕ → Int32) (trampoline : UInt32) :
    System :=
  ⟨Scheduler.start s count, h, live, trampoline⟩

end Model

section Specification

/-- The heap has room for a `thread_t` and then for the stack. -/
def System.Serves (S : System) : Call → Prop
  | .create _ _ stackSize =>
    ∃ bs t bs', HeapInvariant S.heap S.live bs ∧
      carve 16 4 (alignSize sizeofThread).toNat bs = some (t, bs') ∧ HasRoom bs' (actualStackSize stackSize)
  | _ => False

/-- A stack that is allocated holds what `prepare_stack` puts on it. -/
def System.StackFits (S : System) : Call → Prop
  | .create fn arg stackSize => S.Serves (.create fn arg stackSize) →
      48 ≤ (actualStackSize stackSize).toNat ∧ (actualStackSize stackSize).toNat ≤ 2 ^ 32 - 4
  | _ => True

end Specification

section Stack

/-- The words that `prepare_stack` writes, with their addresses, in its order. -/
def stackWords (base size fn arg trampoline : UInt32) : List (UInt32 × UInt32) :=
  let sp := base + size
  [(sp - 4, arg), (sp - 8, fn), (sp - 12, 0), (sp - 16, trampoline)] ++
    (List.range 8).map fun i => (sp - 48 + 4 * UInt32.ofNat i, 0)

def storeWords (m : Memory) (ws : List (UInt32 × UInt32)) : Memory :=
  ws.foldl (fun m w => store32 m w.1.toNat w.2) m

lemma storeWords_outside {ws : List (UInt32 × UInt32)} {m : Memory} {i : ℕ}
    (h : ∀ w ∈ ws, i < w.1.toNat ∨ w.1.toNat + 4 ≤ i) : storeWords m ws i = m i := by
  induction ws generalizing m with
  | nil => rfl
  | cons w ws ih =>
    rw [storeWords, List.foldl_cons, ← storeWords, ih (fun x hx => h x (List.mem_cons_of_mem w hx))]
    exact store32_outside m w.2 (h w List.mem_cons_self)

lemma prepareStack_eq (m : Memory) (base size fn arg trampoline : UInt32) :
    prepareStack m base size fn arg trampoline = storeWords m (stackWords base size fn arg trampoline) := by
  have h8 : base + size - 4 - 4 = base + size - 8 := sub_sub_eq_sub_add _ 4 4
  have h12 : base + size - 8 - 4 = base + size - 12 := sub_sub_eq_sub_add _ 8 4
  have h16 : base + size - 12 - 4 = base + size - 16 := sub_sub_eq_sub_add _ 12 4
  have h48 : base + size - 16 - 32 = base + size - 48 := sub_sub_eq_sub_add _ 16 32
  simp only [prepareStack, h8, h12, h16, h48, storeWords, stackWords, List.foldl_append, List.foldl_cons,
    List.foldl_nil, List.foldl_map]

lemma mem_stackWords {base size fn arg trampoline : UInt32} {w : UInt32 × UInt32} :
    w ∈ stackWords base size fn arg trampoline ↔ w = (base + size - 4, arg) ∨ w = (base + size - 8, fn) ∨
      w = (base + size - 12, 0) ∨ w = (base + size - 16, trampoline) ∨
      ∃ i < 8, (base + size - 48 + 4 * UInt32.ofNat i, 0) = w := by
  simp [stackWords]

lemma register_toNat {base size : UInt32} {i : ℕ} (hlo : 48 ≤ size.toNat)
    (hend : base.toNat + size.toNat < 2 ^ 32) (hi : i < 8) :
    (base + size - 48 + 4 * UInt32.ofNat i).toNat = base.toNat + size.toNat - 48 + 4 * i := by
  have h4 : (4 : UInt32).toNat = 4 := rfl
  have h48 : (48 : UInt32).toNat = 48 := rfl
  have hsp : (base + size).toNat = base.toNat + size.toNat := toNat_add_of_lt hend
  have hsub : (base + size - 48).toNat = base.toNat + size.toNat - 48 := by
    rw [toNat_sub_of_le (by omega), hsp, h48]
  have hi4 : (4 * UInt32.ofNat i).toNat = 4 * i := by
    rw [UInt32.toNat_mul, toNat_ofNat_of_lt (by omega), h4]
    omega
  rw [toNat_add_of_lt (by omega), hsub, hi4]

/-- The frame of `prepare_stack` lies in the stack if that has at least 48 bytes. -/
lemma stackWords_inside {base size fn arg trampoline : UInt32} (hlo : 48 ≤ size.toNat)
    (hend : base.toNat + size.toNat < 2 ^ 32) {w : UInt32 × UInt32}
    (hw : w ∈ stackWords base size fn arg trampoline) :
    base.toNat ≤ w.1.toNat ∧ w.1.toNat + 4 ≤ base.toNat + size.toNat := by
  have hsp : (base + size).toNat = base.toNat + size.toNat := toNat_add_of_lt hend
  have hsub : ∀ d : UInt32, 4 ≤ d.toNat → d.toNat ≤ 48 → base.toNat ≤ (base + size - d).toNat ∧
      (base + size - d).toNat + 4 ≤ base.toNat + size.toNat := by
    intro d hd hd48
    rw [toNat_sub_of_le (by omega)]
    omega
  rcases mem_stackWords.mp hw with rfl | rfl | rfl | rfl | ⟨i, hi, rfl⟩
  · exact hsub 4 (by decide) (by decide)
  · exact hsub 8 (by decide) (by decide)
  · exact hsub 12 (by decide) (by decide)
  · exact hsub 16 (by decide) (by decide)
  · simp only [register_toNat hlo hend hi]
    omega

lemma prepareStack_outside (m : Memory) {base size : UInt32} (fn arg trampoline : UInt32) {i : ℕ}
    (hsize : 48 ≤ size.toNat) (hend : base.toNat + size.toNat < 2 ^ 32)
    (hi : i < base.toNat ∨ base.toNat + size.toNat ≤ i) :
    prepareStack m base size fn arg trampoline i = m i := by
  rw [prepareStack_eq]
  apply storeWords_outside
  intro w hw
  have hin := stackWords_inside hsize hend hw
  omega

/-- The stores of `prepare_stack` into a new stack change no header. -/
lemma prepareStack_invariant {h : Heap} {live : Finset UInt32} {bs : List Blk} {base size : UInt32}
    (hi : HeapInvariant h live bs) (fn arg trampoline : UInt32)
    (hb : ∃ b ∈ bs, b.free = false ∧ b.payload 16 = base.toNat ∧ (alignSize size).toNat ≤ b.size)
    (hlo : 48 ≤ size.toNat) (hhi : size.toNat ≤ 2 ^ 32 - 4) :
    HeapInvariant { h with mem := prepareStack h.mem base size fn arg trampoline } live bs := by
  obtain ⟨b, hb, -, hpay, hroom⟩ := hb
  have hbnd := hi.tiles.bounds hb
  have hend := Kheap.heapEnd_lt
  have hle : size.toNat ≤ b.size := by
    rw [Kheap.alignSize_toNat hhi, Kheap.roundUp] at hroom
    omega
  simp only [Blk.payload] at hpay
  refine hi.payload hb fun i hi => ?_
  exact prepareStack_outside h.mem fn arg trampoline hlo (by omega) (by omega)

end Stack

section Accounting

variable {live : Finset UInt32} {bs : List Blk} {S S' : System}

/-- Who holds memory of the heap: whoever did at the start, and the created threads. -/
inductive Holder where
  | old (q : UInt32)
  | thread (p : ThreadPtr)
  | stack (p : ThreadPtr)
  deriving DecidableEq

def holding (live : Finset UInt32) (M : Machine) : Holder → Option ℕ
  | .old q => if q ∈ live then some q.toNat else none
  | .thread p => if p ∈ M.created then some p else none
  | .stack p => if p ∈ M.created then (M.sched.threads p).stack else none

def addresses (live : Finset UInt32) : Set ℕ := {a | ∃ q ∈ live, q.toNat = a}

/-- Every live pointer has one holder, the used blocks of the start are in use, and a thread that has
ended holds no stack. -/
structure Accounted (live : Finset UInt32) (bs : List Blk) (S : System) : Prop where
  linked : Linked S.machine
  blocks : ∃ bs', HeapInvariant S.heap S.live bs' ∧ KeepsUsed bs bs' ∧
    ∀ p ∈ S.machine.created, ∃ b ∈ bs', b.free = false ∧ b.payload 16 = p ∧ 24 ≤ b.size
  owns : Owns Set.univ (holding live S.machine) (addresses S.live)
  held : ∀ q ∈ S.live, ∃ o, holding live S.machine o = some q.toNat
  ended : ∀ p ∈ S.machine.created, S.machine.pc (.thread p) = .halt →
    (S.machine.sched.threads p).stack = none

lemma mem_addresses {q : UInt32} : q.toNat ∈ addresses live ↔ q ∈ live := by
  constructor
  · rintro ⟨r, hr, hrq⟩
    exact UInt32.toNat_inj.mp hrq ▸ hr
  · intro hq
    exact ⟨q, hq, rfl⟩

lemma addresses_insert (q : UInt32) : addresses (insert q live) = insert q.toNat (addresses live) := by
  ext a
  constructor
  · rintro ⟨r, hr, rfl⟩
    rcases Finset.mem_insert.mp hr with rfl | hr
    · exact Or.inl rfl
    · exact Or.inr ⟨r, hr, rfl⟩
  · rintro (rfl | ⟨r, hr, rfl⟩)
    · exact ⟨q, Finset.mem_insert_self q live, rfl⟩
    · exact ⟨r, Finset.mem_insert_of_mem hr, rfl⟩

lemma addresses_erase (q : UInt32) : addresses (live.erase q) = addresses live \ {q.toNat} := by
  ext a
  constructor
  · rintro ⟨r, hr, rfl⟩
    obtain ⟨hne, hr⟩ := Finset.mem_erase.mp hr
    exact ⟨⟨r, hr, rfl⟩, fun he => hne (UInt32.toNat_inj.mp he)⟩
  · rintro ⟨⟨r, hr, rfl⟩, hne⟩
    exact ⟨r, Finset.mem_erase.mpr ⟨fun he => hne (congrArg UInt32.toNat he), hr⟩, rfl⟩

lemma Accounted.heap (h : Accounted live bs S) {h' : Heap}
    (hh : ∀ bs₁, HeapInvariant S.heap S.live bs₁ → ∃ bs₂, HeapInvariant h' S.live bs₂ ∧ KeepsUsed bs₁ bs₂) :
    Accounted live bs { S with heap := h' } := by
  obtain ⟨bs₁, hi, hk, hsize⟩ := h.blocks
  obtain ⟨bs₂, hi', hk'⟩ := hh bs₁ hi
  refine ⟨h.linked, ⟨bs₂, hi', hk.trans hk', ?_⟩, h.owns, h.held, h.ended⟩
  intro p hp
  obtain ⟨b, hb, hused, hpay, hroom⟩ := hsize p hp
  exact ⟨b, hk' b hb hused, hused, hpay, hroom⟩

lemma Accounted.sameHolding (h : Accounted live bs S) {M : Machine} (hlinked : Linked M)
    (hcreated : M.created = S.machine.created) (hhold : holding live M = holding live S.machine)
    (hended : ∀ p ∈ M.created, M.pc (.thread p) = .halt → (M.sched.threads p).stack = none) :
    Accounted live bs { S with machine := M } := by
  obtain ⟨bs₁, hi, hk, hsize⟩ := h.blocks
  refine ⟨hlinked, ⟨bs₁, hi, hk, hcreated ▸ hsize⟩, ?_, ?_, hended⟩
  · simp only [hhold]
    exact h.owns
  · simp only [hhold]
    exact h.held

lemma Accounted.quiet (h : Accounted live bs S) {M : Machine} (hq : Quiet S.machine M) :
    Accounted live bs { S with machine := M } := by
  have hhold : holding live M = holding live S.machine := by
    funext o
    cases o with
    | old q => rfl
    | thread p => simp only [holding, hq.created]
    | stack p => simp only [holding, hq.created, hq.stack p]
  refine h.sameHolding hq.linked hq.created hhold fun p hp hpc => ?_
  rw [hq.stack p]
  exact h.ended p (hq.created ▸ hp) (hq.halt _ hpc)

lemma actualStackSize_ne_zero (stackSize : UInt32) : actualStackSize stackSize ≠ 0 := by
  unfold actualStackSize
  split
  · decide
  · assumption

/-- The thread and its stack are new holders of new memory. -/
lemma Accounted.served (h : Accounted live bs S) {M : Machine} {h' : Heap} {t stack : UInt32}
    {bs₁ : List Blk} (hlinked : Linked M) (htC : t.toNat ∉ S.machine.created)
    (hcreated : M.created = insert t.toNat S.machine.created) (hpc : M.pc = S.machine.pc)
    (hstack : (M.sched.threads t.toNat).stack = some stack.toNat)
    (hothers : ∀ p, p ≠ t.toNat → (M.sched.threads p).stack = (S.machine.sched.threads p).stack)
    (ht : t ∉ S.live) (hk : stack ∉ insert t S.live)
    (hi : HeapInvariant h' (insert stack (insert t S.live)) bs₁) (hkeep : KeepsUsed bs bs₁)
    (hsize : ∀ p ∈ M.created, ∃ b ∈ bs₁, b.free = false ∧ b.payload 16 = p ∧ 24 ≤ b.size) :
    Accounted live bs { S with machine := M, heap := h', live := insert stack (insert t S.live) } := by
  let f : Holder → Option ℕ := Function.update (holding live S.machine) (.thread t.toNat) (some t.toNat)
  have hmem : ∀ p, p ≠ t.toNat → (p ∈ M.created ↔ p ∈ S.machine.created) := by
    intro p hp
    rw [hcreated, Finset.mem_insert, or_iff_right hp]
  have hf : ∀ o, o ≠ .stack t.toNat → holding live M o = f o := by
    intro o ho
    cases o with
    | old q => simp [f, holding]
    | thread p =>
      by_cases hp : p = t.toNat
      · subst hp
        simp [f, holding, hcreated]
      · simp [f, holding, hp, hmem p hp]
    | stack p =>
      have hp : p ≠ t.toNat := fun he => ho (congrArg Holder.stack he)
      simp [f, holding, hmem p hp, hothers p hp]
  have hfirst : Owns Set.univ f (addresses (insert t S.live)) := by
    rw [addresses_insert]
    refine h.owns.take (fun hm => ht (mem_addresses.mp hm)) (Function.update_self _ _ _) ?_
    intro o _ ho
    exact Function.update_of_ne ho _ _
  have hself : holding live M (.stack t.toNat) = some stack.toNat := by
    simp [holding, hcreated, hstack]
  refine ⟨hlinked, ⟨bs₁, hi, hkeep, hsize⟩, ?_, ?_, ?_⟩
  · rw [addresses_insert]
    exact hfirst.take (fun hm => hk (mem_addresses.mp hm)) hself (fun o _ ho => hf o ho)
  · intro q hq
    rcases Finset.mem_insert.mp hq with rfl | hq
    · exact ⟨_, hself⟩
    · rcases Finset.mem_insert.mp hq with rfl | hq
      · exact ⟨.thread q.toNat, by simp [holding, hcreated]⟩
      · obtain ⟨o, ho⟩ := h.held q hq
        -- the holders of before still hold what they did
        have hne : o ≠ .stack t.toNat := by
          rintro rfl
          simp [holding, htC] at ho
        have hne' : o ≠ .thread t.toNat := by
          rintro rfl
          simp [holding, htC] at ho
        exact ⟨o, by rw [hf o hne, ← ho]; exact Function.update_of_ne hne' _ _⟩
  · intro p hp hhalt
    rw [hpc] at hhalt
    by_cases hpt : p = t.toNat
    · rw [hpt, h.linked.fresh _ htC] at hhalt
      cases hhalt
    · rw [hothers p hpt]
      exact h.ended p ((hmem p hpt).mp hp) hhalt

/-- `thread_create` keeps the accounts, and it makes a thread just if the heap has room. -/
theorem Accounted.create (h : Accounted live bs S) {fn arg stackSize : UInt32}
    (hfits : S.StackFits (.create fn arg stackSize)) (hs : S.create fn arg stackSize = some S') :
    Accounted live bs S' ∧
      (S'.machine.created = ∅ ↔ S.machine.created = ∅ ∧ ¬S.Serves (.create fn arg stackSize)) := by
  obtain ⟨bs₁, hi, hk, hsize⟩ := h.blocks
  -- without room nothing but the heap changes
  have hfailed : ∀ {h' : Heap}, ¬S.Serves (.create fn arg stackSize) → S' = { S with heap := h' } →
      (∃ bs₂, HeapInvariant h' S.live bs₂ ∧ KeepsUsed bs₁ bs₂) → Accounted live bs S' ∧
        (S'.machine.created = ∅ ↔ S.machine.created = ∅ ∧ ¬S.Serves (.create fn arg stackSize)) := by
    rintro h' hno rfl ⟨bs₂, hi₂, hk₂⟩
    refine ⟨h.heap fun bs₃ hi₃ => ⟨bs₂, hi₂, ?_⟩, by simp [hno]⟩
    rw [hi₃.unique hi]
    exact hk₂
  rcases hi.kmalloc_used (show sizeofThread ≠ 0 by decide) with
    ⟨hroom, hk₁⟩ | ⟨t, h₁, bs₂, -, hcarve, ht0, htnew, hk₁, hi₁, hkeep₁, hblock₁⟩
  · simp only [System.create, hk₁, Option.bind_some, ite_true, Option.map_eq_some_iff] at hs
    obtain ⟨M, hM, rfl⟩ := hs
    obtain rfl := create_failed hM
    refine hfailed ?_ rfl ⟨bs₁, hi, fun b hb _ => hb⟩
    rintro ⟨bs', t, bs'', hi', hc, -⟩
    rw [hi'.unique hi, Kheap.carve_none_iff.mpr hroom] at hc
    cases hc
  · rcases hi₁.kmalloc_used (actualStackSize_ne_zero stackSize) with
      ⟨hroom, hk₂⟩ | ⟨k, h₂, bs₃, hroom, -, hk0, hknew, hk₂, hi₂, hkeep₂, hblock₂⟩
    · obtain ⟨h₃, bs₃, hfree, hi₃, hkeep₃⟩ := hi₁.kfree_used (Finset.mem_insert_self t S.live)
      simp only [System.create, hk₁, Option.bind_some, ht0, ite_false, hk₂, ite_true, hfree,
        Option.map_eq_some_iff] at hs
      obtain ⟨M, hM, rfl⟩ := hs
      obtain rfl := create_failed hM
      rw [Finset.erase_insert htnew] at hi₃
      refine hfailed ?_ rfl ⟨bs₃, hi₃, ?_⟩
      · rintro ⟨bs', t', bs'', hi', hc, hroom'⟩
        rw [hi'.unique hi, hcarve, Option.some.injEq, Prod.mk.injEq] at hc
        rw [← hc.2] at hroom'
        exact hroom hroom'
      · intro b hb hused
        refine hkeep₃ b (hkeep₁ b hb hused) hused ?_
        intro hbt
        exact htnew ((hi.live_usedAt t).mpr ⟨b, hb, hused, hbt⟩)
    · have hserves : S.Serves (.create fn arg stackSize) := ⟨bs₁, _, bs₂, hi, hcarve, hroom⟩
      simp only [System.create, hk₁, Option.bind_some, ht0, ite_false, hk₂, hk0,
        Option.map_eq_some_iff] at hs
      obtain ⟨M, hM, rfl⟩ := hs
      obtain ⟨hlinked, htC, hcreated, hpc, hstack, hothers⟩ := h.linked.create hM
      refine ⟨?_, by simp [hcreated, hserves]⟩
      have hi₃ := prepareStack_invariant hi₂ fn arg S.trampoline hblock₂ (hfits hserves).1 (hfits hserves).2
      refine h.served hlinked htC hcreated hpc hstack hothers htnew hknew hi₃
        (hk.trans (hkeep₁.trans hkeep₂)) ?_
      intro p hp
      rcases Finset.mem_insert.mp (hcreated ▸ hp) with rfl | hp
      · obtain ⟨b, hb, hused, hpay, hroom⟩ := hblock₁
        exact ⟨b, hkeep₂ b hb hused, hused, hpay, hroom⟩
      · obtain ⟨b, hb, hused, hpay, hroom⟩ := hsize p hp
        exact ⟨b, hkeep₂ b (hkeep₁ b hb hused) hused, hused, hpay, hroom⟩

lemma Accounted.stackFreed (h : Accounted live bs S)
    (hstart : ∀ b ∈ bs, b.free = false → ∃ q ∈ live, q.toNat = b.payload 16) {M : Machine} {h' : Heap} {q : UInt32}
    {p : ThreadPtr} (hlinked : Linked M) (hcreated : M.created = S.machine.created) (hq : q ∈ S.live)
    (hheld : holding live S.machine (.stack p) = some q.toNat) (hself : holding live M (.stack p) = none)
    (hhold : ∀ o, o ≠ .stack p → holding live M o = holding live S.machine o)
    (hended : ∀ p ∈ M.created, M.pc (.thread p) = .halt → (M.sched.threads p).stack = none)
    (hfree : kfree S.heap q = some h') :
    Accounted live bs { S with machine := M, heap := h', live := S.live.erase q } := by
  obtain ⟨bs₁, hi, hk, hsize⟩ := h.blocks
  have hother : ∀ o, holding live S.machine o = some q.toNat → o = .stack p :=
    fun o ho => h.owns.distinct o trivial _ trivial _ ho hheld
  obtain ⟨h₂, bs₂, hfree', hi₂, hkeep⟩ := hi.kfree_used hq
  rw [hfree, Option.some.injEq] at hfree'
  subst hfree'
  refine ⟨hlinked, ⟨bs₂, hi₂, ?_, ?_⟩, ?_, ?_, hended⟩
  · intro b hb hused
    refine hkeep b (hk b hb hused) hused ?_
    intro hbq
    obtain ⟨r, hr, hrb⟩ := hstart b hb hused
    have hold := hother (.old r) (by simp [holding, hr, hrb, hbq])
    cases hold
  · intro u hu
    rw [hcreated] at hu
    obtain ⟨b, hb, hused, hpay, hroom⟩ := hsize u hu
    refine ⟨b, hkeep b hb hused ?_, hused, hpay, hroom⟩
    intro hbq
    have hold := hother (.thread u) (by rw [holding, if_pos hu, ← hpay, hbq])
    cases hold
  · rw [addresses_erase]
    exact h.owns.give trivial hheld hself (fun o _ ho => hhold o ho)
  · intro r hr
    obtain ⟨hne, hr⟩ := Finset.mem_erase.mp hr
    obtain ⟨o, ho⟩ := h.held r hr
    refine ⟨o, ?_⟩
    rw [hhold o ?_, ho]
    rintro rfl
    rw [hheld, Option.some.injEq] at ho
    exact hne (UInt32.toNat_inj.mp ho.symm)

/-- `thread_exit` keeps the accounts and makes no thread. -/
theorem Accounted.exit (h : Accounted live bs S)
    (hstart : ∀ b ∈ bs, b.free = false → ∃ q ∈ live, q.toNat = b.payload 16) (hs : S.exit = some S') :
    Accounted live bs S' ∧ S'.machine.created = S.machine.created := by
  cases hcur : S.machine.sched.current with
  | none =>
    simp only [System.exit, hcur, Option.map_eq_some_iff] at hs
    obtain ⟨M, hM, rfl⟩ := hs
    have hpc : S.machine.pc S.machine.sched.running = .user := step_pc hM rfl
    simp only [step, hpc, hcur, Option.some.injEq] at hM
    subst hM
    exact ⟨h, rfl⟩
  | some p =>
    simp only [System.exit, hcur, Option.bind_eq_some_iff, Option.map_eq_some_iff] at hs
    obtain ⟨M₁, hM₁, h', hfree, M₂, hM₂, M, hM, rfl⟩ := hs
    obtain ⟨hlinked, hpC, hcreated, hstack₁, hnone, hothers, hhalt⟩ := h.linked.exit hcur hM₁ hM₂ hM
    refine ⟨?_, hcreated⟩
    rw [hstack₁] at hfree ⊢
    have hhold : ∀ o, o ≠ .stack p → holding live M o = holding live S.machine o := by
      intro o ho
      cases o with
      | old q => rfl
      | thread u => simp only [holding, hcreated]
      | stack u =>
        have hu : u ≠ p := fun he => ho (congrArg Holder.stack he)
        simp only [holding, hcreated, hothers u hu]
    have hself : holding live M (.stack p) = none := by simp [holding, hnone]
    have hended : ∀ u ∈ M.created, M.pc (.thread u) = .halt → (M.sched.threads u).stack = none := by
      intro u hu hpc
      by_cases hup : u = p
      · rw [hup, hnone]
      · rw [hothers u hup]
        rcases hhalt _ hpc with hbefore | he
        · exact h.ended u (hcreated ▸ hu) hbefore
        · exact absurd (Context.thread.inj he) hup
    cases hst : (S.machine.sched.threads p).stack with
    | none =>
      -- `kfree(NULL)`
      simp only [hst, Option.getD_none, show UInt32.ofNat 0 = 0 from rfl, kfree, ite_true,
        Option.some.injEq] at hfree ⊢
      have h0 : (0 : UInt32) ∉ S.live := by
        obtain ⟨bs₁, hi, -, -⟩ := h.blocks
        intro hm
        obtain ⟨b, -, -, hb⟩ := (hi.live_iff 0).mp hm
        simp at hb
      subst hfree
      have hsame : holding live M = holding live S.machine := by
        funext o
        by_cases ho : o = .stack p
        · rw [ho, hself]
          simp [holding, hst]
        · exact hhold o ho
      rw [Finset.erase_eq_of_notMem h0]
      exact h.sameHolding hlinked hcreated hsame hended
    | some k =>
      have hheld : holding live S.machine (.stack p) = some k := by simp [holding, hpC, hst]
      obtain ⟨q, hq, rfl⟩ := h.owns.taken (.stack p) trivial k hheld
      simp only [hst, Option.getD_some, UInt32.ofNat_toNat] at hfree ⊢
      exact h.stackFreed hstart hlinked hcreated hq hheld hself hhold hended hfree

/-- Every step keeps the accounts, and only a `thread_create` with room makes a thread. -/
theorem Accounted.step (hstart : ∀ b ∈ bs, b.free = false → ∃ q ∈ live, q.toNat = b.payload 16)
    (h : Accounted live bs S) {c : Call} (hfits : S.StackFits c) (hs : S.Steps c S') :
    Accounted live bs S' ∧ (S'.machine.created = ∅ ↔ S.machine.created = ∅ ∧ ¬S.Serves c) := by
  have hkept : Accounted live bs S' ∧ S'.machine.created = S.machine.created → ¬S.Serves c →
      Accounted live bs S' ∧ (S'.machine.created = ∅ ↔ S.machine.created = ∅ ∧ ¬S.Serves c) := by
    rintro ⟨hacc, hcreated⟩ hno
    exact ⟨hacc, by rw [hcreated]; simp [hno]⟩
  cases c with
  | create fn arg stackSize => exact h.create hfits hs
  | exit => exact hkept (h.exit hstart hs) (fun hf => hf)
  | sched op =>
    simp only [System.Steps, System.step] at hs
    split at hs
    · rename_i hop
      rw [Option.map_eq_some_iff] at hs
      obtain ⟨M, hM, rfl⟩ := hs
      have hq := h.linked.quiet hop hM
      exact hkept ⟨h.quiet hq, hq.created⟩ (fun hf => hf)
    · cases hs
  | store p a b =>
    simp only [System.Steps, System.step] at hs
    split at hs
    · rename_i hin
      obtain rfl := Option.some.inj hs
      refine hkept ⟨h.heap fun bs₁ hi => ⟨bs₁, hi.store hin.1 hin.2.1 hin.2.2 b, fun b hb _ => hb⟩, rfl⟩
        (fun hf => hf)
    · cases hs

lemma start_accounted {h : Heap} (hi : HeapInvariant h live bs) (s : Sched) (count : ℕ → Int32)
    (trampoline : UInt32) : Accounted live bs (System.start h live s count trampoline) where
  linked := start_linked s count
  blocks := ⟨bs, hi, fun b hb _ => hb, fun p hp => by simp [System.start, Scheduler.start] at hp⟩
  owns := by
    refine ⟨?_, ?_⟩
    · intro o _ r hr
      cases o with
      | old q =>
        simp only [holding] at hr
        split at hr
        · rename_i hq
          exact ⟨q, hq, Option.some.inj hr⟩
        · cases hr
      | thread p => simp [holding, System.start, Scheduler.start] at hr
      | stack p => simp [holding, System.start, Scheduler.start] at hr
    · intro o _ o' _ r hr hr'
      cases o with
      | old q =>
        cases o' with
        | old q' =>
          simp only [holding] at hr hr'
          split at hr
          · split at hr'
            · exact congrArg Holder.old (UInt32.toNat_inj.mp ((Option.some.inj hr).trans (Option.some.inj hr').symm))
            · cases hr'
          · cases hr
        | thread p => simp [holding, System.start, Scheduler.start] at hr'
        | stack p => simp [holding, System.start, Scheduler.start] at hr'
      | thread p => simp [holding, System.start, Scheduler.start] at hr
      | stack p => simp [holding, System.start, Scheduler.start] at hr
  held q hq := ⟨.old q, if_pos hq⟩
  ended p hp := by simp [System.start, Scheduler.start] at hp

/-- When all threads have ended, what is live is what was and the `thread_t`s. -/
lemma Accounted.leaked (h : Accounted live bs S)
    (hend : ∀ p ∈ S.machine.created, S.machine.pc (.thread p) = .halt) (q : UInt32) :
    q ∈ S.live ↔ q ∈ live ∨ q.toNat ∈ S.machine.created := by
  constructor
  · intro hq
    obtain ⟨o, ho⟩ := h.held q hq
    cases o with
    | old r =>
      simp only [holding] at ho
      split at ho
      · rename_i hr
        exact Or.inl (UInt32.toNat_inj.mp (Option.some.inj ho) ▸ hr)
      · cases ho
    | thread p =>
      simp only [holding] at ho
      split at ho
      · rename_i hp
        exact Or.inr (Option.some.inj ho ▸ hp)
      · cases ho
    | stack p =>
      simp only [holding] at ho
      split at ho
      · rename_i hp
        rw [h.ended p hp (hend p hp)] at ho
        cases ho
      · cases ho
  · rintro (hq | hq)
    · exact mem_addresses.mp (h.owns.taken (.old q) trivial _ (if_pos hq))
    · exact mem_addresses.mp (h.owns.taken (.thread q.toNat) trivial _ (if_pos hq))

lemma Accounted.freeSize_iff (h : Accounted live bs S) {h₀ : Heap} (hi₀ : HeapInvariant h₀ live bs)
    (hend : ∀ p ∈ S.machine.created, S.machine.pc (.thread p) = .halt) :
    ∃ bs', HeapInvariant S.heap S.live bs' ∧ (freeSize bs' = freeSize bs ↔ S.machine.created = ∅) := by
  obtain ⟨bs', hi, hk, hsize⟩ := h.blocks
  refine ⟨bs', hi, ?_⟩
  constructor
  · intro heq
    by_contra hne
    obtain ⟨p, hp⟩ := Finset.nonempty_iff_ne_empty.mpr hne
    obtain ⟨b, hb, hused, hpay, hroom⟩ := hsize p hp
    obtain ⟨q, hq, hqb⟩ := hi.used_live hb hused
    have hqnew : q ∉ live := by
      intro hold
      have hsame := h.owns.distinct (.old q) trivial (.thread p) trivial q.toNat (if_pos hold)
        (by rw [holding, if_pos hp, hqb, hpay])
      cases hsame
    have hlt := hi₀.freeSize_lt hi hk hb hused (by omega) hqnew hqb.symm
    omega
  · intro hempty
    have hlive : S.live = live := by
      ext q
      rw [h.leaked hend, hempty]
      simp
    exact hi₀.freeSize_eq (hlive ▸ hi) hk

end Accounting

section Results

variable {live : Finset UInt32} {bs : List Blk} {h : Heap} {S : System}

/-- A run of the system keeps the accounts. -/
lemma run_accounted (hi : HeapInvariant h live bs) (s : Sched) (count : ℕ → Int32) (trampoline : UInt32)
    {calls : List Call} (hrun : Trace System.Steps (System.start h live s count trampoline) calls S)
    (hfits : Throughout System.Steps System.StackFits (System.start h live s count trampoline) calls) :
    Accounted live bs S ∧ (S.machine.created = ∅ ↔
      Throughout System.Steps (fun S c => ¬S.Serves c) (System.start h live s count trampoline) calls) := by
  have hstart : ∀ b ∈ bs, b.free = false → ∃ q ∈ live, q.toNat = b.payload 16 := fun b hb => hi.used_live hb
  have hbegin := start_accounted hi s count trampoline
  refine ⟨hrun.invariant_throughout (fun hacc hf hs => (hacc.step hstart hf hs).1) hfits hbegin, ?_⟩
  have hiff := hrun.throughout_iff (J := fun S => S.machine.created = ∅)
    (fun hs hs' => Option.some.inj (hs.symm.trans hs'))
    (fun hacc hf hs => Accounted.step hstart hacc hf hs) hfits hbegin
  rw [hiff]
  exact and_iff_right rfl

/-- The end of a thread's life. When every created thread has called `thread_exit`, what is live in
the heap is what was live at the start and the `thread_t` of every created thread. So the free size
of the heap is that of the start just if no call of `thread_create` found memory, provided that
the stacks are not too small for `prepare_stack`. -/
theorem thread_lifecycle (hi : HeapInvariant h live bs) (s : Sched) (count : ℕ → Int32)
    (trampoline : UInt32) {calls : List Call}
    (hrun : Trace System.Steps (System.start h live s count trampoline) calls S)
    (hfits : Throughout System.Steps System.StackFits (System.start h live s count trampoline) calls)
    (hend : ∀ p ∈ S.machine.created, S.machine.pc (.thread p) = .halt) :
    (∀ q, q ∈ S.live ↔ q ∈ live ∨ q.toNat ∈ S.machine.created) ∧
    ∃ bs', HeapInvariant S.heap S.live bs' ∧ (freeSize bs' = freeSize bs ↔
      Throughout System.Steps (fun S c => ¬S.Serves c) (System.start h live s count trampoline) calls) := by
  obtain ⟨hacc, hcreated⟩ := run_accounted hi s count trampoline hrun hfits
  obtain ⟨bs', hi', hfree⟩ := hacc.freeSize_iff hi hend
  exact ⟨hacc.leaked hend, bs', hi', hfree.trans hcreated⟩

/-- One thread is created over a fresh heap, dispatched by a tick, and ends. -/
def oneThread : List Call := [.create 0x200000 0 4096, .sched .tick, .exit]

def freshSystem : System := System.start (Kheap.kheapInit fun _ => 0) ∅ coldBoot (fun _ => 0) 0x100000

def oneThreadEnd : System := (oneThread.foldlM System.step freshSystem).get (by decide +kernel)

lemma oneThread_run : Trace System.Steps freshSystem oneThread oneThreadEnd :=
  trace_foldlM.mpr (Option.some_get _).symm

lemma oneThread_fits : Throughout System.Steps System.StackFits freshSystem oneThread :=
  ⟨fun _ => by decide, fun _ _ => ⟨trivial, fun _ _ => ⟨trivial, fun _ _ => trivial⟩⟩⟩

lemma oneThread_ended : ∀ p ∈ oneThreadEnd.machine.created, oneThreadEnd.machine.pc (.thread p) = .halt := by
  decide +kernel

theorem thread_lifecycle_one :
    (∀ q, q ∈ oneThreadEnd.live ↔ q ∈ (∅ : Finset UInt32) ∨ q.toNat ∈ oneThreadEnd.machine.created) ∧
    ∃ bs', HeapInvariant oneThreadEnd.heap oneThreadEnd.live bs' ∧
      (freeSize bs' = freeSize [Kheap.initialBlock] ↔
        Throughout System.Steps (fun S c => ¬S.Serves c) freshSystem oneThread) :=
  thread_lifecycle (Kheap.kheapInit_invariant fun _ => 0) coldBoot (fun _ => 0) 0x100000 oneThread_run
    oneThread_fits oneThread_ended

/-- The `thread_t` of this thread is never given back. -/
theorem thread_lifecycle_leak :
    HeapInvariant freshSystem.heap ∅ [Kheap.initialBlock] ∧
    Trace System.Steps freshSystem oneThread oneThreadEnd ∧
    (∀ p ∈ oneThreadEnd.machine.created, oneThreadEnd.machine.pc (.thread p) = .halt) ∧
    ¬∃ bs', HeapInvariant oneThreadEnd.heap oneThreadEnd.live bs' ∧
      freeSize bs' = freeSize [Kheap.initialBlock] := by
  refine ⟨Kheap.kheapInit_invariant _, oneThread_run, oneThread_ended, ?_⟩
  rintro ⟨bs', hi, hfree⟩
  have hfresh := Kheap.kheapInit_invariant fun _ => 0
  obtain ⟨hacc, -⟩ := run_accounted hfresh coldBoot (fun _ => 0) 0x100000 oneThread_run oneThread_fits
  obtain ⟨bs'', hi', hiff⟩ := hacc.freeSize_iff hfresh oneThread_ended
  rw [hi.unique hi'] at hfree
  have hmade : oneThreadEnd.machine.created ≠ ∅ := by decide +kernel
  exact hmade (hiff.mp hfree)

end Results

end SBoy28.Scheduler
