import SBoy28.Scheduler.Lifecycle
import SBoy28.Lib.Ia32

/-!
# The switch between threads

`context_switch.S` over registers and bytes. A thread that is not running has a frame on its own stack, to
which the `esp` of its `thread_t` points: the one that `prepare_stack` has built by hand, or the one that the
thread's own call of `context_switch` has pushed. No other thread changes it.
-/

namespace SBoy28.Scheduler.Switching
open Lib

variable {ι : Type*}

section Model

/-- `context_switch` from its entry on, where the stack holds the return address, `prev` and `next`. -/
def contextSwitch (c : Cpu) : Cpu :=
  let c := c.pusha
  let c := c.setEax (load32 c.mem (c.regs.esp + 36).toNat)
  let c := if c.regs.eax = 0 then c else { c with mem := store32 c.mem c.regs.eax.toNat c.regs.esp }
  let c := c.setEax (load32 c.mem (c.regs.esp + 40).toNat)
  let c := c.setEsp (load32 c.mem c.regs.eax.toNat)
  c.popa.ret

/-- The pointer that `prepare_stack` returns. -/
def preparedEsp (stackBase stackSize : UInt32) : UInt32 :=
  let sp := stackBase + stackSize
  let sp := sp - 4
  let sp := sp - 4
  let sp := sp - 4
  let sp := sp - 4
  sp - 32

/-- The `thread_t` and the stack of every thread, in memory of their own, and the address of
`thread_trampoline`. -/
structure Layout (ι : Type*) where
  thread : ι → UInt32
  stack : ι → UInt32
  stackSize : ι → UInt32
  trampoline : UInt32
  thread_ne_zero : ∀ t, thread t ≠ 0
  stack_end : ∀ t, (stack t).toNat + (stackSize t).toNat < 2 ^ 32
  stacks_apart : ∀ t u, t ≠ u → (stack t).toNat + (stackSize t).toNat ≤ (stack u).toNat ∨
    (stack u).toNat + (stackSize u).toNat ≤ (stack t).toNat
  threads_apart : ∀ t u, t ≠ u →
    (thread t).toNat + 4 ≤ (thread u).toNat ∨ (thread u).toNat + 4 ≤ (thread t).toNat
  thread_outside : ∀ t u, (thread t).toNat + 4 ≤ (stack u).toNat ∨
    (stack u).toNat + (stackSize u).toNat ≤ (thread t).toNat

/-- An address in the stack of a thread. -/
def Layout.OnStack (L : Layout ι) (t : ι) (i : ℕ) : Prop :=
  (L.stack t).toNat ≤ i ∧ i < (L.stack t).toNat + (L.stackSize t).toNat

/-- What a thread that is not running has last done: nothing yet, or a call of `context_switch` with these
registers, from which it is to return to this address. -/
inductive Status where
  | fresh (fn arg : UInt32)
  | suspended (regs : Registers) (returnAddr : UInt32)
  deriving DecidableEq, Repr

/-- The processor, which thread runs, and what the others have last done. -/
structure World (ι : Type*) where
  cpu : Cpu
  running : ι
  status : ι → Status

/-- The running thread is about to execute `call context_switch` with itself and `next` as the arguments on its
stack, where there is room for what the call pushes. -/
structure Calls (L : Layout ι) (w : World ι) (next : ι) : Prop where
  other : next ≠ w.running
  prevArg : load32 w.cpu.mem w.cpu.regs.esp.toNat = L.thread w.running
  nextArg : load32 w.cpu.mem (w.cpu.regs.esp.toNat + 4) = L.thread next
  room : (L.stack w.running).toNat + 36 ≤ w.cpu.regs.esp.toNat
  args : w.cpu.regs.esp.toNat + 8 ≤ (L.stack w.running).toNat + (L.stackSize w.running).toNat

variable [DecidableEq ι]

/-- The call, until `context_switch` has returned on the other stack. -/
def World.switchTo (w : World ι) (next : ι) (returnAddr : UInt32) : World ι where
  cpu := contextSwitch (w.cpu.push returnAddr)
  running := next
  status := Function.update w.status w.running (.suspended w.cpu.regs returnAddr)

/-- The running thread does anything to the registers and to its own stack, or it switches to another one. -/
inductive Step (L : Layout ι) (w : World ι) : World ι → Prop where
  | work (c : Cpu) (h : ∀ i, ¬L.OnStack w.running i → c.mem i = w.cpu.mem i) : Step L w { w with cpu := c }
  | switch {next : ι} (h : Calls L w next) (returnAddr : UInt32) : Step L w (w.switchTo next returnAddr)

end Model

section Specification

/-- What is in memory for a thread that is not running: its stack is as `prepare_stack` has left it, or it is
from its stack pointer on as the thread's `call` and the `pusha` of `context_switch` have left it. -/
def Holds (L : Layout ι) (m : Memory) (t : ι) : Status → Prop
  | .fresh fn arg =>
    48 ≤ (L.stackSize t).toNat ∧ load32 m (L.thread t).toNat = preparedEsp (L.stack t) (L.stackSize t) ∧
      ∃ m₀, ∀ i, L.OnStack t i → m i = prepareStack m₀ (L.stack t) (L.stackSize t) fn arg L.trampoline i
  | .suspended regs returnAddr =>
    ∃ c : Cpu, c.regs = regs ∧ (L.stack t).toNat + 36 ≤ regs.esp.toNat ∧
      regs.esp.toNat ≤ (L.stack t).toNat + (L.stackSize t).toNat ∧
      load32 m (L.thread t).toNat = (c.push returnAddr).pusha.regs.esp ∧
      ∀ i, (c.push returnAddr).pusha.regs.esp.toNat ≤ i → i < regs.esp.toNat →
        m i = (c.push returnAddr).pusha.mem i

/-- How a thread goes on: in `thread_trampoline` with its two arguments behind a return address, or with its
registers at the return address of its call. -/
def Resumes (L : Layout ι) (c : Cpu) : Status → Prop
  | .fresh fn arg => c.eip = L.trampoline ∧ load32 c.mem (c.regs.esp + 4).toNat = fn ∧
      load32 c.mem (c.regs.esp + 8).toNat = arg
  | .suspended regs returnAddr => c.regs = regs ∧ c.eip = returnAddr

end Specification

section Frames

variable {L : Layout ι} {m m' : Memory} {t : ι} {st : Status}

def Status.esp (L : Layout ι) (t : ι) : Status → UInt32
  | .fresh _ _ => L.stack t + L.stackSize t - 48
  | .suspended regs _ => regs.esp - 36

/-- The words of a frame. -/
def Status.words (L : Layout ι) : Status → List UInt32
  | .fresh fn arg => [0, 0, 0, 0, 0, 0, 0, 0, L.trampoline, 0, fn, arg]
  | .suspended r returnAddr => [r.edi, r.esi, r.ebp, r.esp - 4, r.ebx, r.edx, r.ecx, r.eax, returnAddr]

/-- The `esp` of a `thread_t` points to a frame in the stack of the thread. -/
structure Framed (L : Layout ι) (m : Memory) (t : ι) (st : Status) : Prop where
  saved : load32 m (L.thread t).toNat = st.esp L t
  low : (L.stack t).toNat ≤ (st.esp L t).toNat
  high : (st.esp L t).toNat + 4 * (st.words L).length ≤ (L.stack t).toNat + (L.stackSize t).toNat
  words : WordsAt m (st.esp L t).toNat (st.words L)

lemma Framed.congr (h : Framed L m t st) (hs : ∀ i, L.OnStack t i → m' i = m i)
    (ht : ∀ i, (L.thread t).toNat ≤ i → i < (L.thread t).toNat + 4 → m' i = m i) : Framed L m' t st where
  saved := (load32_frame m _ ht).trans h.saved
  low := h.low
  high := h.high
  words := by
    have hlow := h.low
    have hhigh := h.high
    exact h.words.congr fun i hi hlt => hs i ⟨by omega, by omega⟩

lemma preparedEsp_eq (stackBase stackSize : UInt32) :
    preparedEsp stackBase stackSize = stackBase + stackSize - 48 := by
  simp only [preparedEsp, sub_sub_eq_sub_add]
  rfl

lemma zeros {base size : UInt32} (hlo : 48 ≤ size.toNat) (hend : base.toNat + size.toNat < 2 ^ 32) (m : Memory)
    (k : ℕ) (hk : k ≤ 8) :
    WordsAt ((List.range k).foldl (fun m i => store32 m (base + size - 48 + 4 * UInt32.ofNat i).toNat 0) m)
        (base.toNat + size.toNat - 48) (List.replicate k 0) ∧
      ∀ i, base.toNat + size.toNat - 48 + 4 * k ≤ i →
        (List.range k).foldl (fun m i => store32 m (base + size - 48 + 4 * UInt32.ofNat i).toNat 0) m i = m i := by
  induction k with
  | zero => exact ⟨trivial, fun i _ => rfl⟩
  | succ k ih =>
    obtain ⟨hwords, hsame⟩ := ih (by omega)
    have haddr := register_toNat hlo hend (show k < 8 by omega)
    rw [List.range_succ, List.foldl_append, List.foldl_cons, List.foldl_nil, haddr, List.replicate_succ']
    refine ⟨?_, ?_⟩
    · rw [wordsAt_append, List.length_replicate, wordsAt_cons]
      refine ⟨hwords.congr fun i hi hlt => ?_, load32_store32 _ _ _, trivial⟩
      rw [List.length_replicate] at hlt
      exact store32_outside _ _ (by omega)
    · intro i hi
      rw [store32_outside _ _ (by omega), hsame i (by omega)]

/-- The frame that `prepare_stack` builds: four pushes and eight zeros. -/
lemma prepareStack_words {base size : UInt32} (hlo : 48 ≤ size.toNat) (hend : base.toNat + size.toNat < 2 ^ 32)
    (m : Memory) (fn arg trampoline : UInt32) : WordsAt (prepareStack m base size fn arg trampoline)
      (base.toNat + size.toNat - 48) ([0, 0, 0, 0, 0, 0, 0, 0] ++ [trampoline, 0, fn, arg]) := by
  have hsp : (base + size).toNat = base.toNat + size.toNat := toNat_add_of_lt hend
  obtain ⟨esp, m₁, hpush, hesp, -, hwords⟩ :=
    foldl_push [arg, fn, 0, trampoline] ⟨⟨0, 0, 0, 0, base + size, 0, 0, 0⟩, 0, m⟩ (by simp [hsp]; omega)
  have hm₁ : m₁ = store32 (store32 (store32 (store32 m (base + size - 4).toNat arg)
      (base + size - 4 - 4).toNat fn) (base + size - 4 - 4 - 4).toNat 0)
      (base + size - 4 - 4 - 4 - 4).toNat trampoline :=
    (congrArg Cpu.mem hpush).symm
  have h48 : base + size - 4 - 4 - 4 - 4 - 32 = base + size - 48 := preparedEsp_eq base size
  have hprepare : prepareStack m base size fn arg trampoline =
      (List.range 8).foldl (fun m i => store32 m (base + size - 48 + 4 * UInt32.ofNat i).toNat 0) m₁ := by
    rw [hm₁, prepareStack, h48]
  obtain ⟨hzeros, hsame⟩ := zeros hlo hend m₁ 8 le_rfl
  simp only [List.length_cons, List.length_nil] at hesp
  rw [hprepare, wordsAt_append]
  refine ⟨hzeros, ?_⟩
  have haddr : base.toNat + size.toNat - 48 + 4 * [0, 0, 0, 0, 0, 0, 0, (0 : UInt32)].length = esp.toNat := by
    simp only [List.length_cons, List.length_nil]
    omega
  rw [haddr]
  exact hwords.congr fun i hi _ => hsame i (by omega)

lemma pusha_frame (c : Cpu) (returnAddr : UInt32) (h : 36 ≤ c.regs.esp.toNat) :
    ∃ m, (c.push returnAddr).pusha = ⟨{ c.regs with esp := c.regs.esp - 36 }, c.eip, m⟩ ∧
      (∀ i, i < c.regs.esp.toNat - 36 ∨ c.regs.esp.toNat ≤ i → m i = c.mem i) ∧
      WordsAt m (c.regs.esp - 36).toNat ((Status.suspended c.regs returnAddr).words L) := by
  have hregs : (c.push returnAddr).regs = { c.regs with esp := c.regs.esp - 4 } := rfl
  have hpusha : (c.push returnAddr).pusha = [returnAddr, c.regs.eax, c.regs.ecx, c.regs.edx, c.regs.ebx,
      c.regs.esp - 4, c.regs.ebp, c.regs.esi, c.regs.edi].foldl Cpu.push c := by
    simp only [Cpu.pusha, hregs, List.foldl_cons, List.foldl_nil]
  obtain ⟨esp, m, hpush, hesp, hsame, hwords⟩ := foldl_push [returnAddr, c.regs.eax, c.regs.ecx, c.regs.edx,
    c.regs.ebx, c.regs.esp - 4, c.regs.ebp, c.regs.esi, c.regs.edi] c (by simpa using h)
  simp only [List.length_cons, List.length_nil] at hesp
  have h36 : (36 : UInt32).toNat = 36 := rfl
  have hval : (c.regs.esp - 36).toNat = c.regs.esp.toNat - 36 := toNat_sub_of_le h
  have hsub : esp = c.regs.esp - 36 := UInt32.toNat_inj.mp (by omega)
  subst hsub
  exact ⟨m, hpusha.trans hpush, fun i hi => hsame i (by omega), hwords⟩

lemma Holds.framed (h : Holds L m t st) : Framed L m t st := by
  have hend := L.stack_end t
  cases st with
  | fresh fn arg =>
    obtain ⟨hlo, hsaved, m₀, hstack⟩ := h
    have hsp : (L.stack t + L.stackSize t).toNat = (L.stack t).toNat + (L.stackSize t).toNat := toNat_add_of_lt hend
    have h48 : (48 : UInt32).toNat = 48 := rfl
    have hesp : (L.stack t + L.stackSize t - 48).toNat = (L.stack t).toNat + (L.stackSize t).toNat - 48 := by
      rw [toNat_sub_of_le (by omega), hsp, h48]
    refine ⟨by rw [hsaved, preparedEsp_eq]; rfl, ?_, ?_, ?_⟩
    · simp only [Status.esp]
      omega
    · simp only [Status.esp, Status.words, List.length_cons, List.length_nil]
      omega
    · simp only [Status.esp, hesp]
      refine (prepareStack_words hlo hend m₀ fn arg L.trampoline).congr fun i hi hlt => hstack i ⟨by omega, ?_⟩
      simp only [List.length_append, List.length_cons, List.length_nil] at hlt
      omega
  | suspended regs returnAddr =>
    obtain ⟨c, rfl, hlow, hhigh, hsaved, hframe⟩ := h
    obtain ⟨m₁, hpusha, -, hwords⟩ := pusha_frame (L := L) c returnAddr (by omega)
    have hval : (c.regs.esp - 36).toNat = c.regs.esp.toNat - 36 := toNat_sub_of_le (show 36 ≤ _ by omega)
    rw [hpusha] at hsaved hframe
    refine ⟨hsaved, ?_, ?_, ?_⟩
    · simp only [Status.esp]
      omega
    · simp only [Status.esp, Status.words, List.length_cons, List.length_nil]
      omega
    · refine hwords.congr fun i hi hlt => hframe i hi ?_
      simp only [Status.words, List.length_cons, List.length_nil] at hlt
      omega

end Frames

section Switch

variable {L : Layout ι} {w w' : World ι} {next t : ι} {st : Status} {m m' : Memory}

/-- Memory that changes on the stack and in the `thread_t` of one thread only. -/
def OnlyOf (L : Layout ι) (p : ι) (m m' : Memory) : Prop :=
  ∀ i, ¬L.OnStack p i → ¬((L.thread p).toNat ≤ i ∧ i < (L.thread p).toNat + 4) → m' i = m i

lemma Framed.other (h : Framed L m t st) {p : ι} (hne : t ≠ p) (hm : OnlyOf L p m m') : Framed L m' t st := by
  have hstacks := L.stacks_apart t p hne
  have hthreads := L.threads_apart t p hne
  have hp := L.thread_outside p t
  have ht := L.thread_outside t p
  refine h.congr (fun i hi => hm i ?_ ?_) (fun i hi hlt => hm i ?_ ?_)
  · rintro ⟨hlo, hhi⟩
    obtain ⟨hlo', hhi'⟩ := hi
    omega
  · rintro ⟨hlo, hhi⟩
    obtain ⟨hlo', hhi'⟩ := hi
    omega
  · rintro ⟨hlo, hhi⟩
    omega
  · rintro ⟨hlo, hhi⟩
    omega

lemma Framed.resumes (h : Framed L m t st) (c : Cpu) (hm : c.mem = m) (hesp : c.regs.esp = st.esp L t) :
    Resumes L c.popa.ret st ∧ c.popa.ret.mem = m := by
  have hend := L.stack_end t
  have hhigh := h.high
  have hwords := h.words
  cases st with
  | fresh fn arg =>
    simp only [Status.words, List.length_cons, List.length_nil] at hhigh hwords
    rw [← hm, ← hesp] at hwords
    rw [← hesp] at hhigh
    have hsplit : WordsAt c.mem c.regs.esp.toNat ([0, 0, 0, 0, 0, 0, 0, 0, L.trampoline] ++ [0, fn, arg]) := hwords
    obtain ⟨hframe, -, hfn, harg, -⟩ := wordsAt_append.mp hsplit
    have h36 : (36 : UInt32).toNat = 36 := rfl
    have hsum : (c.regs.esp + 36).toNat = c.regs.esp.toNat + 36 := toNat_add_of_lt (by omega)
    have haddr : ∀ k : UInt32, k.toNat ≤ 8 → (c.regs.esp + 36 + k).toNat = c.regs.esp.toNat + 36 + k.toNat := by
      intro k hk
      rw [toNat_add_of_lt (by omega), hsum]
    rw [ret_popa (by omega) hframe]
    refine ⟨⟨rfl, ?_, ?_⟩, hm⟩
    · rw [haddr 4 (by decide)]
      exact hfn
    · rw [haddr 8 (by decide)]
      exact harg
  | suspended r returnAddr =>
    simp only [Status.words, List.length_cons, List.length_nil] at hhigh hwords
    rw [← hm, ← hesp] at hwords
    rw [← hesp] at hhigh
    have hback : c.regs.esp + 36 = r.esp := by
      rw [hesp, Status.esp, UInt32.sub_add_cancel]
    rw [ret_popa (by omega) hwords, hback]
    exact ⟨⟨rfl, rfl⟩, hm⟩

variable [DecidableEq ι]

/-- The registers and the memory with which `context_switch` reaches its `popa`. -/
lemma Calls.reaches_popa (h : Calls L w next) (hf : Framed L w.cpu.mem next st) (returnAddr : UInt32) :
    ∃ c : Cpu, (w.switchTo next returnAddr).cpu = c.popa.ret ∧ c.regs.esp = st.esp L next ∧
      OnlyOf L w.running w.cpu.mem c.mem ∧ Framed L c.mem w.running (.suspended w.cpu.regs returnAddr) := by
  have hroom := h.room
  have hargs := h.args
  have hend := L.stack_end w.running
  have hprev := L.thread_outside w.running w.running
  obtain ⟨m, hpusha, hsame, hwords⟩ := pusha_frame (L := L) w.cpu returnAddr (by omega)
  have hesp : (w.cpu.regs.esp - 36).toNat = w.cpu.regs.esp.toNat - 36 := toNat_sub_of_le (show 36 ≤ _ by omega)
  have hprevAddr : (w.cpu.regs.esp - 36 + 36).toNat = w.cpu.regs.esp.toNat := by rw [UInt32.sub_add_cancel]
  have hnextAddr : (w.cpu.regs.esp - 36 + 40).toNat = w.cpu.regs.esp.toNat + 4 := by
    have h40 : (40 : UInt32).toNat = 40 := rfl
    rw [toNat_add_of_lt (by omega), hesp, h40]
    omega
  obtain ⟨m₂, hm₂⟩ : ∃ m₂, m₂ = store32 m (L.thread w.running).toNat (w.cpu.regs.esp - 36) := ⟨_, rfl⟩
  have honly : OnlyOf L w.running w.cpu.mem m₂ := by
    intro i hstack hthread
    rw [hm₂, store32_outside _ _ (by omega)]
    refine hsame i ?_
    by_contra hin
    exact hstack ⟨by omega, by omega⟩
  have hloadPrev : load32 m w.cpu.regs.esp.toNat = L.thread w.running := by
    rw [load32_frame w.cpu.mem _ fun i hi _ => hsame i (Or.inr hi), h.prevArg]
  have hloadNext : load32 m₂ (w.cpu.regs.esp.toNat + 4) = L.thread next := by
    rw [hm₂, load32_store32_other _ _ (by omega), load32_frame w.cpu.mem _ fun i hi _ => hsame i (by omega),
      h.nextArg]
  have hloadEsp : load32 m₂ (L.thread next).toNat = st.esp L next := (hf.other h.other honly).saved
  refine ⟨⟨{ w.cpu.regs with eax := L.thread next, esp := st.esp L next }, w.cpu.eip, m₂⟩,
    ?_, rfl, honly, ?_, ?_, ?_, ?_⟩
  · simp only [World.switchTo, contextSwitch, hpusha, Cpu.setEax, Cpu.setEsp, hprevAddr, hnextAddr, hloadPrev,
      L.thread_ne_zero, ite_false, ← hm₂, hloadNext, hloadEsp]
  · simp only [hm₂, load32_store32, Status.esp]
  · simp only [Status.esp]
    omega
  · simp only [Status.esp, Status.words, List.length_cons, List.length_nil]
    omega
  · refine hwords.congr fun i hi hlt => ?_
    simp only [Status.words, List.length_cons, List.length_nil] at hlt
    simp only [hm₂]
    exact store32_outside _ _ (by omega)

/-- What the call does: it leaves a frame of the caller, changes nothing of the other threads, and resumes from the
frame of the other thread. -/
theorem Calls.switch (h : Calls L w next) (hf : Framed L w.cpu.mem next st) (returnAddr : UInt32) :
    Resumes L (w.switchTo next returnAddr).cpu st ∧
      OnlyOf L w.running w.cpu.mem (w.switchTo next returnAddr).cpu.mem ∧
      Framed L (w.switchTo next returnAddr).cpu.mem w.running (.suspended w.cpu.regs returnAddr) := by
  obtain ⟨c, hcpu, hesp, honly, hframed⟩ := h.reaches_popa hf returnAddr
  obtain ⟨hresumes, hmem⟩ := (hf.other h.other honly).resumes c rfl hesp
  rw [hcpu, hmem]
  exact ⟨hresumes, honly, hframed⟩

end Switch

section Runs

variable [DecidableEq ι] {L : Layout ι} {w w' : World ι} {next t : ι}

/-- Every thread that does not run has its frame. -/
def AllFramed (L : Layout ι) (w : World ι) : Prop := ∀ t ≠ w.running, Framed L w.cpu.mem t (w.status t)

lemma AllFramed.step (h : AllFramed L w) (hs : Step L w w') : AllFramed L w' := by
  cases hs with
  | work c hc =>
    intro t ht
    refine (h t ht).other ht fun i hi _ => hc i hi
  | @switch next hcall returnAddr =>
    obtain ⟨-, honly, hframed⟩ := hcall.switch (h next hcall.other) returnAddr
    intro t ht
    simp only [World.switchTo] at ht ⊢
    by_cases htr : t = w.running
    · subst htr
      rw [Function.update_self]
      exact hframed
    · rw [Function.update_of_ne htr]
      exact (h t htr).other htr honly

lemma AllFramed.run (h : AllFramed L w) (hrun : Relation.ReflTransGen (Step L) w w') : AllFramed L w' := by
  induction hrun with
  | refl => exact h
  | tail _ hs ih => exact ih.step hs

/-- The steps of the others do not touch what a thread has last done. -/
lemma Step.status (hs : Step L w w') (ht : t ≠ w.running) : w'.status t = w.status t := by
  cases hs with
  | work c hc => rfl
  | switch hcall returnAddr => exact Function.update_of_ne ht _ _

lemma status_run (hrun : Relation.ReflTransGen (fun a b => Step L a b ∧ b.running ≠ t) w w')
    (ht : t ≠ w.running) :
    w'.status t = w.status t ∧ t ≠ w'.running := by
  induction hrun with
  | refl => exact ⟨rfl, ht⟩
  | tail _ hs ih => exact ⟨(hs.1.status ih.2).trans ih.1, hs.2.symm⟩

/-- From any threads that are fresh or suspended, after any switches between them, where a running thread writes to
its own stack only: a switch resumes the other thread as its status says. In particular a thread that has called
`context_switch` is, when it is dispatched next, at the return address of that call with all its registers. -/
theorem context_switch_transparent (h : ∀ t ≠ w.running, Holds L w.cpu.mem t (w.status t))
    (hrun : Relation.ReflTransGen (Step L) w w') :
    (∀ next, Calls L w' next → ∀ returnAddr,
      Resumes L (w'.switchTo next returnAddr).cpu (w'.status next)) ∧
    ∀ next, Calls L w' next → ∀ (returnAddr : UInt32) (w'' : World ι),
      Relation.ReflTransGen (fun a b => Step L a b ∧ b.running ≠ w'.running) (w'.switchTo next returnAddr) w'' →
      Calls L w'' w'.running → ∀ addr, (w''.switchTo w'.running addr).cpu.regs = w'.cpu.regs ∧
        (w''.switchTo w'.running addr).cpu.eip = returnAddr := by
  have hframed : AllFramed L w' := AllFramed.run (fun t ht => (h t ht).framed) hrun
  refine ⟨fun next hcall returnAddr => (hcall.switch (hframed next hcall.other) returnAddr).1, ?_⟩
  intro next hcall returnAddr w'' hcontinue hcall' addr
  have hswitched : AllFramed L (w'.switchTo next returnAddr) := hframed.step (.switch hcall returnAddr)
  have hlater : AllFramed L w'' := hswitched.run (hcontinue.lift id fun a b hs => hs.1)
  have hstatus : w''.status w'.running = .suspended w'.cpu.regs returnAddr := by
    rw [(status_run hcontinue (fun he => hcall.other he.symm)).1]
    exact Function.update_self _ _ _
  have hresumes := (hcall'.switch (hlater _ hcall'.other) addr).1
  rw [hstatus] at hresumes
  exact hresumes

/-- Two threads with stacks of 4096 bytes. -/
def twoThreads : Layout Bool where
  thread t := if t then 0x100020 else 0x100000
  stack t := if t then 0x104000 else 0x102000
  stackSize _ := 0x1000
  trampoline := 0x20000
  thread_ne_zero := by decide
  stack_end := by decide
  stacks_apart := by decide
  threads_apart := by decide
  thread_outside := by decide

/-- The first thread runs and has pushed the arguments of a call, and the second one is fresh. -/
def firstCall : World Bool where
  cpu :=
    { regs := ⟨1, 2, 3, 4, 0x102800, 6, 7, 8⟩
      eip := 0x10100
      mem := store32 (store32 (store32 (prepareStack (fun _ => 0) 0x104000 0x1000 0x30000 7 0x20000) 0x100020
        (preparedEsp 0x104000 0x1000)) 0x102800 0x100000) 0x102804 0x100020 }
  running := false
  status _ := .fresh 0x30000 7

lemma firstCall_holds : ∀ t ≠ firstCall.running, Holds twoThreads firstCall.cpu.mem t (firstCall.status t) := by
  intro t ht
  obtain rfl : t = true := by simpa [firstCall] using ht
  refine ⟨by decide, ?_, fun _ => 0, fun i hi => ?_⟩
  · simp [firstCall, twoThreads, load32_store32_other]
  · obtain ⟨hlo, -⟩ := hi
    have hlo' : 0x104000 ≤ i := hlo
    simp only [firstCall]
    rw [store32_outside _ _ (by omega), store32_outside _ _ (by omega), store32_outside _ _ (by omega)]
    rfl

lemma firstCall_calls : Calls twoThreads firstCall true := by
  refine ⟨by decide, ?_, ?_, by decide, by decide⟩
  · simp [firstCall, twoThreads, load32_store32_other]
  · simp [firstCall, twoThreads]

/-- The second thread has been started, and has pushed the arguments of a call that switches back. -/
def secondCall : World Bool :=
  let w := firstCall.switchTo true 0x10105
  { w with cpu :=
    { regs := ⟨8, 7, 6, 5, 0x104800, 3, 2, 1⟩
      eip := 0x30010
      mem := store32 (store32 w.cpu.mem 0x104800 0x100020) 0x104804 0x100000 } }

lemma secondCall_calls : Calls twoThreads secondCall false := by
  refine ⟨by decide, ?_, ?_, by decide, by decide⟩
  · simp [secondCall, twoThreads, World.switchTo, load32_store32_other]
  · simp [secondCall, twoThreads]

lemma secondCall_run : Relation.ReflTransGen (Step twoThreads) firstCall secondCall := by
  refine (Relation.ReflTransGen.single (.switch firstCall_calls 0x10105)).tail (.work _ ?_)
  intro i hi
  have hout : ¬(0x104000 ≤ i ∧ i < 0x104000 + 0x1000) := hi
  simp only
  rw [store32_outside _ _ (by omega), store32_outside _ _ (by omega)]

/-- The second thread starts in `thread_trampoline`, and its switch back resumes the first one behind its call. -/
theorem context_switch_transparent_back : (firstCall.switchTo true 0x10105).cpu.eip = 0x20000 ∧
    (secondCall.switchTo false 0x30015).cpu.regs = firstCall.cpu.regs ∧
    (secondCall.switchTo false 0x30015).cpu.eip = 0x10105 :=
  ⟨((context_switch_transparent firstCall_holds .refl).1 true firstCall_calls 0x10105).1,
    (context_switch_transparent firstCall_holds secondCall_run).1 false secondCall_calls 0x30015⟩

end Runs

section Scheduler

/-- The model of the scheduler takes the `esp` of a `thread_t` for the context that is suspended there. -/
structure Represents (w : World ThreadPtr) (s : Sched) : Prop where
  running : s.running = .thread w.running
  esp : ∀ t ≠ w.running, (s.threads t).esp = .thread t

/-- The switch of registers and stacks is the one of the scheduler's model. -/
theorem Represents.switch {w : World ThreadPtr} {s : Sched} (h : Represents w s) {next : ThreadPtr}
    (hne : next ≠ w.running) (returnAddr : UInt32) :
    Represents (w.switchTo next returnAddr) (Scheduler.contextSwitch s (some w.running) next) where
  running := by
    rw [running_contextSwitch _ _ _ (fun he => hne (Option.some.inj he).symm)]
    exact h.esp next hne
  esp t ht := by
    rw [esp_contextSwitch]
    by_cases htr : t = w.running
    · rw [if_pos (by rw [htr]), h.running, htr]
    · rw [if_neg (fun he => htr (Option.some.inj he).symm)]
      exact h.esp t htr

end Scheduler

end SBoy28.Scheduler.Switching
