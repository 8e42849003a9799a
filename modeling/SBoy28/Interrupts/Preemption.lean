import SBoy28.Interrupts.Stubs
import SBoy28.Scheduler.Switching

/-!
# Preemption

A tick of the timer interrupts a thread, its handler calls the scheduler, and the scheduler may switch to other
threads, each on its own stack, before it comes back to this one. Below the frame of the interrupt the thread may
then do anything.
-/

namespace SBoy28.Interrupts
open Lib
open Scheduler.Switching

variable {ι : Type*}

section Model

/-- The end of the stack of a thread. -/
def stackTop (L : Layout ι) (t : ι) : ℕ := (L.stack t).toNat + (L.stackSize t).toNat

variable [DecidableEq ι]

/-- A step of any thread, in which the thread `t` leaves alone what is on its stack from `f` on, as a C function
leaves alone the frames of its callers. -/
inductive Deep (L : Layout ι) (t : ι) (f : ℕ) (w : World ι) : World ι → Prop where
  | work (c : Cpu) (h : ∀ i, ¬L.OnStack w.running i → c.mem i = w.cpu.mem i)
      (hkeep : w.running = t → ∀ i, f ≤ i → i < stackTop L t → c.mem i = w.cpu.mem i) :
      Deep L t f w { w with cpu := c }
  | switch {next : ι} (h : Calls L w next) (hdeep : w.running = t → w.cpu.regs.esp.toNat ≤ f) (returnAddr : UInt32) :
      Deep L t f w (w.switchTo next returnAddr)

end Model

variable {L : Layout ι} {w w' : World ι} {t next : ι} {f : ℕ}

section Frame

lemma onStack_other {u : ι} (hne : u ≠ t) {i : ℕ} (hi : L.OnStack t i) : ¬L.OnStack u i := by
  have hapart := L.stacks_apart t u (Ne.symm hne)
  obtain ⟨hlo, hhi⟩ := hi
  rintro ⟨hlo', hhi'⟩
  omega

variable [DecidableEq ι]

lemma Deep.step (h : Deep L t f w w') : Step L w w' := by
  cases h with
  | work c hc _ => exact .work c hc
  | switch hcall _ returnAddr => exact .switch hcall returnAddr

/-- Above its own stack pointer a switch only writes to the `thread_t` of the thread that calls it. -/
lemma switch_above (h : Calls L w next) (returnAddr : UInt32) {i : ℕ} (hi : w.cpu.regs.esp.toNat ≤ i)
    (hthread : ¬((L.thread w.running).toNat ≤ i ∧ i < (L.thread w.running).toNat + 4)) :
    (w.switchTo next returnAddr).cpu.mem i = w.cpu.mem i := by
  have hroom := h.room
  have hargs := h.args
  have hend := L.stack_end w.running
  obtain ⟨m, hpusha, hsame, -⟩ := pusha_frame (L := L) w.cpu returnAddr (by omega)
  have hprevAddr : (w.cpu.regs.esp - 36 + 36).toNat = w.cpu.regs.esp.toNat := by
    rw [UInt32.sub_add_cancel]
  have hloadPrev : load32 m w.cpu.regs.esp.toNat = L.thread w.running := by
    rw [load32_frame w.cpu.mem _ fun i hi _ => hsame i (Or.inr hi), h.prevArg]
  have hmem : (w.switchTo next returnAddr).cpu.mem =
      store32 m (L.thread w.running).toNat (w.cpu.regs.esp - 36) := by
    simp only [World.switchTo, contextSwitch, Cpu.ret, Cpu.popa, Cpu.pop, hpusha, Cpu.setEax, Cpu.setEsp, hprevAddr,
      hloadPrev, L.thread_ne_zero, ite_false]
  rw [hmem, store32_outside _ _ (by omega)]
  exact hsame i (Or.inr hi)

lemma Deep.stack (h : Deep L t f w w') (hw : AllFramed L w) (hf : (L.stack t).toNat ≤ f) {i : ℕ} (hi : f ≤ i)
    (htop : i < stackTop L t) : w'.cpu.mem i = w.cpu.mem i := by
  have hon : L.OnStack t i := ⟨hf.trans hi, htop⟩
  unfold stackTop at htop
  cases h with
  | work c hc hkeep =>
    by_cases hrun : w.running = t
    · exact hkeep hrun i hi htop
    · exact hc i (onStack_other hrun hon)
  | @switch next hcall hdeep returnAddr =>
    have hthread := L.thread_outside w.running t
    by_cases hrun : w.running = t
    · exact switch_above hcall returnAddr ((hdeep hrun).trans hi) (by omega)
    · obtain ⟨-, honly, -⟩ := hcall.switch (hw next hcall.other) returnAddr
      exact honly i (onStack_other hrun hon) (by omega)

/-- Over any run the frame stays, whichever threads run in between. -/
lemma stack_run (hrun : Relation.ReflTransGen (Deep L t f) w w') (hw : AllFramed L w) (hf : (L.stack t).toNat ≤ f)
    {i : ℕ} (hi : f ≤ i) (htop : i < stackTop L t) : w'.cpu.mem i = w.cpu.mem i ∧ AllFramed L w' := by
  induction hrun with
  | refl => exact ⟨rfl, hw⟩
  | tail _ hs ih => exact ⟨(hs.stack ih.2 hf hi htop).trans ih.1, ih.2.step hs.step⟩

end Frame

section Preemption

variable [DecidableEq ι]

/-- A thread that is interrupted, also if the handler gives the processor to other threads for any number of times,
goes on with the registers, the flags and the stack that it had. -/
theorem preempted_thread_resumes {p q : Processor} {v : ℕ} {code offset : UInt32} (hp : p.cpu = w.cpu)
    (hw : ∀ u ≠ w.running, Holds L w.cpu.mem u (w.status u))
    (hv : v ≠ 17 ∧ v ≠ 21 ∧ v ≠ 29 ∧ v ≠ 30) (hseg : p.es = p.ds ∧ p.fs = p.ds ∧ p.gs = p.ds)
    (hroom : (L.stack w.running).toNat + 60 ≤ p.cpu.regs.esp.toNat)
    (htop : p.cpu.regs.esp.toNat ≤ stackTop L w.running)
    (hrun : Relation.ReflTransGen
      (Deep L w.running (interrupted p v code offset).cpu.regs.esp.toNat)
      { w with cpu := (interrupted p v code offset).cpu } w')
    (hq : q.cpu = w'.cpu) (hesp : q.cpu.regs.esp = (interrupted p v code offset).cpu.regs.esp) :
    Resumed (stackTop L w.running) p (commonExit q) := by
  have hend := L.stack_end w.running
  have hsome : (if pushesErrCode v then some code else none).isSome = pushesErrCode v := by
    cases pushesErrCode v <;> rfl
  obtain ⟨hlow, -, hsame⟩ := enter_frame (p := p) (if pushesErrCode v then some code else none) (stubOf v) 0x08 offset
    (by omega)
  have hlen : (entryWords p (if pushesErrCode v then some code else none) (stubOf v)).length ≤ 15 := by
    rw [entryWords_length]
    cases pushesErrCode v <;> cases (stubOf v).errCode <;> simp
  have hf : (L.stack w.running).toNat ≤ (interrupted p v code offset).cpu.regs.esp.toNat := by
    unfold interrupted
    omega
  have hwork : Step L w { w with cpu := (interrupted p v code offset).cpu } := by
    apply Step.work
    intro i hi
    rw [← hp]
    apply hsame
    unfold Layout.OnStack at hi
    unfold stackTop at htop
    omega
  have hframed : AllFramed L { w with cpu := (interrupted p v code offset).cpu } :=
    AllFramed.step (fun u hu => (hw u hu).framed) hwork
  have hhandles : Handles (stackTop L w.running) (interrupted p v code offset) q := by
    refine ⟨hesp, fun i hi hlt => ?_⟩
    rw [hq]
    exact (stack_run hrun hframed hf hi hlt).1
  unfold stackTop at htop hhandles ⊢
  exact (interrupt_resumes_iff (by omega) htop (by omega) hhandles).mpr ⟨hv, hseg⟩

end Preemption

section Witness

/-- The two arguments of `context_switch` pushed at an address of the stack. -/
def pushedArgs (L : Layout ι) (w : World ι) (esp : UInt32) (next : ι) : World ι :=
  { w with
    cpu :=
      { w.cpu with
        regs := { w.cpu.regs with esp := esp }
        mem := store32 (store32 w.cpu.mem (esp.toNat + 4) (L.thread next)) esp.toNat (L.thread w.running) } }

lemma calls_pushedArgs (esp : UInt32) (hne : next ≠ w.running) (hroom : (L.stack w.running).toNat + 36 ≤ esp.toNat)
    (hargs : esp.toNat + 8 ≤ stackTop L w.running) : Calls L (pushedArgs L w esp next) next where
  other := hne
  prevArg := load32_store32 _ _ _
  nextArg := by
    simp only [pushedArgs]
    rw [load32_store32_other _ _ (by omega), load32_store32]
  room := hroom
  args := hargs

section Run

variable [DecidableEq ι]

lemma deep_pushedArgs (esp : UInt32) (next : ι) (hroom : (L.stack w.running).toNat ≤ esp.toNat)
    (hargs : esp.toNat + 8 ≤ stackTop L w.running) (hdeep : w.running = t → esp.toNat + 8 ≤ f) :
    Deep L t f w (pushedArgs L w esp next) := by
  unfold stackTop at hargs
  apply Deep.work
  · intro i hi
    unfold Layout.OnStack at hi
    dsimp only
    rw [store32_outside _ _ (by omega), store32_outside _ _ (by omega)]
  · intro hrun i hi _
    have hlow := hdeep hrun
    dsimp only
    rw [store32_outside _ _ (by omega), store32_outside _ _ (by omega)]

end Run

/-- A thread with a stack pointer in the middle of its stack. -/
def preempted : Processor where
  cpu := firstCall.cpu
  eflags := 0x202
  cs := 0x08
  ds := 0x10
  es := 0x10
  fs := 0x10
  gs := 0x10

/-- The tick arrives. -/
def tick : Processor := interrupted preempted 32 0 0x20100

/-- The handler of the tick switches to the second thread, and that one back. -/
def thereAndBack : World Bool :=
  let w := (pushedArgs twoThreads { firstCall with cpu := tick.cpu } 0x1027C0 true).switchTo true 0x10200
  (pushedArgs twoThreads w 0x104800 false).switchTo false 0x30010

/-- The first thread goes on. -/
theorem preempted_thread_resumes_tick : Resumed 0x103000 preempted
    (commonExit
      { tick with cpu := { thereAndBack.cpu with regs := { thereAndBack.cpu.regs with esp := 0x1027C8 } } }) := by
  have hholds : ∀ t ≠ firstCall.running, Holds twoThreads firstCall.cpu.mem t (firstCall.status t) := by
    intro t ht
    obtain rfl : t = true := by simpa [firstCall] using ht
    refine ⟨by decide, ?_, fun _ => 0, fun i hi => ?_⟩
    · simp [firstCall, twoThreads, load32_store32_other]
    · obtain ⟨hlo, -⟩ := hi
      have hlo' : 0x104000 ≤ i := hlo
      simp only [firstCall]
      rw [store32_outside _ _ (by omega), store32_outside _ _ (by omega), store32_outside _ _ (by omega)]
      rfl
  have hesp : tick.cpu.regs.esp = 0x1027C8 := (enter_cpu preempted none (stubOf 32) 0x08 0x20100).1
  have hf : (interrupted preempted 32 0 0x20100).cpu.regs.esp.toNat = 0x1027C8 := congrArg UInt32.toNat hesp
  have hthere : Relation.ReflTransGen (Deep twoThreads false 0x1027C8) { firstCall with cpu := tick.cpu }
      ((pushedArgs twoThreads { firstCall with cpu := tick.cpu } 0x1027C0 true).switchTo true 0x10200) := by
    refine .tail (.single (deep_pushedArgs 0x1027C0 true (by decide) (by decide) fun _ => by decide)) ?_
    exact .switch (calls_pushedArgs 0x1027C0 (by decide) (by decide) (by decide)) (fun _ => by decide) _
  have hback := hthere.tail (deep_pushedArgs 0x104800 false (by decide) (by decide) fun h => by cases h)
  have hswitch := hback.tail (.switch (calls_pushedArgs 0x104800 (show false ≠ true by decide) (by decide) (by decide))
    (fun h => by cases h) 0x30010)
  have hrun := hswitch.tail (.work { thereAndBack.cpu with regs := { thereAndBack.cpu.regs with esp := 0x1027C8 } }
    (fun _ _ => rfl) fun _ _ _ _ => rfl)
  rw [← hf] at hrun
  exact preempted_thread_resumes (w := firstCall) rfl hholds (by decide) (by decide) (by decide) (by decide) hrun rfl
    hesp.symm

end Witness

end SBoy28.Interrupts
