import SBoy28.Lib.Pic
import SBoy28.Interrupts.Stubs

/-!
# The interrupt lines

`idt.c` at the two interrupt controllers: `init_idt` remaps them, and `irq_handler` announces the end of an interrupt
before it calls the handler that is registered. What a device sees of all this is a set of pending lines of which the
processor always takes the one of the highest priority.
-/

namespace SBoy28.Interrupts
open Lib

section Model

/-- The writes of `init_idt` to the ports of the controllers. -/
def remapPic : List (UInt16 × UInt8) :=
  [(0x20, 0x11), (0xA0, 0x11), (0x21, 0x20), (0xA1, 0x28), (0x21, 0x04), (0xA1, 0x02), (0x21, 0x01), (0xA1, 0x01),
    (0x21, 0x0), (0xA1, 0x0)]

inductive Action where
  | outb (port : UInt16) (v : UInt8)
  | call (intNo : ℕ)
  deriving DecidableEq, Repr

/-- `irq_handler`. -/
def irqHandler (intNo : ℕ) : List Action :=
  (if 40 ≤ intNo then [.outb 0xA0 0x20] else []) ++ [.outb 0x20 0x20, .call intNo]

variable {α : Type*}

/-- The controllers, the interrupt flag of the processor, what is left of `irq_handler`, and the calls that it has
made so far. -/
structure Irqs (α : Type*) where
  pics : PicPair
  interruptFlag : Bool
  code : List Action
  calls : List α

inductive Event where
  | raise (line : ℕ)
  | accept
  | work
  | flag (b : Bool)
  deriving DecidableEq, Repr

/-- A device raises a line, the processor takes an interrupt, it goes on in `irq_handler`, or the flag changes by
`sti`, `cli`, `popf` or `iret` of any thread; `irq_handler` itself does not change it. -/
def Irqs.step (interruptHandlers : ℕ → Option α) (s : Irqs α) : Event → Irqs α
  | .raise line => { s with pics := s.pics.raise line }
  | .accept =>
    if s.interruptFlag then
      s.pics.acknowledge.elim s fun r => { s with pics := r.2, interruptFlag := false, code := irqHandler r.1 }
    else s
  | .work =>
    match s.code with
    | [] => s
    | .outb port v :: code => { s with pics := s.pics.outb port v, code := code }
    | .call intNo :: code => { s with code := code, calls := s.calls ++ (interruptHandlers intNo).toList }
  | .flag b => if s.code = [] then { s with interruptFlag := b } else s

/-- After `init_idt`, whatever the controllers have been used for before. -/
def Irqs.boot (p : PicPair) : Irqs α where
  pics := remapPic.foldl (fun p w => p.outb w.1 w.2) p
  interruptFlag := false
  code := []
  calls := []

end Model

section Specification

variable {α : Type*}

/-- The lines from the highest priority to the lowest one. -/
def priorities : List ℕ := [0, 1] ++ (List.range 8).map (8 + ·) ++ [3, 4, 5, 6, 7]

/-- The pending lines, and the line that is being served with the number of announcements before the call. -/
structure Lines (α : Type*) where
  pending : ℕ → Bool
  interruptFlag : Bool
  serving : Option (ℕ × ℕ)
  calls : List α

def Lines.step (interruptHandlers : ℕ → Option α) (l : Lines α) : Event → Lines α
  | .raise line =>
    if line ∈ priorities then { l with pending := Function.update l.pending line true } else l
  | .accept =>
    if l.interruptFlag then
      (priorities.find? l.pending).elim l fun line =>
        { l with
          pending := Function.update l.pending line false
          interruptFlag := false
          serving := some (line, if 8 ≤ line then 2 else 1) }
    else l
  | .work =>
    match l.serving with
    | none => l
    | some (line, n + 1) => { l with serving := some (line, n) }
    | some (line, 0) => { l with serving := none, calls := l.calls ++ (interruptHandlers (32 + line)).toList }
  | .flag b => if l.serving = none then { l with interruptFlag := b } else l

def Lines.start : Lines α := ⟨fun _ => false, false, none, []⟩

end Specification

section Acknowledge

variable {p : PicPair}

/-- The controllers after the processor has taken the interrupt of a line. -/
def takes (p : PicPair) (line : ℕ) : PicPair :=
  if line < 8 then { p with master := p.master.acknowledge line }
  else ⟨p.master.acknowledge 2, p.slave.acknowledge (line - 8)⟩

lemma find?_low {l : List ℕ} (hl : ∀ k ∈ l, k < 8) : l.find? p.latched = l.find? p.master.requested := by
  apply List.find?_congr
  intro k hk
  exact if_pos (hl k hk)

lemma find?_high : ((List.range 8).map (8 + ·)).find? p.latched =
    ((List.range 8).find? p.slave.requested).map (8 + ·) := by
  rw [List.find?_map]
  refine congrArg (Option.map (8 + ·)) ?_
  apply List.find?_congr
  intro k _
  rw [Function.comp_apply, PicPair.latched, if_neg (by omega), Nat.add_sub_cancel_left]

/-- The first controller asks for its own lines around line 2, where the second one asks for its lines. -/
lemma cascaded_next (hm : p.master.Configured 0x20 0x04) (hserves : p.master.Serves none)
    (hc : p.master.requested 2 = false) : p.cascaded.next =
      ([0, 1].find? p.master.requested).or ((if p.slave.next.isSome then some 2 else none).or
        ([3, 4, 5, 6, 7].find? p.master.requested)) := by
  have hrange : List.range 8 = [0, 1] ++ ([2] ++ [3, 4, 5, 6, 7]) := rfl
  unfold PicPair.cascaded
  by_cases hslave : p.slave.next.isSome = true
  · rw [if_pos hslave, if_pos hslave, Pic.next_idle (hm.raise 2).mask hserves, hrange, List.find?_append,
      List.find?_append]
    have hother : ∀ l : List ℕ, 2 ∉ l → l.find? (p.master.raise 2).requested = l.find? p.master.requested := by
      intro l hl
      apply List.find?_congr
      intro k hk
      apply Function.update_of_ne
      rintro rfl
      exact hl hk
    have htwo : [2].find? (p.master.raise 2).requested = some 2 := by simp [Pic.raise]
    rw [hother [0, 1] (by decide), hother [3, 4, 5, 6, 7] (by decide), htwo]
  · rw [if_neg hslave, if_neg hslave, Pic.next_idle hm.mask hserves, hrange, List.find?_append, List.find?_append]
    have htwo : [2].find? p.master.requested = none := by simp [hc]
    rw [htwo]

/-- When nothing is in service the processor is interrupted for the pending line of the highest priority. -/
theorem acknowledge_eq (hm : p.master.Configured 0x20 0x04) (hs : p.slave.Configured 0x28 0x02)
    (hmaster : p.master.Serves none) (hslave : p.slave.Serves none) (hc : p.master.requested 2 = false) :
    p.acknowledge = (priorities.find? p.latched).map fun line => (32 + line, takes p line) := by
  have hfour : (0x04 : UInt8).toNat = 2 ^ 2 := rfl
  have hbit : ∀ k, p.master.cascade.toNat.testBit k = decide (2 = k) := by
    intro k
    rw [hm.cascade, hfour, Nat.testBit_two_pow]
  have hown : ∀ l : List ℕ, (∀ k ∈ l, k < 8 ∧ 2 ≠ k) → ∀ k, l.find? p.master.requested = some k →
      p.answer k = (32 + k, takes p k) := by
    intro l hl k hk
    obtain ⟨hlt, hne⟩ := hl k (List.mem_of_find?_eq_some hk)
    rw [PicPair.answer, hbit k, decide_eq_false hne, if_neg Bool.false_ne_true, takes, if_pos hlt, hm.vectorBase]
    rfl
  have hnext := Pic.next_idle hs.mask hslave
  unfold PicPair.acknowledge
  rw [cascaded_next hm hmaster hc, priorities, List.find?_append, List.find?_append, find?_low (by decide),
    find?_high, find?_low (by decide), ← hnext]
  cases hfirst : [0, 1].find? p.master.requested with
  | some k => exact congrArg some (hown _ (by decide) k hfirst)
  | none =>
    cases hsecond : p.slave.next with
    | some j =>
      have hanswer : p.answer 2 = (40 + j, ⟨p.master.acknowledge 2, p.slave.acknowledge j⟩) := by
        rw [PicPair.answer, hbit 2, decide_eq_true rfl, if_pos rfl, hsecond, hs.vectorBase]
        rfl
      have htakes : takes p (8 + j) = ⟨p.master.acknowledge 2, p.slave.acknowledge j⟩ := by
        rw [takes, if_neg (by omega), Nat.add_sub_cancel_left]
      have hvector : 32 + (8 + j) = 40 + j := by omega
      exact (congrArg some hanswer).trans (congrArg some (by beta_reduce; rw [htakes, hvector]))
    | none =>
      cases hlast : [3, 4, 5, 6, 7].find? p.master.requested with
      | some k => exact congrArg some (hown _ (by decide) k hlast)
      | none => rfl

end Acknowledge

section Refinement

variable {α : Type*} {interruptHandlers : ℕ → Option α} {s : Irqs α} {l : Lines α}

/-- Which lines are in service while `irq_handler` runs. -/
inductive Phase : List Action → Option (ℕ × ℕ) → Option ℕ → Option ℕ → Prop where
  | idle : Phase [] none none none
  | call (line : ℕ) : Phase [.call (32 + line)] (some (line, 0)) none none
  | master (line : ℕ) {k : ℕ} (hk : k < 8) :
      Phase [.outb 0x20 0x20, .call (32 + line)] (some (line, 1)) (some k) none
  | slave (line : ℕ) {k : ℕ} (hk : k < 8) :
      Phase [.outb 0xA0 0x20, .outb 0x20 0x20, .call (32 + line)] (some (line, 2)) (some 2) (some k)

lemma Phase.nil {serving : Option (ℕ × ℕ)} {k j : Option ℕ} (h : Phase [] serving k j) :
    serving = none ∧ k = none ∧ j = none := by
  cases h
  exact ⟨rfl, rfl, rfl⟩

lemma Phase.nil_iff {code : List Action} {serving : Option (ℕ × ℕ)} {k j : Option ℕ} (h : Phase code serving k j) :
    code = [] ↔ serving = none := by
  cases h <;> simp

lemma Phase.call_mem {code : List Action} {serving : Option (ℕ × ℕ)} {k j : Option ℕ} {line : ℕ}
    (h : Phase code serving k j) : .call (32 + line) ∈ code ↔ serving.map Prod.fst = some line := by
  cases h <;> simp [eq_comm]

structure Represents (s : Irqs α) (l : Lines α) : Prop where
  master : s.pics.master.Configured 0x20 0x04
  slave : s.pics.slave.Configured 0x28 0x02
  cascade : s.pics.master.requested 2 = false
  pending : l.pending = s.pics.latched
  interruptFlag : s.interruptFlag = l.interruptFlag
  calls : s.calls = l.calls
  service : ∃ k j, s.pics.master.Serves k ∧ s.pics.slave.Serves j ∧ Phase s.code l.serving k j
  disabled : s.code ≠ [] → s.interruptFlag = false

lemma represents_boot (p : PicPair) : Represents (α := α) (Irqs.boot p) Lines.start := by
  refine ⟨⟨rfl, rfl, rfl, rfl, rfl⟩, ⟨rfl, rfl, rfl, rfl, rfl⟩, rfl, ?_, rfl, rfl, ⟨none, none, ?_, ?_, .idle⟩, ?_⟩
  · funext k
    exact (ite_self _).symm
  · funext j
    rfl
  · funext j
    rfl
  · exact fun h => absurd rfl h

lemma mem_priorities {line : ℕ} : line ∈ priorities ↔ ¬(line = 2 ∨ 16 ≤ line) := by
  have hlist : priorities = [0, 1, 8, 9, 10, 11, 12, 13, 14, 15, 3, 4, 5, 6, 7] := rfl
  simp only [hlist, List.mem_cons, List.not_mem_nil, or_false]
  omega

lemma Represents.raise (h : Represents s l) (line : ℕ) :
    Represents (s.step interruptHandlers (.raise line)) (l.step interruptHandlers (.raise line)) := by
  unfold Irqs.step Lines.step
  dsimp only
  by_cases hnone : line = 2 ∨ 16 ≤ line
  · rw [if_neg (fun hmem => mem_priorities.mp hmem hnone), PicPair.raise, if_pos hnone]
    exact h
  · have hpending : Function.update l.pending line true = (s.pics.raise line).latched := by
      rw [PicPair.latched_raise hnone, h.pending]
    rw [if_pos (mem_priorities.mpr hnone)]
    by_cases hlow : line < 8
    · have hraise : s.pics.raise line = { s.pics with master := s.pics.master.raise line } := by
        rw [PicPair.raise, if_neg hnone, if_pos hlow]
      rw [hraise] at hpending ⊢
      refine ⟨h.master.raise line, h.slave, ?_, hpending, h.interruptFlag, h.calls, h.service, h.disabled⟩
      exact (Function.update_of_ne (fun he => hnone (Or.inl he.symm)) _ _).trans h.cascade
    · have hraise : s.pics.raise line = { s.pics with slave := s.pics.slave.raise (line - 8) } := by
        rw [PicPair.raise, if_neg hnone, if_neg hlow]
      rw [hraise] at hpending ⊢
      exact ⟨h.master, h.slave.raise _, h.cascade, hpending, h.interruptFlag, h.calls, h.service, h.disabled⟩

/-- What has been taken is pending no more. -/
lemma latched_takes {p : PicPair} (hc : p.master.requested 2 = false) (line : ℕ) :
    (takes p line).latched = Function.update p.latched line false := by
  funext k
  rw [Function.update_apply]
  by_cases hline : line < 8
  · simp only [takes, hline, if_true, PicPair.latched, Pic.acknowledge, Function.update_apply]
    by_cases hk : k = line
    · rw [if_pos hk, if_pos hk, if_pos (by omega)]
    · rw [if_neg hk, if_neg hk]
  · simp only [takes, hline, if_false, PicPair.latched, Pic.acknowledge, Function.update_apply]
    by_cases hk : k = line
    · rw [if_pos hk, if_neg (by omega), if_pos (by rw [hk])]
    · rw [if_neg hk]
      by_cases hk8 : k < 8
      · rw [if_pos hk8, if_pos hk8]
        by_cases hk2 : k = 2
        · rw [if_pos hk2, hk2, hc]
        · rw [if_neg hk2]
      · rw [if_neg hk8, if_neg hk8, if_neg (by omega)]

lemma Represents.accept (h : Represents s l) :
    Represents (s.step interruptHandlers .accept) (l.step interruptHandlers .accept) := by
  unfold Irqs.step Lines.step
  dsimp only
  rw [← h.interruptFlag]
  cases hflag : s.interruptFlag with
  | false => exact h
  | true =>
    obtain ⟨k, j, hk, hj, hphase⟩ := h.service
    have hcode : s.code = [] := by
      by_contra hne
      rw [h.disabled hne] at hflag
      cases hflag
    rw [hcode] at hphase
    obtain ⟨-, rfl, rfl⟩ := hphase.nil
    rw [if_pos rfl, if_pos rfl, acknowledge_eq h.master h.slave hk hj h.cascade, ← h.pending]
    cases hfind : priorities.find? l.pending with
    | none => exact h
    | some line =>
      have hline := mem_priorities.mp (List.mem_of_find?_eq_some hfind)
      have hcascade : (takes s.pics line).master.requested 2 = false := by
        unfold takes
        by_cases hlow : line < 8
        · rw [if_pos hlow]
          exact (Function.update_of_ne (fun he => hline (Or.inl he.symm)) _ _).trans h.cascade
        · rw [if_neg hlow]
          exact Function.update_self 2 false s.pics.master.requested
      refine ⟨?_, ?_, hcascade, ?_, rfl, h.calls, ?_, fun _ => rfl⟩
      · dsimp only [Option.map_some, Option.elim_some]
        unfold takes
        by_cases hlow : line < 8
        · rw [if_pos hlow]
          exact h.master.acknowledge line
        · rw [if_neg hlow]
          exact h.master.acknowledge 2
      · dsimp only [Option.map_some, Option.elim_some]
        unfold takes
        by_cases hlow : line < 8
        · rw [if_pos hlow]
          exact h.slave
        · rw [if_neg hlow]
          exact h.slave.acknowledge _
      · dsimp only [Option.map_some, Option.elim_some]
        rw [latched_takes h.cascade, h.pending]
      · dsimp only [Option.map_some, Option.elim_some]
        unfold takes irqHandler
        by_cases hlow : line < 8
        · rw [if_pos hlow, if_neg (by omega), if_neg (by omega)]
          exact ⟨some line, none, Pic.serves_acknowledge h.master.autoEnd hk line, hj, .master line hlow⟩
        · rw [if_neg hlow, if_pos (by omega), if_pos (by omega)]
          exact ⟨some 2, some (line - 8), Pic.serves_acknowledge h.master.autoEnd hk 2,
            Pic.serves_acknowledge h.slave.autoEnd hj (line - 8), .slave line (by omega)⟩

lemma outb_master (p : PicPair) {k : ℕ} (hk : k < 8) (hs : p.master.Serves (some k)) :
    p.outb 0x20 0x20 = { p with master := { p.master with inService := fun _ => false } } := by
  rw [← Pic.command_end hk hs]
  rfl

lemma outb_slave (p : PicPair) {k : ℕ} (hk : k < 8) (hs : p.slave.Serves (some k)) :
    p.outb 0xA0 0x20 = { p with slave := { p.slave with inService := fun _ => false } } := by
  rw [← Pic.command_end hk hs]
  rfl

lemma serves_none (c : Pic) : ({ c with inService := fun _ => false } : Pic).Serves none := by
  funext j
  rfl

lemma Represents.work (h : Represents s l) :
    Represents (s.step interruptHandlers .work) (l.step interruptHandlers .work) := by
  obtain ⟨k, j, hk, hj, hphase⟩ := h.service
  have hdisabled := h.disabled
  unfold Irqs.step Lines.step
  generalize hcode : s.code = code at hphase hdisabled
  generalize hserving : l.serving = serving at hphase
  have hm := h.master
  have hs := h.slave
  cases hphase with
  | idle => exact h
  | call line =>
    refine ⟨hm, hs, h.cascade, h.pending, h.interruptFlag, ?_, ⟨none, none, hk, hj, .idle⟩, fun hne => absurd rfl hne⟩
    exact congrArg (· ++ _) h.calls
  | master line hline =>
    dsimp only
    rw [outb_master s.pics hline hk]
    exact ⟨⟨hm.mask, hm.vectorBase, hm.cascade, hm.autoEnd, hm.stage⟩, hs, h.cascade, h.pending, h.interruptFlag,
      h.calls, ⟨none, none, serves_none _, hj, .call line⟩, fun _ => hdisabled (List.cons_ne_nil _ _)⟩
  | slave line hline =>
    dsimp only
    rw [outb_slave s.pics hline hj]
    exact ⟨hm, ⟨hs.mask, hs.vectorBase, hs.cascade, hs.autoEnd, hs.stage⟩, h.cascade, h.pending, h.interruptFlag,
      h.calls, ⟨some 2, none, hk, serves_none _, .master line (by decide)⟩, fun _ => hdisabled (List.cons_ne_nil _ _)⟩

lemma Represents.flag (h : Represents s l) (b : Bool) :
    Represents (s.step interruptHandlers (.flag b)) (l.step interruptHandlers (.flag b)) := by
  obtain ⟨k, j, hk, hj, hphase⟩ := h.service
  unfold Irqs.step Lines.step
  dsimp only
  by_cases hcode : s.code = []
  · rw [if_pos hcode, if_pos (hphase.nil_iff.mp hcode)]
    exact ⟨h.master, h.slave, h.cascade, h.pending, rfl, h.calls, h.service, fun hne => absurd hcode hne⟩
  · rw [if_neg hcode, if_neg (fun hnone => hcode (hphase.nil_iff.mpr hnone))]
    exact h

lemma Represents.step (h : Represents s l) (e : Event) :
    Represents (s.step interruptHandlers e) (l.step interruptHandlers e) := by
  cases e with
  | raise line => exact h.raise line
  | accept => exact h.accept
  | work => exact h.work
  | flag b => exact h.flag b

lemma represents_run (interruptHandlers : ℕ → Option α) (events : List Event) (h : Represents s l) :
    Represents (events.foldl (Irqs.step interruptHandlers) s) (events.foldl (Lines.step interruptHandlers) l) := by
  induction events generalizing s l with
  | nil => exact h
  | cons e events ih => exact ih (h.step e)

/-- Whatever the controllers have been used for before, and in whatever order devices raise their lines, the processor
takes interrupts and the code goes on: a line stays pending until the processor takes it, the processor always takes
the pending line of the highest priority, never one is held back, and each time the handler that is registered for it
is called once, with no line in service any more. -/
theorem controllers_refine_lines (interruptHandlers : ℕ → Option α) (p : PicPair) (events : List Event) :
    let s := events.foldl (Irqs.step interruptHandlers) (Irqs.boot p)
    let l := events.foldl (Lines.step interruptHandlers) Lines.start
    s.calls = l.calls ∧ s.interruptFlag = l.interruptFlag ∧ l.pending = s.pics.latched ∧
      ((s.interruptFlag = true ∨ ∃ intNo, s.code = [.call intNo]) →
        s.pics.master.Serves none ∧ s.pics.slave.Serves none) := by
  intro s l
  have h : Represents s l := represents_run interruptHandlers events (represents_boot p)
  refine ⟨h.calls, h.interruptFlag, h.pending, ?_⟩
  obtain ⟨k, j, hk, hj, hphase⟩ := h.service
  rintro (hflag | ⟨intNo, hcode⟩)
  · have hcode : s.code = [] := by
      by_contra hne
      rw [h.disabled hne] at hflag
      cases hflag
    rw [hcode] at hphase
    obtain ⟨-, rfl, rfl⟩ := hphase.nil
    exact ⟨hk, hj⟩
  · rw [hcode] at hphase
    generalize hserving : l.serving = serving at hphase
    cases hphase
    exact ⟨hk, hj⟩

end Refinement

section Conservation

variable {l : Lines ℕ} {line : ℕ}

/-- What has become of the raised edges of a line: calls, the interrupt that is being served, and the latched
request. -/
def Lines.owed (l : Lines ℕ) (line : ℕ) : ℕ :=
  l.calls.count (32 + line) + (if l.serving.map Prod.fst = some line then 1 else 0) +
    (if l.pending line then 1 else 0)

/-- The processor takes interrupts only while none is being served. -/
def Lines.Idle (l : Lines ℕ) : Prop := l.interruptFlag = true → l.serving = none

lemma Lines.Idle.step (h : l.Idle) (e : Event) : (l.step some e).Idle := by
  unfold Lines.Idle at h ⊢
  cases e with
  | raise k =>
    simp only [Lines.step]
    split
    · exact h
    · exact h
  | accept =>
    simp only [Lines.step]
    split
    · cases priorities.find? l.pending with
      | none => exact h
      | some k => exact fun hf => by cases hf
    · exact h
  | work =>
    simp only [Lines.step]
    split
    · exact h
    · next heq =>
      intro hf
      rw [h hf] at heq
      cases heq
    · exact fun _ => rfl
  | flag b =>
    simp only [Lines.step]
    split
    · next hnone => exact fun _ => hnone
    · exact h

lemma Lines.owed_step (h : l.Idle) (hline : line ∈ priorities) (e : Event) :
    (l.step some e).owed line = l.owed line + if e = .raise line ∧ l.pending line = false then 1 else 0 := by
  cases e with
  | raise k =>
    simp only [Lines.step, Event.raise.injEq]
    by_cases hk : k = line
    · rw [if_pos (hk ▸ hline)]
      cases hp : l.pending line <;> simp [Lines.owed, hk, hp]
    · have hother : Function.update l.pending k true line = l.pending line :=
        Function.update_of_ne (Ne.symm hk) _ _
      split <;> simp [Lines.owed, hk, hother]
  | accept =>
    simp only [Lines.step, reduceCtorEq, false_and, if_false, Nat.add_zero]
    split
    · next hflag =>
      cases hfind : priorities.find? l.pending with
      | none => rfl
      | some k =>
        have hpending : l.pending k = true := List.find?_some hfind
        have hserving := h hflag
        by_cases hk : k = line
        · simp [Lines.owed, hserving, hk, hk ▸ hpending]
        · have hother : Function.update l.pending k false line = l.pending line :=
            Function.update_of_ne (Ne.symm hk) _ _
          simp [Lines.owed, hserving, hk, hother]
    · rfl
  | work =>
    simp only [Lines.step, reduceCtorEq, false_and, if_false, Nat.add_zero]
    split
    · rfl
    · next heq => simp [Lines.owed, heq]
    · next k heq =>
      by_cases hk : k = line
      · simp [Lines.owed, heq, hk]
      · simp [Lines.owed, heq, hk, List.count_append]
  | flag b =>
    simp only [Lines.step, reduceCtorEq, false_and, if_false, Nat.add_zero]
    split
    · rfl
    · rfl

/-- The edges of a line in a run: a line that is raised while its request is latched already is not raised again. -/
def edges (line : ℕ) : Irqs ℕ → List Event → ℕ
  | _, [] => 0
  | s, e :: events =>
    (if e = .raise line ∧ s.pics.latched line = false then 1 else 0) + edges line (s.step some e) events

lemma owed_run (hline : line ∈ priorities) (events : List Event) {s : Irqs ℕ} (h : Represents s l) (hidle : l.Idle) :
    (events.foldl (Lines.step some) l).owed line = l.owed line + edges line s events := by
  induction events generalizing s l with
  | nil => rfl
  | cons e events ih =>
    rw [List.foldl_cons, ih (h.step e) (hidle.step e), Lines.owed_step hidle hline, edges, h.pending, Nat.add_assoc]

/-- No edge of a line is lost and none is served twice: each one has led to a call, or it is being served, or its
request is latched. -/
theorem edges_conserved (p : PicPair) (events : List Event) {line : ℕ} (hline : line ≠ 2) (hlast : line < 16) :
    let s := events.foldl (Irqs.step some) (Irqs.boot p)
    s.calls.count (32 + line) + (if .call (32 + line) ∈ s.code then 1 else 0) +
        (if s.pics.latched line then 1 else 0) =
      edges line (Irqs.boot p) events := by
  have hmem : line ∈ priorities := mem_priorities.mpr (by omega)
  intro s
  have h : Represents s (events.foldl (Lines.step some) Lines.start) := represents_run _ events (represents_boot p)
  have howed := owed_run hmem events (represents_boot p) (fun _ => rfl)
  have hserving : (.call (32 + line) ∈ s.code) ↔
      (events.foldl (Lines.step some) Lines.start).serving.map Prod.fst = some line := by
    obtain ⟨k, j, -, -, hphase⟩ := h.service
    exact hphase.call_mem
  have hstart : Lines.start.owed line = 0 := rfl
  rw [hstart, Nat.zero_add, Lines.owed, h.pending, ← h.calls] at howed
  rw [← howed]
  simp only [hserving]

/-- Two ticks of the timer and one that comes too early. -/
def twoTicks : List Event := [.raise 0, .raise 0, .flag true, .accept, .raise 0, .work, .work]

def unconfigured : Pic := ⟨fun _ => false, fun _ => false, 0xFF, 0, 0, false, .ready⟩

/-- One of the two has been served and the other one is pending. -/
theorem edges_conserved_timer : (let s := twoTicks.foldl (Irqs.step some) (Irqs.boot ⟨unconfigured, unconfigured⟩)
    s.calls.count 32 + (if .call 32 ∈ s.code then 1 else 0) + (if s.pics.latched 0 then 1 else 0)) = 2 :=
  (edges_conserved ⟨unconfigured, unconfigured⟩ twoTicks (show (0 : ℕ) ≠ 2 by decide) (by decide)).trans (by decide)

end Conservation

end SBoy28.Interrupts
