import SBoy28.Lib.Memory

/-!
# Registers and stack of a 32-bit processor

The stack instructions of an IA-32 processor over byte memory. The stack grows down, and what has been
pushed stands in memory as a row of words.
-/

namespace SBoy28.Lib

structure Registers where
  eax : UInt32
  ecx : UInt32
  edx : UInt32
  ebx : UInt32
  esp : UInt32
  ebp : UInt32
  esi : UInt32
  edi : UInt32
  deriving DecidableEq, Repr

structure Cpu where
  regs : Registers
  eip : UInt32
  mem : Memory

namespace Cpu

def setEax (c : Cpu) (v : UInt32) : Cpu := { c with regs := { c.regs with eax := v } }

def setEsp (c : Cpu) (v : UInt32) : Cpu := { c with regs := { c.regs with esp := v } }

def push (c : Cpu) (v : UInt32) : Cpu :=
  let c := c.setEsp (c.regs.esp - 4)
  { c with mem := store32 c.mem c.regs.esp.toNat v }

def pop (c : Cpu) : UInt32 × Cpu := (load32 c.mem c.regs.esp.toNat, c.setEsp (c.regs.esp + 4))

/-- The registers in the order in which `pusha` pushes them; the stack pointer is the one from before. -/
def pusha (c : Cpu) : Cpu :=
  let r := c.regs
  [r.eax, r.ecx, r.edx, r.ebx, r.esp, r.ebp, r.esi, r.edi].foldl push c

/-- `popa` skips the stack pointer. -/
def popa (c : Cpu) : Cpu :=
  let (edi, c) := c.pop
  let (esi, c) := c.pop
  let (ebp, c) := c.pop
  let (_, c) := c.pop
  let (ebx, c) := c.pop
  let (edx, c) := c.pop
  let (ecx, c) := c.pop
  let (eax, c) := c.pop
  { c with regs := ⟨eax, ecx, edx, ebx, c.regs.esp, ebp, esi, edi⟩ }

def ret (c : Cpu) : Cpu :=
  let (eip, c) := c.pop
  { c with eip := eip }

end Cpu

section Words

/-- The words stand in a row from address `a` on. -/
def WordsAt (m : Memory) : ℕ → List UInt32 → Prop
  | _, [] => True
  | a, w :: ws => load32 m a = w ∧ WordsAt m (a + 4) ws

variable {m m' : Memory} {a : ℕ} {w : UInt32} {ws ws' : List UInt32}

@[simp] lemma wordsAt_nil : WordsAt m a [] ↔ True := Iff.rfl

@[simp] lemma wordsAt_cons : WordsAt m a (w :: ws) ↔ load32 m a = w ∧ WordsAt m (a + 4) ws := Iff.rfl

lemma WordsAt.congr (h : WordsAt m a ws) (he : ∀ i, a ≤ i → i < a + 4 * ws.length → m' i = m i) :
    WordsAt m' a ws := by
  induction ws generalizing a with
  | nil => trivial
  | cons w ws ih =>
    simp only [List.length_cons] at he
    refine ⟨?_, ih h.2 fun i hi hlt => he i (by omega) (by omega)⟩
    rw [load32_frame m a fun i hi hlt => he i hi (by omega)]
    exact h.1

lemma wordsAt_append : WordsAt m a (ws ++ ws') ↔ WordsAt m a ws ∧ WordsAt m (a + 4 * ws.length) ws' := by
  induction ws generalizing a with
  | nil => simp
  | cons w ws ih =>
    have haddr : a + 4 + 4 * ws.length = a + 4 * (w :: ws).length := by
      rw [List.length_cons]
      omega
    rw [List.cons_append, wordsAt_cons, wordsAt_cons, ih, haddr, and_assoc]

end Words

section Stack

variable {c : Cpu} {v : UInt32} {vs : List UInt32}

lemma push_mem (c : Cpu) (v : UInt32) : (c.push v).mem = store32 c.mem (c.push v).regs.esp.toNat v := rfl

/-- Pushed words stand below the old stack pointer, the last one first, and nothing else changes. -/
theorem foldl_push (vs : List UInt32) (c : Cpu) (h : 4 * vs.length ≤ c.regs.esp.toNat) :
    ∃ esp m, vs.foldl Cpu.push c = ⟨{ c.regs with esp := esp }, c.eip, m⟩ ∧
      esp.toNat + 4 * vs.length = c.regs.esp.toNat ∧
      (∀ i, i < esp.toNat ∨ c.regs.esp.toNat ≤ i → m i = c.mem i) ∧ WordsAt m esp.toNat vs.reverse := by
  induction vs generalizing c with
  | nil => exact ⟨c.regs.esp, c.mem, rfl, rfl, fun i _ => rfl, trivial⟩
  | cons v vs ih =>
    rw [List.length_cons] at h
    have h4 : (4 : UInt32).toNat = 4 := rfl
    have hsub : (c.push v).regs.esp.toNat = c.regs.esp.toNat - 4 := toNat_sub_of_le (by omega)
    obtain ⟨esp, m, hfold, hesp, hsame, hwords⟩ := ih (c.push v) (by omega)
    refine ⟨esp, m, ?_, ?_, ?_, ?_⟩
    · rw [List.foldl_cons, hfold]
      rfl
    · rw [List.length_cons]
      omega
    · intro i hi
      rw [hsame i (by omega), push_mem]
      exact store32_outside _ _ (by omega)
    · rw [List.reverse_cons, wordsAt_append]
      refine ⟨hwords, ?_, trivial⟩
      have haddr : esp.toNat + 4 * vs.reverse.length = (c.push v).regs.esp.toNat := by
        rw [List.length_reverse, hesp]
      rw [haddr, load32_frame (c.push v).mem _ fun i hi _ => hsame i (Or.inr hi)]
      exact load32_store32 _ _ _

/-- What `popa` and `ret` make of a frame of nine words. -/
theorem ret_popa {edi esi ebp esp ebx edx ecx eax eip : UInt32} (hend : c.regs.esp.toNat + 36 < 2 ^ 32)
    (hw : WordsAt c.mem c.regs.esp.toNat [edi, esi, ebp, esp, ebx, edx, ecx, eax, eip]) :
    c.popa.ret = ⟨⟨eax, ecx, edx, ebx, c.regs.esp + 36, ebp, esi, edi⟩, eip, c.mem⟩ := by
  have haddr : ∀ k < 36, (c.regs.esp + UInt32.ofNat k).toNat = c.regs.esp.toNat + k := by
    intro k hk
    have hk' : (UInt32.ofNat k).toNat = k := toNat_ofNat_of_lt (by omega)
    rw [toNat_add_of_lt (by omega), hk']
  simp only [wordsAt_cons, Nat.add_assoc, Nat.reduceAdd] at hw
  obtain ⟨h0, h4, h8, -, h16, h20, h24, h28, h32, -⟩ := hw
  rw [← haddr 4 (by decide)] at h4
  rw [← haddr 8 (by decide)] at h8
  rw [← haddr 16 (by decide)] at h16
  rw [← haddr 20 (by decide)] at h20
  rw [← haddr 24 (by decide)] at h24
  rw [← haddr 28 (by decide)] at h28
  rw [← haddr 32 (by decide)] at h32
  simp only [UInt32.reduceOfNat] at h4 h8 h16 h20 h24 h28 h32
  simp only [Cpu.ret, Cpu.popa, Cpu.pop, Cpu.setEsp, UInt32.add_assoc, UInt32.reduceAdd, h0, h4, h8, h16, h20,
    h24, h28, h32]

end Stack

end SBoy28.Lib
