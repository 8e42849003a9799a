import Mathlib.Data.List.Induction
import SBoy28.Lib.Stores
import SBoy28.Ps2.Model

/-!
# The buffer of the keyboard

`poll_keyboard` appends to an array of 256 keys and `get_key` takes the first one and moves the others down.
Nothing compares the index with the size of the array.
-/

namespace SBoy28.Ps2
open Lib

section Model

def getKey (k : Keyboard) : UInt8 × Keyboard :=
  if 0 < k.bufferIndex then
    let key := k.keyBuffer 0
    let keyBuffer := (List.range (k.bufferIndex - 1)).foldl
      (fun keyBuffer i => Function.update keyBuffer i (keyBuffer (i + 1))) k.keyBuffer
    (key, { k with keyBuffer := keyBuffer, bufferIndex := k.bufferIndex - 1 })
  else (0, k)

/-- The calls of the driver; `poll_keyboard` finds the controller in any state. -/
inductive KeyCall where
  | poll (c : Controller)
  | get
  deriving DecidableEq

def Keyboard.call (k : Keyboard) : KeyCall → Keyboard
  | .poll c => (pollKeyboard k c).1
  | .get => (getKey k).2

/-- The statics of `keyboard.c` before any call. -/
def startKeyboard : Keyboard := ⟨fun _ => 0, 0, false, false, false⟩

end Model

section Specification

/-- The scancode that a call of `poll_keyboard` sees. -/
def polled (c : Controller) : Option UInt8 :=
  if (isKeyPressed c).1 then some (readKey (isKeyPressed c).2).1 else none

/-- The make code of a modifier or that code + 0x80. -/
def isModifier (key : UInt8) : Bool :=
  [keyShiftLeft, keyShiftRight, keyCtrlLeft, keyCtrlRight, keyAltLeft, keyAltRight].any fun code =>
    key.toNat == code || key.toNat == code + 0x80

/-- The key that a call puts into the buffer. -/
def KeyCall.types : KeyCall → Option UInt8
  | .poll c => (polled c).filter fun key => !isModifier key
  | .get => none

/-- The key that `get_key` takes from a buffer that is not empty. -/
def Keyboard.gives (k : Keyboard) : KeyCall → Option UInt8
  | .poll _ => none
  | .get => if 0 < k.bufferIndex then some (getKey k).1 else none

def returned (k : Keyboard) : List KeyCall → List UInt8
  | [] => []
  | call :: calls => (k.gives call).toList ++ returned (k.call call) calls

/-- What a call stores into `key_buffer`. -/
def Keyboard.stores (k : Keyboard) (call : KeyCall) : List (ℕ × UInt8) :=
  match call with
  | .poll _ => call.types.toList.map fun key => (k.bufferIndex, key)
  | .get => row 0 (k.bufferIndex - 1) fun i => k.keyBuffer (i + 1)

def Keyboard.buffered (k : Keyboard) : List UInt8 := (List.range k.bufferIndex).map k.keyBuffer

/-- In every state of the run, and in every step. -/
structure KeyFifo (calls : List KeyCall) : Prop where
  index : ∀ pre, pre <+: calls → (pre.foldl Keyboard.call startKeyboard).bufferIndex ≤ 256
  stores : ∀ pre call, pre ++ [call] <+: calls →
    Below 256 ((pre.foldl Keyboard.call startKeyboard).stores call)
  fifo : ∀ pre, pre <+: calls →
    returned startKeyboard pre ++ (pre.foldl Keyboard.call startKeyboard).buffered = pre.filterMap KeyCall.types

/-- How many keys were typed and not yet asked for. -/
def backlog (calls : List KeyCall) : ℕ :=
  calls.foldl (fun n call =>
    match call with
    | .poll _ => if call.types.isSome then n + 1 else n
    | .get => n - 1) 0

end Specification

variable {k : Keyboard} {key : UInt8} {calls : List KeyCall}

section Steps

lemma handleScancode_modifier (h : isModifier key = true) :
    (handleScancode k key).keyBuffer = k.keyBuffer ∧ (handleScancode k key).bufferIndex = k.bufferIndex := by
  have hmem : key.toNat = keyShiftLeft ∨ key.toNat = keyShiftRight ∨ key.toNat = keyCtrlLeft ∨
      key.toNat = keyCtrlRight ∨ key.toNat = keyAltLeft ∨ key.toNat = keyAltRight ∨
      key.toNat = keyShiftLeft + 0x80 ∨ key.toNat = keyShiftRight + 0x80 ∨ key.toNat = keyCtrlLeft + 0x80 ∨
      key.toNat = keyCtrlRight + 0x80 ∨ key.toNat = keyAltLeft + 0x80 ∨ key.toNat = keyAltRight + 0x80 := by
    simp only [isModifier, List.any_cons, List.any_nil, Bool.or_eq_true, beq_iff_eq, Bool.or_false] at h
    tauto
  simp only [handleScancode]
  split_ifs <;> first | exact ⟨rfl, rfl⟩ | tauto

lemma handleScancode_key (h : isModifier key = false) : handleScancode k key =
    { k with keyBuffer := Function.update k.keyBuffer k.bufferIndex key, bufferIndex := k.bufferIndex + 1 } := by
  simp only [isModifier, List.any_cons, List.any_nil, Bool.or_eq_false_iff, beq_eq_false_iff_ne, ne_eq,
    Bool.or_false] at h
  simp only [handleScancode]
  split_ifs <;> first | rfl | tauto

lemma shiftDown (n : ℕ) (keyBuffer : ℕ → UInt8) :
    (List.range n).foldl (fun keyBuffer i => Function.update keyBuffer i (keyBuffer (i + 1))) keyBuffer =
      storeAll keyBuffer (row 0 n fun i => keyBuffer (i + 1)) := by
  induction n with
  | zero => rfl
  | succ n ih =>
    -- the key at `n + 1` is still where it was
    have hnext : storeAll keyBuffer (row 0 n fun i => keyBuffer (i + 1)) (n + 1) = keyBuffer (n + 1) := by
      rw [storeAll_row, if_neg (by omega)]
    rw [List.range_succ, List.foldl_append, ih, List.foldl_cons, List.foldl_nil, hnext, row_succ, storeAll_append,
      Nat.zero_add]
    rfl

lemma poll_cases (k : Keyboard) (c : Controller) :
    ((KeyCall.poll c).types = none ∧ (pollKeyboard k c).1.keyBuffer = k.keyBuffer ∧
      (pollKeyboard k c).1.bufferIndex = k.bufferIndex) ∨
    ∃ key, (KeyCall.poll c).types = some key ∧
      (pollKeyboard k c).1.keyBuffer = Function.update k.keyBuffer k.bufferIndex key ∧
      (pollKeyboard k c).1.bufferIndex = k.bufferIndex + 1 := by
  unfold KeyCall.types polled pollKeyboard
  by_cases hpressed : (isKeyPressed c).1 = true
  · simp only [if_pos hpressed]
    cases hm : isModifier (readKey (isKeyPressed c).2).1 with
    | true =>
      left
      refine ⟨?_, handleScancode_modifier hm⟩
      simp [hm]
    | false =>
      right
      refine ⟨(readKey (isKeyPressed c).2).1, ?_, ?_⟩
      · simp [hm]
      · rw [handleScancode_key hm]
        exact ⟨rfl, rfl⟩
  · simp only [if_neg hpressed]
    exact Or.inl ⟨rfl, trivial, trivial⟩

lemma keyBuffer_call (k : Keyboard) (call : KeyCall) :
    (k.call call).keyBuffer = storeAll k.keyBuffer (k.stores call) := by
  cases call with
  | poll c =>
    simp only [Keyboard.call, Keyboard.stores]
    rcases poll_cases k c with ⟨htypes, hbuffer, -⟩ | ⟨key, htypes, hbuffer, -⟩
    · rw [htypes, hbuffer]
      rfl
    · rw [htypes, hbuffer]
      rfl
  | get =>
    simp only [Keyboard.call, Keyboard.stores, getKey]
    by_cases hpos : 0 < k.bufferIndex
    · rw [if_pos hpos]
      exact shiftDown _ _
    · rw [if_neg hpos, Nat.eq_zero_of_not_pos hpos]
      rfl

/-- What a call returns and what is in the buffer afterwards are what was in it and what was typed. -/
lemma buffered_call (k : Keyboard) (call : KeyCall) :
    (k.gives call).toList ++ (k.call call).buffered = k.buffered ++ call.types.toList := by
  cases call with
  | poll c =>
    rcases poll_cases k c with ⟨htypes, hbuffer, hindex⟩ | ⟨key, htypes, hbuffer, hindex⟩
    · simp only [Keyboard.buffered, Keyboard.gives, Keyboard.call, htypes, hbuffer, hindex]
      simp
    · simp only [Keyboard.buffered, Keyboard.gives, Keyboard.call, htypes, hbuffer, hindex]
      rw [List.range_succ, List.map_append, List.map_singleton, Function.update_self]
      simp only [Option.toList_none, List.nil_append, Option.toList_some]
      congr 1
      apply List.map_congr_left
      intro i hi
      exact Function.update_of_ne (Nat.ne_of_lt (List.mem_range.mp hi)) _ _
  | get =>
    have hbuffer := keyBuffer_call k .get
    cases hn : k.bufferIndex with
    | zero => simp [Keyboard.buffered, Keyboard.gives, Keyboard.call, KeyCall.types, getKey, hn]
    | succ n =>
      have hindex : (k.call .get).bufferIndex = n := by simp [Keyboard.call, getKey, hn]
      have hgives : k.gives .get = some (k.keyBuffer 0) := by simp [Keyboard.gives, getKey, hn]
      rw [Keyboard.buffered, Keyboard.buffered, hindex, hn, hbuffer, hgives, List.range_succ_eq_map]
      simp only [Keyboard.stores, hn, KeyCall.types, Nat.add_sub_cancel, Option.toList_some, Option.toList_none,
        List.singleton_append, List.append_nil, List.map_cons, List.map_map, List.cons.injEq, true_and]
      apply List.map_congr_left
      intro i hi
      rw [storeAll_row, if_pos ⟨Nat.zero_le i, by simpa using hi⟩]
      rfl

lemma bufferIndex_call (k : Keyboard) (call : KeyCall) : (k.call call).bufferIndex =
    match call with
    | .poll _ => if call.types.isSome then k.bufferIndex + 1 else k.bufferIndex
    | .get => k.bufferIndex - 1 := by
  cases call with
  | poll c =>
    rcases poll_cases k c with ⟨htypes, -, hindex⟩ | ⟨key, htypes, -, hindex⟩
    · simp only [Keyboard.call, htypes, hindex]
      rfl
    · simp only [Keyboard.call, htypes, hindex]
      rfl
  | get =>
    simp only [Keyboard.call, getKey]
    by_cases hpos : 0 < k.bufferIndex
    · rw [if_pos hpos]
    · rw [if_neg hpos]
      change k.bufferIndex = k.bufferIndex - 1
      omega

end Steps

section Runs

lemma returned_buffered (k : Keyboard) (calls : List KeyCall) :
    returned k calls ++ (calls.foldl Keyboard.call k).buffered = k.buffered ++ calls.filterMap KeyCall.types := by
  induction calls generalizing k with
  | nil => simp [returned]
  | cons call calls ih =>
    have hstep := buffered_call k call
    rw [returned, List.foldl_cons, List.append_assoc, ih, ← List.append_assoc, hstep, List.append_assoc]
    cases htypes : call.types <;> simp [htypes]

lemma bufferIndex_run (calls : List KeyCall) :
    (calls.foldl Keyboard.call startKeyboard).bufferIndex = backlog calls := by
  induction calls using List.reverseRecOn with
  | nil => rfl
  | append_singleton calls call ih =>
    rw [List.foldl_append, List.foldl_cons, List.foldl_nil, bufferIndex_call, ih, backlog, backlog,
      List.foldl_append]
    rfl

/-- The stores of a step stay in the array just if the index does. -/
lemma below_stores (k : Keyboard) (hk : k.bufferIndex ≤ 256) (call : KeyCall) :
    Below 256 (k.stores call) ↔ (k.call call).bufferIndex ≤ 256 := by
  rw [bufferIndex_call]
  cases call with
  | poll c =>
    cases htypes : (KeyCall.poll c).types with
    | none => simp [Keyboard.stores, htypes, Below, hk]
    | some key =>
      simp only [Keyboard.stores, htypes, Below, Option.toList_some, List.map_singleton, List.mem_singleton,
        forall_eq, Option.isSome_some, if_true]
      omega
  | get =>
    simp only [Keyboard.stores, below_row]
    omega

/-- The keyboard is a queue as long as there are never more than 256 keys that nobody has asked for. -/
theorem key_fifo_iff (calls : List KeyCall) : KeyFifo calls ↔ ∀ pre, pre <+: calls → backlog pre ≤ 256 := by
  constructor
  · intro h pre hpre
    rw [← bufferIndex_run]
    exact h.index pre hpre
  · intro h
    refine ⟨fun pre hpre => ?_, fun pre call hpre => ?_, fun pre _ => ?_⟩
    · rw [bufferIndex_run]
      exact h pre hpre
    · have hbefore := h pre ((List.prefix_append pre [call]).trans hpre)
      have hafter := h _ hpre
      rw [← bufferIndex_run] at hbefore hafter
      rw [List.foldl_append] at hafter
      exact (below_stores _ hbefore call).mpr hafter
    · rw [returned_buffered]
      rfl

/-- The key A is held down and nobody asks for it. -/
def heldKey : KeyCall := .poll ⟨[⟨.keyboard, 0x1E⟩], none, [], [], []⟩

/-- The 257th key goes behind the array. -/
theorem key_fifo_overflow : ¬KeyFifo (List.replicate 257 heldKey) := by
  intro h
  have hall := h.index _ List.prefix_rfl
  have hcount : ∀ n, backlog (List.replicate n heldKey) = n := by
    intro n
    induction n with
    | zero => rfl
    | succ n ih =>
      have htypes : heldKey.types.isSome = true := by decide
      rw [List.replicate_succ', backlog, List.foldl_append, ← backlog, ih]
      simp only [List.foldl_cons, List.foldl_nil, heldKey] at htypes ⊢
      rw [if_pos htypes]
  rw [bufferIndex_run, hcount] at hall
  omega

end Runs

end SBoy28.Ps2
