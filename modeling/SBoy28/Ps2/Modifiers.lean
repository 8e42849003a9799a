import SBoy28.Lib.History
import SBoy28.Ps2.KeyBuffer

/-!
# Shift, ctrl and alt

`poll_keyboard` compares a scancode with the make codes of all modifiers before it compares it with a release
code. `KEY_CTRL_RIGHT` is the release code of the left ctrl key and `KEY_ALT_RIGHT` the one of the left alt key.
-/

namespace SBoy28.Ps2
open Lib

section Specification

/-- A make code of one of these keys, or a release code. -/
def keyEvent (keys : List ℕ) (key : UInt8) : Option Bool :=
  if key.toNat ∈ keys then some true
  else if key.toNat ∈ keys.map fun code => code + 0x80 then some false
  else none

def shiftKeys : List ℕ := [keyShiftLeft, keyShiftRight]
def ctrlKeys : List ℕ := [keyCtrlLeft]
def altKeys : List ℕ := [keyAltLeft]

def KeyCall.sees : KeyCall → Option UInt8
  | .poll c => polled c
  | .get => none

/-- A flag is set just if the last code of a key of its modifier was a make code. -/
structure ModifiersTrack (codes : List UInt8) (k : Keyboard) : Prop where
  shift : k.shiftPressed = latest (keyEvent shiftKeys) false codes
  ctrl : k.ctrlPressed = latest (keyEvent ctrlKeys) false codes
  alt : k.altPressed = latest (keyEvent altKeys) false codes

end Specification

section Steps

variable (k : Keyboard) (key : UInt8) (call : KeyCall)

/-- Every code of the left ctrl key sets the flag of ctrl, and so for alt. -/
lemma handleScancode_flags :
    (handleScancode k key).shiftPressed = (keyEvent shiftKeys key).getD k.shiftPressed ∧
      (handleScancode k key).ctrlPressed = ((keyEvent ctrlKeys key).map fun _ => true).getD k.ctrlPressed ∧
      (handleScancode k key).altPressed = ((keyEvent altKeys key).map fun _ => true).getD k.altPressed := by
  have hlt : key.toNat < 256 := key.toNat_lt
  by_cases hmem : key.toNat ∈ [0x2A, 0x36, 0xAA, 0xB6, 0x1D, 0x9D, 0x38, 0xB8]
  · simp only [List.mem_cons, List.not_mem_nil, or_false] at hmem
    rcases hmem with h | h | h | h | h | h | h | h <;>
      simp [handleScancode, keyEvent, shiftKeys, ctrlKeys, altKeys, keyShiftLeft, keyShiftRight, keyCtrlLeft,
        keyCtrlRight, keyAltLeft, keyAltRight, h]
  · simp only [List.mem_cons, List.not_mem_nil, or_false, not_or] at hmem
    -- the release codes of `KEY_CTRL_RIGHT` and `KEY_ALT_RIGHT` are not bytes
    have hctrl : key.toNat ≠ 0x11D := by omega
    have halt : key.toNat ≠ 0x138 := by omega
    simp [handleScancode, keyEvent, shiftKeys, ctrlKeys, altKeys, keyShiftLeft, keyShiftRight, keyCtrlLeft,
      keyCtrlRight, keyAltLeft, keyAltRight, hmem, hctrl, halt]

lemma call_flags :
    (k.call call).shiftPressed = (call.sees.bind (keyEvent shiftKeys)).getD k.shiftPressed ∧
      (k.call call).ctrlPressed =
        (call.sees.bind fun key => (keyEvent ctrlKeys key).map fun _ => true).getD k.ctrlPressed ∧
      (k.call call).altPressed =
        (call.sees.bind fun key => (keyEvent altKeys key).map fun _ => true).getD k.altPressed := by
  cases call with
  | poll c =>
    simp only [Keyboard.call, KeyCall.sees, polled, pollKeyboard]
    by_cases hpressed : (isKeyPressed c).1 = true
    · simp only [if_pos hpressed]
      exact handleScancode_flags k _
    · simp only [if_neg hpressed]
      exact ⟨rfl, rfl, rfl⟩
  | get =>
    simp only [Keyboard.call, getKey]
    by_cases hpos : 0 < k.bufferIndex
    · rw [if_pos hpos]
      exact ⟨rfl, rfl, rfl⟩
    · rw [if_neg hpos]
      exact ⟨rfl, rfl, rfl⟩

end Steps

section Runs

/-- The flag of shift follows its keys; those of ctrl and alt are set by the first code of their key and never
cleared. -/
lemma run_flags (calls : List KeyCall) :
    (calls.foldl Keyboard.call startKeyboard).shiftPressed =
        latest (keyEvent shiftKeys) false (calls.filterMap KeyCall.sees) ∧
      (calls.foldl Keyboard.call startKeyboard).ctrlPressed =
        latest (fun key => (keyEvent ctrlKeys key).map fun _ => true) false (calls.filterMap KeyCall.sees) ∧
      (calls.foldl Keyboard.call startKeyboard).altPressed =
        latest (fun key => (keyEvent altKeys key).map fun _ => true) false (calls.filterMap KeyCall.sees) := by
  rw [latest_filterMap, latest_filterMap, latest_filterMap]
  refine ⟨?_, ?_, ?_⟩
  · exact foldl_latest Keyboard.shiftPressed (fun k call => (call_flags k call).1) calls
  · exact foldl_latest Keyboard.ctrlPressed (fun k call => (call_flags k call).2.1) calls
  · exact foldl_latest Keyboard.altPressed (fun k call => (call_flags k call).2.2) calls

/-- The flags are right just if the last code of the left ctrl key was not its release code, and the one of the
left alt key neither. -/
theorem modifiers_track_iff (calls : List KeyCall) :
    ModifiersTrack (calls.filterMap KeyCall.sees) (calls.foldl Keyboard.call startKeyboard) ↔
      ((calls.filterMap KeyCall.sees).filterMap (keyEvent ctrlKeys)).getLast? ≠ some false ∧
      ((calls.filterMap KeyCall.sees).filterMap (keyEvent altKeys)).getLast? ≠ some false := by
  obtain ⟨hshift, hctrl, halt⟩ := run_flags calls
  rw [← latch_iff, ← latch_iff, ← hctrl, ← halt]
  constructor
  · intro h
    exact ⟨h.ctrl, h.alt⟩
  · rintro ⟨hc, ha⟩
    exact ⟨hshift, hc, ha⟩

def pollOf (key : UInt8) : KeyCall := .poll ⟨[⟨.keyboard, key⟩], none, [], [], []⟩

/-- The left ctrl key is pressed and released, and the flag stays. -/
theorem modifiers_track_ctrl :
    ¬ModifiersTrack ([pollOf 0x1D, pollOf 0x9D].filterMap KeyCall.sees)
      ([pollOf 0x1D, pollOf 0x9D].foldl Keyboard.call startKeyboard) := by
  intro h
  have hctrl := h.ctrl
  revert hctrl
  decide

end Runs

end SBoy28.Ps2
