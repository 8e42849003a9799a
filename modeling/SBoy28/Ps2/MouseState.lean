import SBoy28.Lib.History
import SBoy28.Ps2.Resync

/-!
# The state of the mouse driver

What the driver knows is what the bytes since `mouse_init` say: the start of a packet that is not complete,
the buttons of the last packet that it accepted, and whether the left button has gone down since somebody
asked for it.
-/

namespace SBoy28.Ps2
open Lib

section Model

/-- Its result is what the caller gets. -/
def mouseConsumeLeftClick (m : Mouse) : Bool × Mouse :=
  (m.leftClickPending, { m with leftClickPending := false })

/-- The position on the screen stays as it is. -/
def mouseInit (m : Mouse) (c : Controller) : Mouse × Controller :=
  let c := outb 0xA8 (waitInputClear 100001 c)
  let c := outb 0 c
  let c := outb 0x20 (waitInputClear 100001 c)
  let c := outb 0 c
  let r := waitForOutput 100001 c
  let status := r.1 ||| 0x02
  let c := outb 0x60 (waitInputClear 100001 r.2)
  let c := outb 0 c
  let c := outb status (waitInputClear 100001 c)
  let c := outb 0 c
  let m := { m with
    packetIndex := 0
    hasHandler := false
    eventHandler := false
    leftPressed := false
    rightPressed := false
    middlePressed := false
    leftClickPending := false }
  (m, mouseDeviceInit c)

/-- The calls of the driver; the handler and `mouse_init` find the controller in any state. -/
inductive MouseCall where
  | init (c : Controller)
  | irq (c : Controller)
  | consume

def Mouse.call (m : Mouse) : MouseCall → Mouse
  | .init c => (mouseInit m c).1
  | .irq c => (mouseIrqHandler m c).1
  | .consume => (mouseConsumeLeftClick m).2

end Model

section Specification

/-- What has come since `mouse_init`: the bytes of a packet that is not complete, the packets that were
accepted, and how many they were when `mouse_consume_left_click` was called last. -/
structure Stream where
  pending : List UInt8
  accepted : List Packet
  consumed : ℕ

def Stream.start : Stream := ⟨[], [], 0⟩

/-- A packet without the sync bit is not accepted. -/
def Stream.store (h : Stream) (b : UInt8) : Stream :=
  match h.pending with
  | [head, x] =>
    { h with
      pending := []
      accepted := if head &&& 0x08 = 0 then h.accepted else h.accepted ++ [⟨head, x, b⟩] }
  | _ => { h with pending := h.pending ++ [b] }

/-- An answer of the mouse is no part of a packet. -/
def Stream.byte (h : Stream) (b : UInt8) : Stream :=
  if b = 0xAA then { h with pending := [] }
  else if b = 0x00 ∧ h.pending = [] then h
  else if b = 0xFA then h
  else h.store b

/-- The byte that a call of the handler reads. -/
def delivered (c : Controller) : Option UInt8 :=
  if (inbStatus c).1 &&& ps2StatusOutputFull = 0 then none else some (inbData .mouse (inbStatus c).2).1

def Stream.call (h : Stream) : MouseCall → Stream
  | .init _ => .start
  | .irq c =>
    match delivered c with
    | none => h
    | some b => h.byte b
  | .consume => { h with consumed := h.accepted.length }

/-- Left, right and middle button after these packets. -/
def lastButtons (accepted : List Packet) : Bool × Bool × Bool :=
  match accepted.getLast? with
  | none => (false, false, false)
  | some p => (p.motion.left, p.motion.right, p.motion.middle)

def Stream.lefts (h : Stream) : List Bool := h.accepted.map fun p => p.motion.left

structure MouseState (h : Stream) (m : Mouse) : Prop where
  index : m.packetIndex = 0 ∨ m.packetIndex = 1 ∨ m.packetIndex = 2
  x : 0 ≤ m.mouseX ∧ m.mouseX < mouseScreenW
  y : 0 ≤ m.mouseY ∧ m.mouseY < mouseScreenH
  buttons : (m.leftPressed, m.rightPressed, m.middlePressed) = lastButtons h.accepted
  click : (mouseConsumeLeftClick m).1 = true ↔ ∃ i, h.consumed ≤ i ∧ Rises h.lefts i

end Specification

variable {m : Mouse} {h : Stream} {b : UInt8}

section Steps

/-- The first bytes of the packet array are the bytes of the packet that is not complete. -/
structure Follows (h : Stream) (m : Mouse) : Prop extends MouseState h m where
  pending : h.pending = (List.range m.packetIndex).map m.packet
  consumed : h.consumed ≤ h.accepted.length

lemma clamp_bounds (v : Int32) {size : Int32} (hs : 0 < size) : 0 ≤ clamp v size ∧ clamp v size < size := by
  have hsize : 0 < size.toInt := Int32.lt_iff_toInt_lt.mp hs
  have hlt := size.toInt_lt
  have hpred : (size - 1).toInt = size.toInt - 1 := by
    rw [Int32.toInt_sub]
    apply Int.bmod_eq_of_le
    · change _ ≤ size.toInt - 1
      omega
    · change size.toInt - 1 < _
      omega
  have hzero : (0 : Int32).toInt = 0 := rfl
  simp only [clamp, Int32.le_iff_toInt_le, Int32.lt_iff_toInt_lt, ge_iff_le]
  split_ifs <;> simp only [hpred, hzero] at * <;> omega

/-- Everything that an accepted packet changes in the driver. -/
lemma parsePacket_accepted (hsync : m.packet 0 &&& 0x08 ≠ 0) :
    (parsePacket m).packetIndex = 0 ∧
      ((parsePacket m).leftPressed, (parsePacket m).rightPressed, (parsePacket m).middlePressed) =
        lastButtons [⟨m.packet 0, m.packet 1, m.packet 2⟩] ∧
      (parsePacket m).leftClickPending = (m.leftClickPending ||
        (Packet.motion ⟨m.packet 0, m.packet 1, m.packet 2⟩).left && !m.leftPressed) ∧
      (0 ≤ (parsePacket m).mouseX ∧ (parsePacket m).mouseX < mouseScreenW) ∧
      (0 ≤ (parsePacket m).mouseY ∧ (parsePacket m).mouseY < mouseScreenH) := by
  obtain ⟨hl, hr, hmid⟩ := button_bit (m.packet 0)
  have hx := clamp_bounds (m.mouseX + (s8ToS16 (m.packet 1)).toInt32) (show 0 < mouseScreenW by decide)
  have hy := clamp_bounds (m.mouseY + (-s8ToS16 (m.packet 2)).toInt32) (show 0 < mouseScreenH by decide)
  have hpublish : ∀ (m : Mouse) dx dy l r mid, publishEvent m dx dy l r mid =
      { m with
        published := (publishEvent m dx dy l r mid).published
        handled := (publishEvent m dx dy l r mid).handled } := by
    intro m dx dy l r mid
    cases hh : m.hasHandler <;> cases he : m.eventHandler <;> simp [publishEvent, hh, he]
  simp only [parsePacket, if_neg hsync]
  rw [hpublish]
  simp only [notePacket, hl, hr, hmid]
  refine ⟨trivial, rfl, ?_, hx, hy⟩
  simp only [Packet.motion]
  generalize (m.packet 0).toNat.testBit 0 = l
  cases l <;> cases m.leftPressed <;> cases m.leftClickPending <;> rfl

lemma lastButtons_concat (accepted : List Packet) (p : Packet) :
    lastButtons (accepted ++ [p]) = lastButtons [p] := by
  simp [lastButtons]

lemma Follows.leftPressed_iff (hf : Follows h m) : m.leftPressed = true ↔ h.lefts.getLast? = some true := by
  have hleft : m.leftPressed = (lastButtons h.accepted).1 := congrArg Prod.fst hf.buttons
  rw [hleft, Stream.lefts, List.getLast?_map]
  unfold lastButtons
  cases h.accepted.getLast? <;> simp

lemma Follows.store_open (hf : Follows h m) (b : UInt8) (hindex : m.packetIndex = 0 ∨ m.packetIndex = 1) :
    Follows (h.store b) (storeByte m b) := by
  have hstore : h.store b = { h with pending := h.pending ++ [b] } := by
    have hpending := hf.pending
    unfold Stream.store
    rcases hindex with hi | hi <;> rw [hi] at hpending <;> simp [hpending]
  rw [hstore, storeByte_open (by omega)]
  refine ⟨⟨?_, hf.x, hf.y, hf.buttons, hf.click⟩, ?_, hf.consumed⟩
  · rcases hindex with hi | hi <;> simp [hi]
  · simp only [hf.pending, List.range_succ, List.map_append, List.map_singleton, Function.update_self]
    congr 1
    apply List.map_congr_left
    intro i hi
    exact (Function.update_of_ne (Nat.ne_of_lt (List.mem_range.mp hi)) _ _).symm

lemma Follows.store_last (hf : Follows h m) (b : UInt8) (hindex : m.packetIndex = 2) :
    Follows (h.store b) (storeByte m b) := by
  have hpending : h.pending = [m.packet 0, m.packet 1] := by
    rw [hf.pending, hindex]
    rfl
  obtain ⟨m', hm'⟩ : ∃ m' : Mouse, m' = { m with packet := Function.update m.packet 2 b, packetIndex := 3 } :=
    ⟨_, rfl⟩
  have h0 : m'.packet 0 = m.packet 0 := by rw [hm']; rfl
  have h1 : m'.packet 1 = m.packet 1 := by rw [hm']; rfl
  have h2 : m'.packet 2 = b := by rw [hm']; rfl
  rw [storeByte_last hindex, ← hm']
  unfold Stream.store
  rw [hpending]
  by_cases hsync : m.packet 0 &&& 0x08 = 0
  · rw [parsePacket_lost (h0.symm ▸ hsync)]
    simp only [if_pos hsync, hm']
    exact ⟨⟨Or.inl rfl, hf.x, hf.y, hf.buttons, hf.click⟩, rfl, hf.consumed⟩
  · obtain ⟨hrestart, hbuttons, hclick, hx, hy⟩ := parsePacket_accepted (m := m') (h0.symm ▸ hsync)
    rw [h0, h1, h2] at hbuttons hclick
    simp only [if_neg hsync]
    refine ⟨⟨Or.inl hrestart, hx, hy, ?_, ?_⟩, ?_, ?_⟩
    · rw [hbuttons, lastButtons_concat]
    · have hlefts : h.lefts.length = h.accepted.length := List.length_map _
      have hpressed : m'.leftPressed = m.leftPressed := by rw [hm']
      have hclicked : m'.leftClickPending = m.leftClickPending := by rw [hm']
      simp only [mouseConsumeLeftClick, hclick, hpressed, hclicked, Stream.lefts, List.map_append,
        List.map_singleton]
      rw [exists_rises_concat (by rw [← Stream.lefts, hlefts]; exact hf.consumed), ← Stream.lefts, ← hf.click,
        ne_eq, ← hf.leftPressed_iff]
      simp [mouseConsumeLeftClick]
    · rw [hrestart]
      rfl
    · rw [List.length_append]
      exact Nat.le_add_right_of_le hf.consumed

/-- What a byte does to the driver and to the stream. -/
lemma Follows.byte (hf : Follows h m) (b : UInt8) : Follows (h.byte b) (onByte m b) := by
  have hpending := hf.pending
  have hnil : h.pending = [] ↔ m.packetIndex = 0 := by
    rw [hpending, List.map_eq_nil_iff, List.range_eq_nil]
  unfold onByte Stream.byte
  by_cases hbat : b = 0xAA
  · rw [if_pos hbat, if_pos hbat]
    exact ⟨⟨Or.inl rfl, hf.x, hf.y, hf.buttons, hf.click⟩, rfl, hf.consumed⟩
  by_cases hid : b = 0x00 ∧ m.packetIndex = 0
  · rw [if_neg hbat, if_neg hbat, if_pos hid, if_pos (hid.imp_right hnil.mpr)]
    exact hf
  by_cases hack : b = 0xFA
  · rw [if_neg hbat, if_neg hbat, if_neg hid, if_neg (fun hc => hid (hc.imp_right hnil.mp)), if_pos hack,
      if_pos hack]
    exact hf
  rw [if_neg hbat, if_neg hbat, if_neg hid, if_neg (fun hc => hid (hc.imp_right hnil.mp)), if_neg hack,
    if_neg hack]
  rcases hf.index with hindex | hindex | hindex
  · exact hf.store_open b (Or.inl hindex)
  · exact hf.store_open b (Or.inr hindex)
  · exact hf.store_last b hindex

lemma follows_init (hx : 0 ≤ m.mouseX ∧ m.mouseX < mouseScreenW) (hy : 0 ≤ m.mouseY ∧ m.mouseY < mouseScreenH)
    (c : Controller) : Follows .start (mouseInit m c).1 := by
  have hnone : ¬∃ i, Stream.start.consumed ≤ i ∧ Rises Stream.start.lefts i := fun ⟨_, _, hrises⟩ =>
    not_rises_nil hrises
  exact ⟨⟨Or.inl rfl, hx, hy, rfl, iff_of_false Bool.false_ne_true hnone⟩, rfl, Nat.le_refl 0⟩

lemma Follows.call (hf : Follows h m) (call : MouseCall) : Follows (h.call call) (m.call call) := by
  cases call with
  | init c => exact follows_init hf.x hf.y c
  | irq c =>
    simp only [Mouse.call, Stream.call, delivered]
    by_cases hfull : (inbStatus c).1 &&& ps2StatusOutputFull = 0
    · have hsame : (mouseIrqHandler m c).1 = m := by simp only [mouseIrqHandler, if_pos hfull]
      rw [hsame, if_pos hfull]
      exact hf
    · rw [mouseIrqHandler_fst hfull rfl, if_neg hfull]
      exact hf.byte _
  | consume =>
    refine ⟨⟨hf.index, hf.x, hf.y, hf.buttons, ?_⟩, hf.pending, Nat.le_refl _⟩
    have hnone : ¬∃ i, h.accepted.length ≤ i ∧ Rises h.lefts i := by
      rintro ⟨i, hi, hrises⟩
      have hlt := hrises.lt
      rw [Stream.lefts, List.length_map] at hlt
      omega
    exact iff_of_false Bool.false_ne_true hnone

lemma Follows.run (hf : Follows h m) (calls : List MouseCall) :
    Follows (calls.foldl Stream.call h) (calls.foldl Mouse.call m) :=
  List.foldl_rel hf fun call _ _ _ hf => hf.call call

end Steps

/-- In every state between two calls. -/
theorem mouse_state (c : Controller) (calls : List MouseCall) :
    MouseState (calls.foldl Stream.call .start) (calls.foldl Mouse.call (mouseInit startMouse c).1) := by
  have hx : 0 ≤ startMouse.mouseX ∧ startMouse.mouseX < mouseScreenW := by decide
  have hy : 0 ≤ startMouse.mouseY ∧ startMouse.mouseY < mouseScreenH := by decide
  exact ((follows_init hx hy c).run calls).toMouseState

end SBoy28.Ps2
