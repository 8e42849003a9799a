import Mathlib.Logic.Function.Basic
import Mathlib.Data.Nat.Notation
import Mathlib.Tactic.Common

/-!
# Keyboard and mouse

`keyboard.c` and `mouse.c` read their bytes from the one output buffer of the PS/2 controller.
The status port tells whether a byte is waiting and whether it comes from the mouse. While a
driver function runs, bytes may arrive before any of its accesses to a port.
-/

namespace SBoy28.Ps2

section Controller

inductive Device where
  | keyboard
  | mouse
deriving DecidableEq, Repr

structure DeviceByte where
  device : Device
  value : UInt8
deriving DecidableEq, Repr

/-- The controller: the bytes that wait, the byte that the data port gives when none does, what
arrives before each of the next accesses, and the bytes read so far with the driver that read
them. -/
structure Controller where
  waiting : List DeviceByte
  last : Option DeviceByte
  arriving : List (List DeviceByte)
  taken : List (Device × DeviceByte)
  sent : List UInt8
deriving DecidableEq

def ps2StatusOutputFull : UInt8 := 0x01
def ps2StatusInputFull : UInt8 := 0x02
def ps2StatusAuxdata : UInt8 := 0x20

/-- The bytes that arrive before an access. -/
def Controller.arrive (c : Controller) : Controller :=
  match c.arriving with
  | [] => c
  | bytes :: rest => { c with waiting := c.waiting ++ bytes, arriving := rest }

/-- The status with this byte in front. -/
def status : Option DeviceByte → UInt8
  | none => 0
  | some ⟨.keyboard, _⟩ => ps2StatusOutputFull
  | some ⟨.mouse, _⟩ => ps2StatusOutputFull ||| ps2StatusAuxdata

/-- `inb(0x64)`; the controller takes every command at once. -/
def inbStatus (c : Controller) : UInt8 × Controller := (status c.arrive.waiting.head?, c.arrive)

/-- The data port without arrivals. -/
def Controller.read (c : Controller) (reader : Device) : UInt8 × Controller :=
  match c.waiting with
  | b :: rest => (b.value, { c with waiting := rest, last := some b, taken := c.taken ++ [(reader, b)] })
  | [] =>
    match c.last with
    | some b => (b.value, { c with taken := c.taken ++ [(reader, b)] })
    | none => (0, c)

/-- `inb(0x60)` in the driver of `reader`. -/
def inbData (reader : Device) (c : Controller) : UInt8 × Controller := c.arrive.read reader

def outb (value : UInt8) (c : Controller) : Controller := { c.arrive with sent := c.sent ++ [value] }

end Controller

section Keyboard

structure Keyboard where
  keyBuffer : ℕ → UInt8
  bufferIndex : ℕ
  shiftPressed : Bool
  ctrlPressed : Bool
  altPressed : Bool

def keyShiftLeft : ℕ := 0x2A
def keyShiftRight : ℕ := 0x36
def keyCtrlLeft : ℕ := 0x1D
def keyCtrlRight : ℕ := 0x9D
def keyAltLeft : ℕ := 0x38
def keyAltRight : ℕ := 0xB8

def readKey (c : Controller) : UInt8 × Controller := inbData .keyboard c

def isKeyPressed (c : Controller) : Bool × Controller :=
  let r := inbStatus c
  (decide (r.1 &&& 0x01 ≠ 0), r.2)

/-- What `poll_keyboard` does with a scancode. -/
def handleScancode (k : Keyboard) (key : UInt8) : Keyboard :=
  let scancode := key.toNat
  if scancode = keyShiftLeft ∨ scancode = keyShiftRight then { k with shiftPressed := true }
  else if scancode = keyCtrlLeft ∨ scancode = keyCtrlRight then { k with ctrlPressed := true }
  else if scancode = keyAltLeft ∨ scancode = keyAltRight then { k with altPressed := true }
  else if scancode = keyShiftLeft + 0x80 ∨ scancode = keyShiftRight + 0x80 then
    { k with shiftPressed := false }
  else if scancode = keyCtrlLeft + 0x80 ∨ scancode = keyCtrlRight + 0x80 then
    { k with ctrlPressed := false }
  else if scancode = keyAltLeft + 0x80 ∨ scancode = keyAltRight + 0x80 then
    { k with altPressed := false }
  else
    { k with keyBuffer := Function.update k.keyBuffer k.bufferIndex key, bufferIndex := k.bufferIndex + 1 }

def pollKeyboard (k : Keyboard) (c : Controller) : Keyboard × Controller :=
  let r := isKeyPressed c
  if r.1 then
    let key := readKey r.2
    (handleScancode k key.1, key.2)
  else (k, r.2)

end Keyboard

section Mouse

structure MouseEvent where
  dx : Int16
  dy : Int16
  left : Bool
  right : Bool
  middle : Bool
deriving DecidableEq

/-- The state of the mouse driver, with the calls of `publish_event` and the events that a
registered handler has got. -/
structure Mouse where
  packet : ℕ → UInt8
  packetIndex : ℕ
  hasHandler : Bool
  eventHandler : Bool
  mouseX : Int32
  mouseY : Int32
  leftPressed : Bool
  rightPressed : Bool
  middlePressed : Bool
  leftClickPending : Bool
  published : List MouseEvent
  handled : List MouseEvent

def mouseScreenW : Int32 := 320
def mouseScreenH : Int32 := 200

/-- The loop ends after 100001 looks at the status. -/
def waitInputClear : ℕ → Controller → Controller
  | 0, c => c
  | n + 1, c =>
    let r := inbStatus c
    if r.1 &&& ps2StatusInputFull ≠ 0 then waitInputClear n r.2 else r.2

def waitForOutput : ℕ → Controller → UInt8 × Controller
  | 0, c => (0, c)
  | n + 1, c =>
    let r := inbStatus c
    if r.1 &&& ps2StatusOutputFull = 0 then waitForOutput n r.2 else inbData .mouse r.2

def ps2SendToAux (byte : UInt8) (c : Controller) : Controller :=
  let c := outb 0xD4 (waitInputClear 100001 c)
  let c := outb 0 c
  outb byte (waitInputClear 100001 c)

/-- The bytes that wait or are going to arrive. -/
def Controller.pending (c : Controller) : ℕ := c.waiting.length + c.arriving.flatten.length

/-- The loop of `mouse_device_init` that flushes stale data. -/
def flushOutput : ℕ → Controller → Controller
  | 0, c => c
  | n + 1, c =>
    let r := inbStatus c
    if r.1 &&& ps2StatusOutputFull ≠ 0 then flushOutput n (inbData .mouse r.2).2 else r.2

def mouseDeviceInit (c : Controller) : Controller :=
  let c := ps2SendToAux 0xF6 c
  let c := (waitForOutput 100001 c).2
  let c := outb 0 c
  let c := ps2SendToAux 0xF4 c
  let c := (waitForOutput 100001 c).2
  let c := outb 0 c
  flushOutput (c.pending + 1) c

def s8ToS16 (v : UInt8) : Int16 := v.toInt8.toInt16

def publishEvent (m : Mouse) (dx dy : Int16) (l r mid : Bool) : Mouse :=
  let evt : MouseEvent := ⟨dx, dy, l, r, mid⟩
  let m := { m with published := m.published ++ [evt] }
  if !m.hasHandler || !m.eventHandler then m else { m with handled := m.handled ++ [evt] }

/-- A coordinate on the screen. -/
def clamp (v size : Int32) : Int32 :=
  let v := if v < 0 then 0 else v
  if v ≥ size then size - 1 else v

/-- The click, the buttons and the position after a packet. -/
def notePacket (m : Mouse) (dx dy : Int16) (l r mid : Bool) : Mouse :=
  { m with
    leftClickPending := if l && !m.leftPressed then true else m.leftClickPending
    leftPressed := l
    rightPressed := r
    middlePressed := mid
    mouseX := clamp (m.mouseX + dx.toInt32) mouseScreenW
    mouseY := clamp (m.mouseY + dy.toInt32) mouseScreenH }

/-- What `mouse_irq_handler` does once it has the three bytes of a packet. -/
def parsePacket (m : Mouse) : Mouse :=
  let m := { m with packetIndex := 0 }
  if m.packet 0 &&& 0x08 = 0 then m
  else
    let dx := s8ToS16 (m.packet 1)
    let dy := -s8ToS16 (m.packet 2)
    let l := decide (m.packet 0 &&& 0x1 ≠ 0)
    let r := decide (m.packet 0 &&& 0x2 ≠ 0)
    let mid := decide (m.packet 0 &&& 0x4 ≠ 0)
    publishEvent (notePacket m dx dy l r mid) dx dy l r mid

/-- `packet[packet_index++] = data`, and what follows. -/
def storeByte (m : Mouse) (data : UInt8) : Mouse :=
  let m := { m with packet := Function.update m.packet m.packetIndex data, packetIndex := m.packetIndex + 1 }
  if 3 ≤ m.packetIndex then parsePacket m else m

def mouseIrqHandler (m : Mouse) (c : Controller) : Mouse × Controller :=
  let r := inbStatus c
  if r.1 &&& ps2StatusOutputFull = 0 then (m, r.2)
  else
    let r := inbData .mouse r.2
    if r.1 = 0xAA then ({ m with packetIndex := 0 }, r.2)
    else if r.1 = 0x00 ∧ m.packetIndex = 0 then (m, mouseDeviceInit r.2)
    else if r.1 = 0xFA then (m, r.2)
    else (storeByte m r.1, r.2)

end Mouse

end SBoy28.Ps2
