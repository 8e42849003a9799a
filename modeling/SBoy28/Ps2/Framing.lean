import SBoy28.Ps2.Model
import Mathlib.Data.Int.Notation

/-!
# Packets of the mouse

The interrupt handler drops every byte that looks like an answer of the mouse, also inside a
packet. Without such a byte each packet is published once.
-/

namespace SBoy28.Ps2

section Specification

/-- A packet as the mouse sends it. -/
structure Packet where
  head : UInt8
  x : UInt8
  y : UInt8

def Packet.bytes (p : Packet) : List UInt8 := [p.head, p.x, p.y]

structure Packet.WellFormed (p : Packet) : Prop where
  sync : p.head &&& 0x08 ≠ 0
  bat : p.head ≠ 0xAA
  ack : p.head ≠ 0xFA

/-- A movement with the buttons, over the integers. -/
structure Motion where
  dx : ℤ
  dy : ℤ
  left : Bool
  right : Bool
  middle : Bool
deriving DecidableEq

/-- The value of a byte in two's complement. -/
def signed (v : UInt8) : ℤ := if v.toNat < 128 then v.toNat else v.toNat - 256

/-- What a packet says. -/
def Packet.motion (p : Packet) : Motion :=
  ⟨signed p.x, -signed p.y, p.head.toNat.testBit 0, p.head.toNat.testBit 1, p.head.toNat.testBit 2⟩

def MouseEvent.motion (e : MouseEvent) : Motion := ⟨e.dx.toInt, e.dy.toInt, e.left, e.right, e.middle⟩

/-- The bytes reach the handler one by one; each of them waits in front when the handler looks. -/
inductive Delivery : Mouse → List UInt8 → Mouse → Prop where
  | nil {m : Mouse} : Delivery m [] m
  | cons {m m' : Mouse} {b : UInt8} {bs : List UInt8} (c : Controller)
    (hfull : (inbStatus c).1 &&& ps2StatusOutputFull ≠ 0) (hdata : (inbData .mouse (inbStatus c).2).1 = b)
    (hrest : Delivery (mouseIrqHandler m c).1 bs m') : Delivery m (b :: bs) m'

end Specification

variable {m m' : Mouse} {b : UInt8} {bs : List UInt8} {p : Packet}

section Bytes

lemma s8_toInt (v : UInt8) : (s8ToS16 v).toInt = signed v := by
  have hv : v.toInt8.toInt = if 2 * v.toNat < 2 ^ 8 then (v.toNat : ℤ) else v.toNat - (2 ^ 8 : ℕ) :=
    BitVec.toInt_eq_toNat_cond v.toBitVec
  have hlt := v.toNat_lt
  rw [s8ToS16, Int8.toInt_toInt16, hv]
  unfold signed
  split_ifs <;> omega

lemma signed_bounds (v : UInt8) : -128 ≤ signed v ∧ signed v < 128 := by
  have hlt := v.toNat_lt
  unfold signed
  split_ifs <;> omega

lemma neg_s8_toInt (v : UInt8) : (-s8ToS16 v).toInt = -signed v := by
  have hbounds := signed_bounds v
  rw [Int16.toInt_neg, s8_toInt]
  apply Int.bmod_eq_of_le <;> omega

/-- What the handler does to the driver with a byte. -/
def onByte (m : Mouse) (data : UInt8) : Mouse :=
  if data = 0xAA then { m with packetIndex := 0 }
  else if data = 0x00 ∧ m.packetIndex = 0 then m
  else if data = 0xFA then m
  else storeByte m data

lemma mouseIrqHandler_fst {c : Controller} (hfull : (inbStatus c).1 &&& ps2StatusOutputFull ≠ 0)
    (hdata : (inbData .mouse (inbStatus c).2).1 = b) : (mouseIrqHandler m c).1 = onByte m b := by
  simp only [mouseIrqHandler, if_neg hfull, hdata, onByte]
  split_ifs <;> rfl

lemma Delivery.eq_foldl (h : Delivery m bs m') : m' = bs.foldl onByte m := by
  induction h with
  | nil => rfl
  | cons c hfull hdata _ ih => rw [ih, mouseIrqHandler_fst hfull hdata, List.foldl_cons]

/-- A byte that the handler takes for an answer of the mouse. -/
def isAnswer (v : UInt8) : Bool := v == 0xAA || v == 0xFA

lemma onByte_store (ha : isAnswer b = false) (hz : b ≠ 0x00 ∨ m.packetIndex ≠ 0) :
    onByte m b = storeByte m b := by
  simp only [isAnswer, Bool.or_eq_false_iff, beq_eq_false_iff_ne] at ha
  have hzero : ¬(b = 0x00 ∧ m.packetIndex = 0) := by tauto
  rw [onByte, if_neg ha.1, if_neg hzero, if_neg ha.2]

end Bytes

section Events

lemma publishEvent_fields (m : Mouse) (dx dy : Int16) (l r mid : Bool) :
    (publishEvent m dx dy l r mid).published = m.published ++ [⟨dx, dy, l, r, mid⟩] ∧
      (publishEvent m dx dy l r mid).handled =
        m.handled ++ (if m.hasHandler && m.eventHandler then [⟨dx, dy, l, r, mid⟩] else []) ∧
      (publishEvent m dx dy l r mid).packetIndex = m.packetIndex ∧
      (publishEvent m dx dy l r mid).hasHandler = m.hasHandler ∧
      (publishEvent m dx dy l r mid).eventHandler = m.eventHandler := by
  cases hh : m.hasHandler <;> cases he : m.eventHandler <;> simp [publishEvent, hh, he]

/-- The event that is published for the bytes of a packet. -/
def packetEvent (m : Mouse) : MouseEvent :=
  ⟨s8ToS16 (m.packet 1), -s8ToS16 (m.packet 2), decide (m.packet 0 &&& 0x1 ≠ 0),
    decide (m.packet 0 &&& 0x2 ≠ 0), decide (m.packet 0 &&& 0x4 ≠ 0)⟩

lemma parsePacket_sync (hsync : m.packet 0 &&& 0x08 ≠ 0) :
    (parsePacket m).published = m.published ++ [packetEvent m] ∧
      (parsePacket m).handled =
        m.handled ++ (if m.hasHandler && m.eventHandler then [packetEvent m] else []) ∧
      (parsePacket m).packetIndex = 0 ∧ (parsePacket m).hasHandler = m.hasHandler ∧
      (parsePacket m).eventHandler = m.eventHandler := by
  simp only [parsePacket, if_neg hsync]
  exact publishEvent_fields _ _ _ _ _ _

lemma parsePacket_lost (hsync : m.packet 0 &&& 0x08 = 0) : parsePacket m = { m with packetIndex := 0 } := by
  simp only [parsePacket, if_pos hsync]

lemma button_bit (v : UInt8) : decide (v &&& 0x1 ≠ 0) = v.toNat.testBit 0 ∧
    decide (v &&& 0x2 ≠ 0) = v.toNat.testBit 1 ∧ decide (v &&& 0x4 ≠ 0) = v.toNat.testBit 2 := by
  have hall : ∀ n < 256, decide (UInt8.ofNat n &&& 0x1 ≠ 0) = n.testBit 0 ∧
      decide (UInt8.ofNat n &&& 0x2 ≠ 0) = n.testBit 1 ∧ decide (UInt8.ofNat n &&& 0x4 ≠ 0) = n.testBit 2 := by
    decide +kernel
  have hv := hall v.toNat v.toNat_lt
  rwa [UInt8.ofNat_toNat] at hv

/-- What one packet does to the driver. -/
structure Reported (m : Mouse) (ps : List Packet) (m' : Mouse) : Prop where
  published : m'.published.map MouseEvent.motion = m.published.map MouseEvent.motion ++ ps.map Packet.motion
  handled : m'.handled.map MouseEvent.motion = m.handled.map MouseEvent.motion ++
    (if m.hasHandler && m.eventHandler then ps.map Packet.motion else [])
  index : m'.packetIndex = 0

lemma parsePacket_reported (h0 : m.packet 0 = p.head) (h1 : m.packet 1 = p.x) (h2 : m.packet 2 = p.y)
    (hp : p.WellFormed) :
    Reported m [p] (parsePacket m) ∧ (parsePacket m).hasHandler = m.hasHandler ∧
      (parsePacket m).eventHandler = m.eventHandler := by
  have hmotion : (packetEvent m).motion = p.motion := by
    obtain ⟨hl, hr, hm⟩ := button_bit p.head
    rw [packetEvent, MouseEvent.motion, h0, h1, h2, s8_toInt, neg_s8_toInt, hl, hr, hm, Packet.motion]
  obtain ⟨hpub, hhandled, hindex, hhas, hevent⟩ := parsePacket_sync (h0 ▸ hp.sync)
  refine ⟨⟨?_, ?_, hindex⟩, hhas, hevent⟩
  · rw [hpub, List.map_append, List.map_singleton, hmotion, List.map_singleton]
  · rw [hhandled, List.map_append]
    split_ifs
    · rw [List.map_singleton, hmotion, List.map_singleton]
    · rw [List.map_nil]

/-- A packet without such a byte is reported. -/
theorem packet_reported (hp : p.WellFormed) (hx : isAnswer p.x = false) (hy : isAnswer p.y = false)
    (hm : m.packetIndex = 0) :
    Reported m [p] (p.bytes.foldl onByte m) ∧ (p.bytes.foldl onByte m).hasHandler = m.hasHandler ∧
      (p.bytes.foldl onByte m).eventHandler = m.eventHandler := by
  have hhead : isAnswer p.head = false := by
    simp [isAnswer, hp.bat, hp.ack]
  have hzero : p.head ≠ 0x00 := by
    intro he
    have hsync := hp.sync
    rw [he] at hsync
    exact hsync rfl
  obtain ⟨m₁, hm₁⟩ : ∃ m₁ : Mouse, m₁ = { m with packet := Function.update m.packet 0 p.head, packetIndex := 1 } :=
    ⟨_, rfl⟩
  obtain ⟨m₂, hm₂⟩ : ∃ m₂ : Mouse, m₂ = { m₁ with packet := Function.update m₁.packet 1 p.x, packetIndex := 2 } :=
    ⟨_, rfl⟩
  obtain ⟨m₃, hm₃⟩ : ∃ m₃ : Mouse, m₃ = { m₂ with packet := Function.update m₂.packet 2 p.y, packetIndex := 3 } :=
    ⟨_, rfl⟩
  have h₁ : onByte m p.head = m₁ := by
    rw [onByte_store hhead (Or.inl hzero), storeByte, hm, hm₁]
    rfl
  have h₂ : onByte m₁ p.x = m₂ := by
    rw [onByte_store hx (Or.inr (by simp [hm₁])), storeByte, hm₂]
    simp [hm₁]
  have h₃ : onByte m₂ p.y = parsePacket m₃ := by
    rw [onByte_store hy (Or.inr (by simp [hm₂])), storeByte, hm₃]
    simp [hm₂]
  have hfold : p.bytes.foldl onByte m = parsePacket m₃ := by
    simp only [Packet.bytes, List.foldl_cons, List.foldl_nil, h₁, h₂, h₃]
  have hparse := parsePacket_reported (m := m₃) (p := p) (by simp [hm₃, hm₂, hm₁]) (by simp [hm₃, hm₂])
    (by simp [hm₃]) hp
  have hsame : m₃.published = m.published ∧ m₃.handled = m.handled ∧ m₃.hasHandler = m.hasHandler ∧
      m₃.eventHandler = m.eventHandler := by
    simp [hm₃, hm₂, hm₁]
  obtain ⟨hpub, hhandled, hhas, hevent⟩ := hsame
  rw [hfold]
  obtain ⟨⟨rpub, rhandled, rindex⟩, rhas, revent⟩ := hparse
  rw [hpub] at rpub
  rw [hhandled, hhas, hevent] at rhandled
  exact ⟨⟨rpub, rhandled, rindex⟩, rhas.trans hhas, revent.trans hevent⟩

end Events

section Counting

/-- The bytes that the published events and the open packet account for. -/
def weight (m : Mouse) : ℕ := 3 * m.published.length + m.packetIndex

lemma weight_parsePacket (m : Mouse) :
    weight (parsePacket m) ≤ 3 * m.published.length + 3 ∧ (parsePacket m).packetIndex = 0 := by
  by_cases hsync : m.packet 0 &&& 0x08 = 0
  · rw [parsePacket_lost hsync, weight]
    exact ⟨by simp, rfl⟩
  · obtain ⟨hpub, -, hindex, -⟩ := parsePacket_sync hsync
    rw [weight, hpub, hindex, List.length_append, List.length_singleton]
    exact ⟨by omega, rfl⟩

/-- A byte that the handler drops adds nothing, and no byte adds more than itself. -/
lemma weight_onByte (h : m.packetIndex ≤ 2) :
    weight (onByte m b) ≤ weight m + (if isAnswer b then 0 else 1) ∧ (onByte m b).packetIndex ≤ 2 := by
  by_cases hbat : b = 0xAA
  · rw [onByte, if_pos hbat]
    exact ⟨by simp only [weight]; omega, by simp⟩
  by_cases hzero : b = 0x00 ∧ m.packetIndex = 0
  · rw [onByte, if_neg hbat, if_pos hzero]
    exact ⟨by omega, h⟩
  by_cases hack : b = 0xFA
  · rw [onByte, if_neg hbat, if_neg hzero, if_pos hack]
    exact ⟨by omega, h⟩
  · have hanswer : isAnswer b = false := by simp [isAnswer, hbat, hack]
    rw [onByte, if_neg hbat, if_neg hzero, if_neg hack, hanswer, storeByte]
    by_cases hfull : 3 ≤ m.packetIndex + 1
    · obtain ⟨hle, hindex⟩ := weight_parsePacket
        { m with packet := Function.update m.packet m.packetIndex b, packetIndex := m.packetIndex + 1 }
      simp only [if_pos hfull, weight] at hle ⊢
      simp only [hindex] at hle ⊢
      exact ⟨by simp; omega, by omega⟩
    · simp only [if_neg hfull, weight]
      exact ⟨by simp; omega, by omega⟩

/-- The events of a stream need three bytes each that are not dropped. -/
lemma weight_foldl (h : m.packetIndex ≤ 2) (bs : List UInt8) :
    weight (bs.foldl onByte m) ≤ weight m + bs.countP (fun v => !isAnswer v) := by
  induction bs generalizing m with
  | nil => simp
  | cons b bs ih =>
    obtain ⟨hle, hindex⟩ := weight_onByte h (b := b)
    have hrest := ih hindex
    rw [List.foldl_cons, List.countP_cons]
    cases ha : isAnswer b
    · simp only [ha, Bool.not_false, if_true, Bool.false_eq_true, if_false] at hle ⊢
      omega
    · simp only [ha, Bool.not_true, if_true, Bool.false_eq_true, if_false] at hle ⊢
      omega

end Counting

section Runs

lemma reported_nil (hm : m.packetIndex = 0) : Reported m [] m :=
  ⟨by simp, by simp, hm⟩

lemma Reported.cons {ps : List Packet} {m₁ : Mouse} (h : Reported m [p] m₁) (h' : Reported m₁ ps m')
    (hhas : m₁.hasHandler = m.hasHandler) (hevent : m₁.eventHandler = m.eventHandler) :
    Reported m (p :: ps) m' where
  published := by
    rw [h'.published, h.published, List.append_assoc, ← List.map_append, List.singleton_append]
  handled := by
    rw [h'.handled, h.handled, hhas, hevent, List.append_assoc]
    split_ifs
    · rw [← List.map_append, List.singleton_append]
    · rw [List.append_nil]
  index := h'.index

/-- Packets without such bytes are all reported. -/
theorem packets_reported {ps : List Packet} (hwf : ∀ p ∈ ps, p.WellFormed)
    (hclean : ∀ p ∈ ps, isAnswer p.x = false ∧ isAnswer p.y = false) (hm : m.packetIndex = 0) :
    Reported m ps ((ps.flatMap Packet.bytes).foldl onByte m) := by
  induction ps generalizing m with
  | nil => exact reported_nil hm
  | cons p ps ih =>
    obtain ⟨hx, hy⟩ := hclean p (by simp)
    obtain ⟨hfirst, hhas, hevent⟩ := packet_reported (hwf p (by simp)) hx hy hm
    rw [List.flatMap_cons, List.foldl_append]
    refine hfirst.cons (ih ?_ ?_ hfirst.index) hhas hevent
    · exact fun q hq => hwf q (by simp [hq])
    · exact fun q hq => hclean q (by simp [hq])

lemma length_flatMap_bytes (ps : List Packet) : (ps.flatMap Packet.bytes).length = 3 * ps.length := by
  induction ps with
  | nil => rfl
  | cons p ps ih =>
    rw [List.flatMap_cons, List.length_append, ih, List.length_cons]
    simp only [Packet.bytes, List.length_cons, List.length_nil]
    omega

lemma Reported.kept {ps : List Packet} (hm : m.packetIndex = 0)
    (h : Reported m ps ((ps.flatMap Packet.bytes).foldl onByte m)) :
    ∀ v ∈ ps.flatMap Packet.bytes, isAnswer v = false := by
  have hweight := weight_foldl (m := m) (by omega) (ps.flatMap Packet.bytes)
  have hlen := congrArg List.length h.published
  rw [List.length_append, List.length_map, List.length_map, List.length_map] at hlen
  rw [weight, weight, h.index, hm, hlen] at hweight
  have hcount : (ps.flatMap Packet.bytes).countP (fun v => !isAnswer v) = (ps.flatMap Packet.bytes).length := by
    have hle := List.countP_le_length (p := fun v => !isAnswer v) (l := ps.flatMap Packet.bytes)
    rw [length_flatMap_bytes] at hle ⊢
    omega
  intro v hv
  simpa using List.countP_eq_length.mp hcount v hv

/-- Well-formed packets are each published once, in order, if and only if none of them moves by
`0xAA` or `0xFA`. -/
theorem packet_framing {ps : List Packet} (hm : m.packetIndex = 0) (hwf : ∀ p ∈ ps, p.WellFormed)
    (hrun : Delivery m (ps.flatMap Packet.bytes) m') :
    Reported m ps m' ↔ ∀ p ∈ ps, isAnswer p.x = false ∧ isAnswer p.y = false := by
  rw [hrun.eq_foldl]
  constructor
  · intro h p hp
    have hkept := h.kept hm
    exact ⟨hkept p.x (List.mem_flatMap.mpr ⟨p, hp, by simp [Packet.bytes]⟩),
      hkept p.y (List.mem_flatMap.mpr ⟨p, hp, by simp [Packet.bytes]⟩)⟩
  · intro hclean
    exact packets_reported hwf hclean hm

/-- The driver after `mouse_init`. -/
def startMouse : Mouse := ⟨fun _ => 0, 0, false, false, 160, 100, false, false, false, false, [], []⟩

lemma delivery (m : Mouse) (bs : List UInt8) : Delivery m bs (bs.foldl onByte m) := by
  induction bs generalizing m with
  | nil => exact Delivery.nil
  | cons b bs ih =>
    obtain ⟨c, hc⟩ : ∃ c : Controller, c = ⟨[⟨.mouse, b⟩], none, [], [], []⟩ := ⟨_, rfl⟩
    have hstatus : (inbStatus c).1 = ps2StatusOutputFull ||| ps2StatusAuxdata := by
      rw [hc]
      rfl
    have hfull : (inbStatus c).1 &&& ps2StatusOutputFull ≠ 0 := by
      rw [hstatus]
      decide
    have hdata : (inbData .mouse (inbStatus c).2).1 = b := by
      rw [hc]
      rfl
    have hrest : Delivery (mouseIrqHandler m c).1 bs (bs.foldl onByte (onByte m b)) := by
      rw [mouseIrqHandler_fst hfull hdata]
      exact ih _
    exact Delivery.cons c hfull hdata hrest

/-- A press of the left button with a movement by 5 and 1. -/
theorem packet_framing_click :
    Reported startMouse [⟨0x09, 0x05, 0xFF⟩] (([⟨0x09, 0x05, 0xFF⟩].flatMap Packet.bytes).foldl onByte startMouse) :=
  (packet_framing rfl (by simp; exact ⟨by decide, by decide, by decide⟩) (delivery _ _)).mpr (by decide)

/-- A movement by -6 loses its byte. -/
theorem packet_framing_ack : ¬∀ (m m' : Mouse) (ps : List Packet), m.packetIndex = 0 →
    (∀ p ∈ ps, p.WellFormed) → Delivery m (ps.flatMap Packet.bytes) m' → Reported m ps m' := by
  intro h
  have hwf : ∀ p ∈ [(⟨0x08, 0xFA, 0x05⟩ : Packet)], p.WellFormed := by
    simp
    exact ⟨by decide, by decide, by decide⟩
  have hreported := h startMouse _ [⟨0x08, 0xFA, 0x05⟩] rfl hwf (delivery _ _)
  exact absurd hreported.index (by decide)

end Runs

end SBoy28.Ps2
