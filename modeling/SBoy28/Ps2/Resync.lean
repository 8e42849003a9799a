import SBoy28.Ps2.Framing

/-!
# The mouse driver out of step

The handler looks at the sync bit when it has three bytes, and drops all three if the bit is missing.
The next three bytes are cut from the stream at the same place.
-/

namespace SBoy28.Ps2

variable {m m' : Mouse} {b : UInt8} {p : Packet} {ps : List Packet}

section Specification

/-- Only the first byte of a packet has the sync bit, and no byte looks like an answer of the mouse. -/
structure Packet.Marked (p : Packet) : Prop where
  head : p.head &&& 0x08 ≠ 0
  x : p.x &&& 0x08 = 0
  y : p.y &&& 0x08 = 0
  clean : ∀ v ∈ p.bytes, v ≠ 0x00 ∧ v ≠ 0xAA ∧ v ≠ 0xFA

/-- The driver publishes one event, the motion of the packet. -/
structure Decoded (m : Mouse) (p : Packet) (m' : Mouse) : Prop where
  published : m'.published.map MouseEvent.motion = m.published.map MouseEvent.motion ++ [p.motion]
  handled : m'.handled.map MouseEvent.motion = m.handled.map MouseEvent.motion ++
    (if m.hasHandler && m.eventHandler then [p.motion] else [])

/-- After at most three packets every further packet is decoded. -/
def Resynchronises (m : Mouse) (ps : List Packet) : Prop :=
  ∃ k ≤ 3, ∀ before p after, ps = before ++ p :: after → k ≤ before.length →
    ∀ m₁ m₂, Delivery m (before.flatMap Packet.bytes) m₁ → Delivery m₁ p.bytes m₂ → Decoded m₁ p m₂

end Specification

section Alignment

lemma onByte_of_clean (hb : b ≠ 0x00 ∧ b ≠ 0xAA ∧ b ≠ 0xFA) : onByte m b = storeByte m b := by
  refine onByte_store ?_ (Or.inl hb.1)
  simp [isAnswer, hb.2.1, hb.2.2]

lemma storeByte_open (h : m.packetIndex < 2) (b : UInt8) : storeByte m b =
    { m with packet := Function.update m.packet m.packetIndex b, packetIndex := m.packetIndex + 1 } := by
  have hopen : ¬3 ≤ m.packetIndex + 1 := by omega
  simp only [storeByte, if_neg hopen]

lemma storeByte_last (h : m.packetIndex = 2) (b : UInt8) : storeByte m b =
    parsePacket { m with packet := Function.update m.packet 2 b, packetIndex := 3 } := by
  simp only [storeByte, h]
  rfl

lemma parsePacket_restart (m : Mouse) : (parsePacket m).packetIndex = 0 := by
  by_cases hsync : m.packet 0 &&& 0x08 = 0
  · rw [parsePacket_lost hsync]
  · exact (parsePacket_sync hsync).2.2.1

/-- The driver is in the middle of what it takes for a packet, one without the sync bit. -/
structure OutOfStep (m : Mouse) : Prop where
  index : m.packetIndex = 1 ∨ m.packetIndex = 2
  sync : m.packet 0 &&& 0x08 = 0

/-- With one stale byte, the first two bytes of the packet end an old packet and the third begins one. -/
lemma foldl_one (hp : p.Marked) (hm : m.packetIndex = 1) :
    ∃ m₁ : Mouse, m₁.published = m.published ∧ m₁.packet 0 = m.packet 0 ∧
      OutOfStep (p.bytes.foldl onByte m) ∧ (p.bytes.foldl onByte m).published = (parsePacket m₁).published := by
  have hclean := hp.clean
  simp only [Packet.bytes, List.forall_mem_cons] at hclean
  obtain ⟨hhead, hx, hy, -⟩ := hclean
  obtain ⟨m₁, hm₁⟩ : ∃ m₁ : Mouse, m₁ = { m with
    packet := Function.update (Function.update m.packet 1 p.head) 2 p.x, packetIndex := 3 } := ⟨_, rfl⟩
  have hfold : p.bytes.foldl onByte m = { parsePacket m₁ with
      packet := Function.update (parsePacket m₁).packet 0 p.y, packetIndex := 1 } := by
    simp only [Packet.bytes, List.foldl_cons, List.foldl_nil]
    rw [onByte_of_clean hhead, storeByte_open (by omega), onByte_of_clean hx,
      storeByte_last (by simp only [hm]), onByte_of_clean hy]
    simp only [hm, ← hm₁]
    rw [storeByte_open (by rw [parsePacket_restart]; omega), parsePacket_restart]
  refine ⟨m₁, by rw [hm₁], by rw [hm₁]; rfl, ⟨?_, ?_⟩, ?_⟩
  · rw [hfold]
    exact Or.inl rfl
  · rw [hfold]
    exact hp.y
  · rw [hfold]

/-- With two stale bytes, the first byte of the packet ends an old packet and the others begin one. -/
lemma foldl_two (hp : p.Marked) (hm : m.packetIndex = 2) :
    ∃ m₁ : Mouse, m₁.published = m.published ∧ m₁.packet 0 = m.packet 0 ∧
      OutOfStep (p.bytes.foldl onByte m) ∧ (p.bytes.foldl onByte m).published = (parsePacket m₁).published := by
  have hclean := hp.clean
  simp only [Packet.bytes, List.forall_mem_cons] at hclean
  obtain ⟨hhead, hx, hy, -⟩ := hclean
  obtain ⟨m₁, hm₁⟩ : ∃ m₁ : Mouse, m₁ = { m with
    packet := Function.update m.packet 2 p.head, packetIndex := 3 } := ⟨_, rfl⟩
  have hfold : p.bytes.foldl onByte m = { parsePacket m₁ with
      packet := Function.update (Function.update (parsePacket m₁).packet 0 p.x) 1 p.y, packetIndex := 2 } := by
    simp only [Packet.bytes, List.foldl_cons, List.foldl_nil]
    rw [onByte_of_clean hhead, storeByte_last hm, onByte_of_clean hx, ← hm₁,
      storeByte_open (by rw [parsePacket_restart]; omega), parsePacket_restart, onByte_of_clean hy,
      storeByte_open (Nat.lt_succ_self 1)]
  refine ⟨m₁, by rw [hm₁], by rw [hm₁]; rfl, ⟨?_, ?_⟩, ?_⟩
  · rw [hfold]
    exact Or.inr rfl
  · rw [hfold]
    exact hp.x
  · rw [hfold]

/-- A driver that is not at the start of a packet is out of step after the next packet, and publishes
nothing if it was out of step already. -/
lemma outOfStep_packet (hp : p.Marked) (hm : m.packetIndex = 1 ∨ m.packetIndex = 2) :
    OutOfStep (p.bytes.foldl onByte m) ∧
      (m.packet 0 &&& 0x08 = 0 → (p.bytes.foldl onByte m).published = m.published) := by
  obtain ⟨m₁, hpub, hfirst, hout, hfold⟩ := hm.elim (foldl_one hp) (foldl_two hp)
  refine ⟨hout, fun hsync => ?_⟩
  rw [hfold, parsePacket_lost (hfirst ▸ hsync), hpub]

lemma outOfStep_foldl (hps : ∀ p ∈ ps, p.Marked) (hne : ps ≠ [])
    (hm : m.packetIndex = 1 ∨ m.packetIndex = 2) : OutOfStep ((ps.flatMap Packet.bytes).foldl onByte m) := by
  induction ps generalizing m with
  | nil => exact absurd rfl hne
  | cons p ps ih =>
    have hout := (outOfStep_packet (hps p List.mem_cons_self) hm).1
    rw [List.flatMap_cons, List.foldl_append]
    by_cases hnil : ps = []
    · rw [hnil]
      exact hout
    · exact ih (fun q hq => hps q (List.mem_cons_of_mem p hq)) hnil hout.index

end Alignment

section Results

lemma Packet.Marked.wellFormed (hp : p.Marked) : p.WellFormed where
  sync := hp.head
  bat := (hp.clean p.head (by simp [Packet.bytes])).2.1
  ack := (hp.clean p.head (by simp [Packet.bytes])).2.2

lemma Packet.Marked.not_answer (hp : p.Marked) : isAnswer p.x = false ∧ isAnswer p.y = false := by
  have hx := hp.clean p.x (by simp [Packet.bytes])
  have hy := hp.clean p.y (by simp [Packet.bytes])
  simp [isAnswer, hx.2.1, hx.2.2, hy.2.1, hy.2.2]

lemma Reported.decoded (h : Reported m [p] m') : Decoded m p m' where
  published := h.published
  handled := h.handled

lemma resynchronises_aligned (hps : ∀ p ∈ ps, p.Marked) (hm : m.packetIndex = 0) : Resynchronises m ps := by
  refine ⟨0, by omega, fun before p after he _ m₁ m₂ h₁ h₂ => ?_⟩
  have hbefore : ∀ q ∈ before, q.Marked := fun q hq => hps q (by simp [he, hq])
  have hp : p.Marked := hps p (by simp [he])
  have hfirst := packets_reported (fun q hq => (hbefore q hq).wellFormed) (fun q hq => (hbefore q hq).not_answer) hm
  rw [← h₁.eq_foldl] at hfirst
  obtain ⟨hlast, -⟩ := packet_reported hp.wellFormed hp.not_answer.1 hp.not_answer.2 hfirst.index
  rw [← h₂.eq_foldl] at hlast
  exact hlast.decoded

/-- Out of step the driver misses the fourth packet. -/
lemma not_resynchronises (hps : ∀ p ∈ ps, p.Marked) (hm : m.packetIndex = 1 ∨ m.packetIndex = 2)
    (hlong : 3 < ps.length) : ¬Resynchronises m ps := by
  rintro ⟨k, hk, hdecoded⟩
  have hlen : (ps.take 3).length = 3 := by
    rw [List.length_take]
    omega
  have hsplit : ps = ps.take 3 ++ ps[3] :: ps.drop 4 := by
    rw [List.getElem_cons_drop, List.take_append_drop]
  have hbefore : OutOfStep (((ps.take 3).flatMap Packet.bytes).foldl onByte m) := by
    refine outOfStep_foldl (fun q hq => hps q (List.mem_of_mem_take hq)) ?_ hm
    intro hnil
    rw [hnil] at hlen
    cases hlen
  have hsame := (outOfStep_packet (hps ps[3] (List.getElem_mem hlong)) hbefore.index).2 hbefore.sync
  have hevent := (hdecoded _ _ _ hsplit (by omega) _ _ (delivery m _) (delivery _ _)).published
  rw [hsame] at hevent
  have hcount := congrArg List.length hevent
  simp only [List.length_append, List.length_map, List.length_singleton] at hcount
  omega

/-- The mouse driver finds the start of the packets just if it was there already (or if the stream is
too short to tell). -/
theorem resynchronises_iff (hm : m.packetIndex ≤ 2) (hps : ∀ p ∈ ps, p.Marked) :
    Resynchronises m ps ↔ m.packetIndex = 0 ∨ ps.length ≤ 3 := by
  constructor
  · intro h
    by_contra hc
    simp only [not_or, Nat.not_le] at hc
    exact not_resynchronises hps (by omega) hc.2 h
  · rintro (hzero | hshort)
    · exact resynchronises_aligned hps hzero
    · refine ⟨3, Nat.le_refl 3, fun before p after he hlen => ?_⟩
      have htotal := congrArg List.length he
      rw [List.length_append, List.length_cons] at htotal
      omega

lemma marked_example : (⟨0x08, 0x01, 0x01⟩ : Packet).Marked :=
  ⟨by decide, by decide, by decide, by simp [Packet.bytes]⟩

theorem resynchronises_iff_start : Resynchronises startMouse (List.replicate 10 ⟨0x08, 0x01, 0x01⟩) := by
  have hindex : startMouse.packetIndex = 0 := by decide
  have hmarked : ∀ p ∈ List.replicate 10 (⟨0x08, 0x01, 0x01⟩ : Packet), p.Marked :=
    fun _ hp => (List.mem_replicate.mp hp).2 ▸ marked_example
  exact (resynchronises_iff (hindex ▸ Nat.zero_le 2) hmarked).mpr (Or.inl hindex)

/-- One lost byte, and the driver misses every packet that follows. -/
theorem resynchronises_lost_byte : ¬∀ (m : Mouse) (ps : List Packet), m.packetIndex ≤ 2 →
    (∀ p ∈ ps, p.Marked) → Resynchronises m ps := by
  intro h
  have hps : ∀ p ∈ List.replicate 4 (⟨0x08, 0x01, 0x01⟩ : Packet), p.Marked :=
    fun _ hp => (List.mem_replicate.mp hp).2 ▸ marked_example
  exact not_resynchronises hps (m := { startMouse with packetIndex := 2 }) (Or.inr rfl) (by decide)
    (h _ _ (by decide) hps)

end Results

end SBoy28.Ps2
