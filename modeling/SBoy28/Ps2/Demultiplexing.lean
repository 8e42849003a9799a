import SBoy28.Ps2.Framing
import SBoy28.Lib.Simulation

/-!
# Two devices at one port

The desktop and `poll_keyboard` look at the status port and then read the data port; the
interrupt handler of the mouse may run in between, and bytes may arrive at any time. Neither
side looks at the bit that tells the devices apart.
-/

namespace SBoy28.Ps2
open Lib

section System

/-- The two places that poll the keyboard. -/
inductive Poller where
  | desktop
  | pollKeyboard
deriving DecidableEq

/-- The drivers with the controller, the keys that the desktop has posted, and which poller is
between `is_key_pressed` and `read_key`. -/
structure System where
  controller : Controller
  mouse : Mouse
  keyboard : Keyboard
  keydown : List UInt8
  reading : Poller → Bool

inductive Act where
  | arrive (b : DeviceByte)
  | look (p : Poller)
  | fetch (p : Poller)
  | irq12 (arriving : List (List DeviceByte))

/-- `is_key_pressed` in a poller. -/
def System.look (s : System) (p : Poller) : System :=
  let r := isKeyPressed s.controller
  { s with controller := r.2, reading := Function.update s.reading p r.1 }

/-- `read_key` in a poller, and what the poller does with the key. -/
def System.fetch (s : System) (p : Poller) : System :=
  let r := readKey s.controller
  let s := { s with controller := r.2, reading := Function.update s.reading p false }
  match p with
  | .desktop => if r.1 < 0x80 then { s with keydown := s.keydown ++ [r.1] } else s
  | .pollKeyboard => { s with keyboard := handleScancode s.keyboard r.1 }

/-- The interrupt of the mouse, with the bytes that arrive while its handler runs. -/
def System.irq12 (s : System) (arriving : List (List DeviceByte)) : System :=
  let r := mouseIrqHandler s.mouse { s.controller with arriving := arriving }
  { s with mouse := r.1, controller := { r.2 with arriving := [] } }

/-- The handler runs with interrupts off, so a poller is never in the middle of it. -/
inductive Step : System → Act → System → Prop where
  | arrive {s : System} {b : DeviceByte} : Step s (.arrive b)
    { s with controller := { s.controller with waiting := s.controller.waiting ++ [b] } }
  | look {s : System} {p : Poller} (h : s.reading p = false) : Step s (.look p) (s.look p)
  | fetch {s : System} {p : Poller} (h : s.reading p = true) : Step s (.fetch p) (s.fetch p)
  | irq12 {s : System} {arriving : List (List DeviceByte)} : Step s (.irq12 arriving) (s.irq12 arriving)

structure System.Start (s : System) : Prop where
  taken : s.controller.taken = []
  arriving : s.controller.arriving = []
  reading : ∀ p, s.reading p = false

/-- Every byte was read by the driver of its device. -/
def Routed (c : Controller) : Prop := ∀ e ∈ c.taken, e.1 = e.2.device

/-- No byte of the other device is in the way: a poller looks while no mouse byte is in front and
no other poll is under way, and the interrupt is taken while no keyboard byte is in front, nor
anywhere if the handler is going to initialise the mouse again. -/
def Quiet (s : System) : Act → Prop
  | .arrive _ => True
  | .look _ => (∀ q, s.reading q = false) ∧ (inbStatus s.controller).1 &&& ps2StatusAuxdata = 0
  | .fetch _ => True
  | .irq12 arriving =>
    ∀ b ∈ ({ s.controller with arriving := arriving } : Controller).arrive.waiting.head?,
      b.device = .mouse ∧ (b.value = 0x00 ∧ s.mouse.packetIndex = 0 →
        (∀ a ∈ s.controller.waiting, a.device = .mouse) ∧ ∀ a ∈ arriving.flatten, a.device = .mouse)

/-- A step that meets the condition. -/
def QuietStep (s : System) (a : Act) (s' : System) : Prop := Quiet s a ∧ Step s a s'

end System

variable {c : Controller} {s s' : System} {m : Mouse} {b : DeviceByte} {n : ℕ}

section Port

lemma arrive_taken (c : Controller) : c.arrive.taken = c.taken := by
  simp only [Controller.arrive]
  split <;> rfl

lemma arrive_head (h : c.waiting.head? = some b) : c.arrive.waiting.head? = some b := by
  simp only [Controller.arrive]
  split
  · exact h
  · simp [List.head?_append, h]

lemma read_head (reader : Device) (h : c.waiting.head? = some b) :
    (c.read reader).1 = b.value ∧ (c.read reader).2.taken = c.taken ++ [(reader, b)] ∧
      (c.read reader).2.last = some b := by
  obtain ⟨rest, hrest⟩ := List.head?_eq_some_iff.mp h
  rw [Controller.read, hrest]
  exact ⟨rfl, rfl, rfl⟩

lemma status_full (o : Option DeviceByte) : status o &&& ps2StatusOutputFull ≠ 0 ↔ o.isSome := by
  rcases o with _ | ⟨_ | _, _⟩ <;> simp [status] <;> decide

lemma status_aux (o : Option DeviceByte) :
    status o &&& ps2StatusAuxdata = 0 ↔ ∀ a ∈ o, a.device = .keyboard := by
  rcases o with _ | ⟨_ | _, _⟩ <;> simp [status] <;> decide

end Port

section Initialisation

/-- Arrivals come from what was to arrive. -/
lemma arrive_all {P : DeviceByte → Prop} (hw : ∀ a ∈ c.waiting, P a) (ha : ∀ a ∈ c.arriving.flatten, P a) :
    (∀ a ∈ c.arrive.waiting, P a) ∧ ∀ a ∈ c.arrive.arriving.flatten, P a := by
  obtain ⟨waiting, last, arriving, taken, sent⟩ := c
  cases arriving with
  | nil => exact ⟨hw, ha⟩
  | cons bytes rest =>
    simp only [List.flatten_cons, List.mem_append] at ha
    refine ⟨?_, fun a har => ha a (Or.inr har)⟩
    intro a har
    rcases List.mem_append.mp har with har | har
    · exact hw a har
    · exact ha a (Or.inl har)

lemma arrive_waiting_nil (h : c.arrive.waiting = []) : c.waiting = [] ∧ c.arrive.last = c.last := by
  obtain ⟨waiting, last, arriving, taken, sent⟩ := c
  cases arriving with
  | nil => exact ⟨h, rfl⟩
  | cons bytes rest => exact ⟨(List.append_eq_nil_iff.mp h).1, rfl⟩

/-- Only bytes of the mouse are around. -/
structure OnlyMouse (c : Controller) : Prop where
  waiting : ∀ a ∈ c.waiting, a.device = .mouse
  arriving : ∀ a ∈ c.arriving.flatten, a.device = .mouse
  last : c.waiting = [] → ∀ a ∈ c.last, a.device = .mouse
  routed : Routed c

lemma Routed.arrive (h : Routed c) : Routed c.arrive := by
  rw [Routed, arrive_taken]
  exact h

lemma OnlyMouse.arrive (h : OnlyMouse c) : OnlyMouse c.arrive := by
  obtain ⟨hw, ha⟩ := arrive_all h.waiting h.arriving
  refine ⟨hw, ha, ?_, h.routed.arrive⟩
  intro hnil
  obtain ⟨hwaiting, hlast⟩ := arrive_waiting_nil hnil
  rw [hlast]
  exact h.last hwaiting

lemma Routed.append (h : Routed c) {c' : Controller} {reader : Device}
    (ht : c'.taken = c.taken ++ [(reader, b)]) (hb : b.device = reader) : Routed c' := by
  intro e he
  rw [ht] at he
  rcases List.mem_append.mp he with he | he
  · exact h e he
  · rw [List.mem_singleton.mp he, hb]

lemma OnlyMouse.read (h : OnlyMouse c) : OnlyMouse (c.read .mouse).2 := by
  obtain ⟨waiting, last, arriving, taken, sent⟩ := c
  cases waiting with
  | cons b rest =>
    have hb := h.waiting b (by simp)
    refine ⟨fun a ha => h.waiting a (List.mem_cons_of_mem b ha), h.arriving, ?_, h.routed.append rfl hb⟩
    intro _ a ha
    rw [← Option.some.inj ha]
    exact hb
  | nil =>
    cases last with
    | none => exact h
    | some b => exact ⟨h.waiting, h.arriving, h.last, h.routed.append rfl (h.last rfl b rfl)⟩

lemma OnlyMouse.status (h : OnlyMouse c) : OnlyMouse (inbStatus c).2 := h.arrive

lemma OnlyMouse.data (h : OnlyMouse c) : OnlyMouse (inbData .mouse c).2 := h.arrive.read

lemma OnlyMouse.outb (h : OnlyMouse c) (v : UInt8) : OnlyMouse (outb v c) :=
  ⟨h.arrive.waiting, h.arrive.arriving, h.arrive.last, h.arrive.routed⟩

lemma OnlyMouse.waitInputClear (h : OnlyMouse c) : OnlyMouse (waitInputClear n c) := by
  induction n generalizing c with
  | zero => exact h
  | succ n ih =>
    simp only [Ps2.waitInputClear]
    split
    · exact ih h.status
    · exact h.status

lemma OnlyMouse.waitForOutput (h : OnlyMouse c) : OnlyMouse (waitForOutput n c).2 := by
  induction n generalizing c with
  | zero => exact h
  | succ n ih =>
    simp only [Ps2.waitForOutput]
    split
    · exact ih h.status
    · exact h.status.data

lemma OnlyMouse.flushOutput (h : OnlyMouse c) : OnlyMouse (flushOutput n c) := by
  induction n generalizing c with
  | zero => exact h
  | succ n ih =>
    simp only [Ps2.flushOutput]
    split
    · exact ih h.status.data
    · exact h.status

lemma OnlyMouse.sendToAux (h : OnlyMouse c) (v : UInt8) : OnlyMouse (ps2SendToAux v c) :=
  ((h.waitInputClear.outb _).outb _).waitInputClear.outb _

lemma OnlyMouse.init (h : OnlyMouse c) : OnlyMouse (mouseDeviceInit c) :=
  ((((((h.sendToAux _).waitForOutput).outb _).sendToAux _).waitForOutput).outb _).flushOutput

end Initialisation

section Runs

/-- What holds between any two steps of a quiet run. -/
structure RoutedOk (s : System) : Prop where
  routed : Routed s.controller
  arriving : s.controller.arriving = []
  front : ∀ p, s.reading p = true → ∃ b, s.controller.waiting.head? = some b ∧ b.device = .keyboard
  one : ∀ p q, s.reading p = true → s.reading q = true → p = q

lemma RoutedOk.start (h : s.Start) : RoutedOk s where
  routed := by
    intro e he
    rw [h.taken] at he
    cases he
  arriving := h.arriving
  front p hp := absurd hp (by simp [h.reading])
  one p q hp := absurd hp (by simp [h.reading])

/-- Without arrivals the ports leave the waiting bytes as they are. -/
lemma arrive_of_nil (h : c.arriving = []) : c.arrive = c := by
  rw [Controller.arrive, h]

lemma RoutedOk.look (h : RoutedOk s) {p : Poller} (hquiet : Quiet s (.look p)) : RoutedOk (s.look p) := by
  obtain ⟨hidle, haux⟩ := hquiet
  have hsame : (s.look p).controller = s.controller := arrive_of_nil h.arriving
  have hreading : ∀ q, (s.look p).reading q = true → q = p ∧ (isKeyPressed s.controller).1 = true := by
    intro q hq
    simp only [System.look, Function.update_apply] at hq
    by_cases hqp : q = p
    · rw [if_pos hqp] at hq
      exact ⟨hqp, hq⟩
    · rw [if_neg hqp, hidle q] at hq
      cases hq
  have hstatus : (inbStatus s.controller).1 = status s.controller.waiting.head? := by
    rw [inbStatus, arrive_of_nil h.arriving]
  refine ⟨hsame ▸ h.routed, hsame ▸ h.arriving, ?_, ?_⟩
  · intro q hq
    have hfull := (hreading q hq).2
    rw [hsame]
    simp only [isKeyPressed, hstatus, decide_eq_true_eq] at hfull
    have hsome := (status_full _).mp hfull
    obtain ⟨b, hb⟩ := Option.isSome_iff_exists.mp hsome
    rw [hstatus] at haux
    exact ⟨b, hb, (status_aux _).mp haux b hb⟩
  · intro q q' hq hq'
    rw [(hreading q hq).1, (hreading q' hq').1]

lemma RoutedOk.fetch (h : RoutedOk s) {p : Poller} (hp : s.reading p = true) : RoutedOk (s.fetch p) := by
  obtain ⟨b, hb, hdevice⟩ := h.front p hp
  have hread : (readKey s.controller).2 = (s.controller.read .keyboard).2 := by
    rw [readKey, inbData, arrive_of_nil h.arriving]
  have hcontroller : (s.fetch p).controller = (s.controller.read .keyboard).2 := by
    rw [← hread]
    cases p
    · simp only [System.fetch]
      split <;> rfl
    · rfl
  have hreading : ∀ q, (s.fetch p).reading q = false := by
    intro q
    have hupdate : (s.fetch p).reading = Function.update s.reading p false := by
      cases p
      · simp only [System.fetch]
        split <;> rfl
      · rfl
    rw [hupdate, Function.update_apply]
    by_cases hqp : q = p
    · rw [if_pos hqp]
    · rw [if_neg hqp, Bool.eq_false_iff]
      exact fun hq => hqp (h.one q p hq hp)
  obtain ⟨-, htaken, -⟩ := read_head .keyboard hb
  refine ⟨?_, ?_, ?_, ?_⟩
  · rw [hcontroller]
    exact h.routed.append htaken hdevice
  · obtain ⟨rest, hrest⟩ := List.head?_eq_some_iff.mp hb
    rw [hcontroller, Controller.read, hrest]
    exact h.arriving
  · exact fun q hq => absurd hq (by simp [hreading q])
  · exact fun q q' hq => absurd hq (by simp [hreading q])

lemma handler_routed (hr : Routed c)
    (hfront : ∀ b ∈ c.arrive.waiting.head?, b.device = .mouse ∧ (b.value = 0x00 ∧ m.packetIndex = 0 →
      (∀ a ∈ c.waiting, a.device = .mouse) ∧ ∀ a ∈ c.arriving.flatten, a.device = .mouse)) :
    Routed (mouseIrqHandler m c).2 := by
  cases hhead : c.arrive.waiting.head? with
  | none =>
    have hempty : (inbStatus c).1 &&& ps2StatusOutputFull = 0 := by
      have hnone : status none &&& ps2StatusOutputFull = 0 := by decide
      rw [inbStatus, hhead]
      exact hnone
    simp only [mouseIrqHandler, if_pos hempty]
    exact hr.arrive
  | some b =>
    obtain ⟨hmouse, hinit⟩ := hfront b hhead
    have hfull : (inbStatus c).1 &&& ps2StatusOutputFull ≠ 0 := by
      rw [inbStatus, hhead]
      exact (status_full _).mpr rfl
    have hnext : c.arrive.arrive.waiting.head? = some b := arrive_head hhead
    obtain ⟨hvalue, htaken, -⟩ := read_head .mouse hnext
    have hrouted : Routed (inbData .mouse (inbStatus c).2).2 := hr.arrive.arrive.append htaken hmouse
    have hdata : (inbData .mouse (inbStatus c).2).1 = b.value := hvalue
    simp only [mouseIrqHandler, if_neg hfull, hdata]
    by_cases hbat : b.value = 0xAA
    · rw [if_pos hbat]
      exact hrouted
    by_cases hzero : b.value = 0x00 ∧ m.packetIndex = 0
    · obtain ⟨hw, ha⟩ := hinit hzero
      obtain ⟨hw', ha'⟩ := arrive_all hw ha
      have honly : OnlyMouse c.arrive := ⟨hw', ha', fun hnil => by simp [hnil] at hhead, hr.arrive⟩
      rw [if_neg hbat, if_pos hzero]
      exact honly.data.init.routed
    · rw [if_neg hbat, if_neg hzero]
      split <;> exact hrouted

lemma RoutedOk.irq12 (h : RoutedOk s) {arriving : List (List DeviceByte)}
    (hquiet : Quiet s (.irq12 arriving)) : RoutedOk (s.irq12 arriving) := by
  -- a poll under way has seen a byte of the keyboard, which is still in front
  have hidle : ∀ p, s.reading p = false := by
    intro p
    rw [Bool.eq_false_iff]
    intro hp
    obtain ⟨b, hb, hdevice⟩ := h.front p hp
    have hfront : ({ s.controller with arriving := arriving } : Controller).arrive.waiting.head? = some b :=
      arrive_head hb
    have hmouse := (hquiet b hfront).1
    rw [hdevice] at hmouse
    cases hmouse
  refine ⟨?_, rfl, ?_, ?_⟩
  · exact handler_routed (c := { s.controller with arriving := arriving }) h.routed hquiet
  · exact fun p hp => absurd hp (by simp [System.irq12, hidle p])
  · exact fun p q hp => absurd hp (by simp [System.irq12, hidle p])

theorem RoutedOk.step {a : Act} (h : RoutedOk s) (hs : QuietStep s a s') : RoutedOk s' := by
  obtain ⟨hquiet, hstep⟩ := hs
  cases hstep with
  | arrive =>
    refine ⟨h.routed, h.arriving, ?_, h.one⟩
    intro p hp
    obtain ⟨b, hb, hdevice⟩ := h.front p hp
    exact ⟨b, by simp [List.head?_append, hb], hdevice⟩
  | look _ => exact h.look hquiet
  | fetch hp => exact h.fetch hp
  | irq12 => exact h.irq12 hquiet

/-- In a run whose steps are all quiet, every byte is read by the driver of its device. -/
theorem demultiplexing {t : List Act} (hs : s.Start) (hrun : Trace QuietStep s t s') : Routed s'.controller :=
  (hrun.invariant (I := RoutedOk) (fun h hstep => h.step hstep) (RoutedOk.start hs)).routed

/-- With nothing in between, the two steps of `poll_keyboard` are the function. -/
theorem poll_uninterrupted (h : (isKeyPressed s.controller).1 = true) :
    ((s.look .pollKeyboard).fetch .pollKeyboard).keyboard = (pollKeyboard s.keyboard s.controller).1 ∧
      ((s.look .pollKeyboard).fetch .pollKeyboard).controller = (pollKeyboard s.keyboard s.controller).2 := by
  simp only [pollKeyboard, if_pos h]
  exact ⟨rfl, rfl⟩

/-- The system after boot. -/
def bootSystem : System :=
  ⟨⟨[], none, [], [], []⟩, startMouse, ⟨fun _ => 0, 0, false, false, false⟩, [], fun _ => false⟩

lemma bootSystem_start : bootSystem.Start := ⟨rfl, rfl, fun _ => rfl⟩

/-- A key is pressed, and the desktop reads it. -/
theorem demultiplexing_key :
    Routed ((({ bootSystem with controller :=
      { bootSystem.controller with waiting := [⟨.keyboard, 0x1E⟩] } } : System).look .desktop).fetch
        .desktop).controller :=
  demultiplexing bootSystem_start (t := [.arrive ⟨.keyboard, 0x1E⟩, .look .desktop, .fetch .desktop])
    ⟨_, ⟨trivial, Step.arrive⟩, _, ⟨⟨fun _ => rfl, by decide⟩, Step.look rfl⟩, _, ⟨trivial, Step.fetch rfl⟩, rfl⟩

/-- The mouse moves, and the desktop reads the byte as a key. -/
theorem demultiplexing_motion : ¬∀ (s s' : System) (t : List Act), s.Start → Trace Step s t s' →
    Routed s'.controller := by
  intro h
  have hrouted := h bootSystem _ [.arrive ⟨.mouse, 0x1E⟩, .look .desktop, .fetch .desktop] bootSystem_start
    ⟨_, Step.arrive, _, Step.look rfl, _, Step.fetch rfl, rfl⟩
  have hread := hrouted (.keyboard, ⟨.mouse, 0x1E⟩) (by decide)
  cases hread

end Runs

end SBoy28.Ps2
