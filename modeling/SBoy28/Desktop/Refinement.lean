import SBoy28.Desktop.Model

/-!
# The desktop as a shell

A shell has a menu that is open or not, and at most one window. Keys and clicks change it, two
entries of the menu end it. The program does what the shell does, in the same order: in a round the click comes
before the key.
-/

namespace SBoy28.Desktop
open Lib Windows Ps2

section Specification

inductive App where
  | console
  | taskManager
  | settings
  | endSession
  | shutDown
  | restart
deriving DecidableEq

def App.title : App → CString
  | .console => literal "Console"
  | .taskManager => literal "Task Manager"
  | .settings => literal "Settings"
  | .endSession => literal "End Session"
  | .shutDown => literal "Shut Down"
  | .restart => literal "Restart"

structure Shell where
  menuOpen : Bool
  window : Option App

def Shell.start : Shell := ⟨false, none⟩

inductive Event where
  | key (scancode : UInt8)
  | click (x y : ℤ)

def keys : List (UInt8 × App) :=
  [(0x2E, .console), (0x14, .taskManager), (0x1F, .settings), (0x12, .endSession), (0x20, .shutDown),
    (0x13, .restart)]

def Shell.key (shell : Shell) (scancode : UInt8) : Shell :=
  if scancode = 0x01 then { shell with window := none }
  else
    match keys.lookup scancode with
    | some app => { shell with window := some app }
    | none => shell

/-- The menu, by the distance from its upper edge. -/
def menuEntry (row : ℤ) : Except Halt App :=
  if row < 24 then .ok .console
  else if row < 36 then .ok .taskManager
  else if row < 48 then .ok .settings
  else if row < 60 then .ok .endSession
  else if row < 72 then .error .shutdown
  else .error .restart

def OnStartButton (x y : ℤ) : Prop := 4 ≤ x ∧ x < 50 ∧ 186 ≤ y ∧ y < 198

def OnCloseButton (x y : ℤ) : Prop := 246 ≤ x ∧ x < 256 ∧ 28 ≤ y ∧ y < 36

def OnMenu (x y : ℤ) : Prop := 4 ≤ x ∧ x < 150 ∧ 92 ≤ y ∧ y < 184

instance (x y : ℤ) : Decidable (OnStartButton x y) := inferInstanceAs (Decidable (_ ∧ _))
instance (x y : ℤ) : Decidable (OnCloseButton x y) := inferInstanceAs (Decidable (_ ∧ _))
instance (x y : ℤ) : Decidable (OnMenu x y) := inferInstanceAs (Decidable (_ ∧ _))

def Shell.click (shell : Shell) (x y : ℤ) : Except Halt Shell :=
  if OnStartButton x y then .ok { shell with menuOpen := !shell.menuOpen }
  else if shell.window.isSome ∧ OnCloseButton x y then .ok ⟨false, none⟩
  else if shell.menuOpen ∧ OnMenu x y then (menuEntry (y - 92)).map fun app => ⟨false, some app⟩
  else .ok { shell with menuOpen := false }

def Shell.step (shell : Shell) : Event → Except Halt Shell
  | .key scancode => .ok (shell.key scancode)
  | .click x y => shell.click x y

/-- What the program sees in a round. -/
structure Seen where
  events : List Event
  mx : Int32
  my : Int32
  pressed : Bool
  now : ℕ → UInt8

/-- A click is at the place where the mouse is when the program asks; keys are the codes of keys that go down. -/
def see (mouse : Mouse) (input : Input) : Seen × Mouse :=
  let polled := interrupts mouse (input.irqs 0)
  let cleared := { interrupts polled (input.irqs 1) with leftClickPending := false }
  let first := interrupts cleared (input.irqs 2)
  let second := interrupts first (input.irqs 3)
  let click : List Event :=
    if polled.leftClickPending then [.click first.mouseX.toInt second.mouseY.toInt] else []
  let key : List Event := (input.key.filter fun scancode => scancode < 0x80).toList.map Event.key
  let handled := if polled.leftClickPending then second else cleared
  let cursorX := interrupts handled (input.irqs 4)
  let cursorY := interrupts cursorX (input.irqs 5)
  let buttons := interrupts cursorY (input.irqs 6)
  (⟨click ++ key, cursorX.mouseX, cursorY.mouseY,
    buttons.leftPressed || buttons.rightPressed || buttons.middlePressed, input.now⟩, buttons)

def visible (mouse : Mouse) : List Input → List Seen
  | [] => []
  | input :: inputs => (see mouse input).1 :: visible (see mouse input).2 inputs

/-- All events of all rounds, one after the other. -/
def Shell.run (shell : Shell) (seen : List Seen) : Except Halt Shell :=
  (seen.flatMap Seen.events).foldlM Shell.step shell

def Shell.title (shell : Shell) : CString := shell.window.elim (literal "None") App.title

/-- The statics of the program: the title is "None" just when no window is open. -/
def Shell.state (shell : Shell) : DesktopState :=
  { desktopInit with
    startMenuOpen := shell.menuOpen
    activeWindowTitle := shell.title
    activeWindowOpen := shell.window.isSome }

/-- Nothing is pending between two rounds, and the window is there. -/
structure Represents (m : Machine) (shell : Shell) : Prop where
  state : m.desktop = shell.state
  pending : m.os.hasPendingMessage = false
  quit : m.os.quitRequested = false
  routed : ∀ message wParam lParam, dispatchMessage m.os (some ⟨m.mainWindow, message, wParam, lParam⟩) =
    some (desktopWndProcAddress, ⟨m.mainWindow, message, wParam, lParam⟩)

def farewell : Halt → CString
  | .shutdown => literal "Shutting Down..."
  | .restart => literal "Restarting..."

/-- What the program does when the shell has come to a result: before it ends it says so on the screen. -/
def settle (m : Machine) : Except Halt Shell → Outcome
  | .ok shell => .ok { m with desktop := shell.state }
  | .error halt => .error (halt, showShutdownMessage m (farewell halt))

/-- The program goes on or ends as the shell does. -/
def Agrees (outcome : Option Outcome) (result : Except Halt Shell) : Prop :=
  match outcome, result with
  | some (.ok m), .ok shell => Represents m shell
  | some (.error (halt, _)), .error halt' => halt = halt'
  | _, _ => False

end Specification

variable {m : Machine} {shell : Shell} {now : ℕ → UInt8} {mouse : Mouse}

section Coordinates

lemma pack_toNat (mx my : Int32) :
    (pack mx my).toNat = 2 ^ 16 * (my.toUInt32.toNat % 2 ^ 16) + mx.toUInt32.toNat % 2 ^ 16 := by
  have h16 : (16 : UInt32).toNat % 32 = 16 := rfl
  have hfit : 2 ^ 16 * (my.toUInt32.toNat % 2 ^ 16) % 2 ^ 32 = 2 ^ 16 * (my.toUInt32.toNat % 2 ^ 16) := by omega
  unfold pack
  rw [UInt32.toNat_or, UInt32.toNat_shiftLeft, UInt16.toNat_toUInt32, UInt16.toNat_toUInt32, UInt32.toNat_toUInt16,
    UInt32.toNat_toUInt16, h16, Nat.shiftLeft_eq, Nat.mul_comm _ (2 ^ 16), hfit, Nat.or_comm,
    ← Nat.two_pow_add_eq_or_of_lt (by omega)]

/-- A coordinate on the screen comes back out of the 16 bits that it was put into. -/
lemma coordinate_of {x : Int32} (h0 : 0 ≤ x.toInt) (h : x.toInt < 2 ^ 15) {w : UInt32}
    (hw : w.toNat % 2 ^ 16 = x.toUInt32.toNat % 2 ^ 16) : (w &&& 0xFFFF).toUInt16.toInt16.toInt32 = x := by
  have hx := toUInt32_toNat x
  have hand : (w &&& 0xFFFF).toNat = w.toNat % 2 ^ 16 := by
    rw [UInt32.toNat_and]
    exact Nat.and_two_pow_sub_one_eq_mod w.toNat 16
  have h16 : ((w &&& 0xFFFF).toUInt16.toInt16.toBitVec).toNat = x.toInt.toNat := by
    rw [UInt16.toBitVec_toInt16, UInt16.toNat_toBitVec, UInt32.toNat_toUInt16, hand, hw]
    omega
  rw [← Int32.toInt_inj, Int16.toInt_toInt32, ← Int16.toInt_toBitVec, BitVec.toInt_eq_toNat_cond, h16,
    if_pos (by omega)]
  omega

/-- The window procedure gets the position that was packed. -/
lemma unpack_pack {mx my : Int32} (hx0 : 0 ≤ mx.toInt) (hx : mx.toInt < 2 ^ 15) (hy0 : 0 ≤ my.toInt)
    (hy : my.toInt < 2 ^ 15) : (pack mx my &&& 0xFFFF).toUInt16.toInt16.toInt32 = mx ∧
      ((pack mx my >>> 16) &&& 0xFFFF).toUInt16.toInt16.toInt32 = my := by
  have hpack := pack_toNat mx my
  refine ⟨coordinate_of hx0 hx ?_, coordinate_of hy0 hy ?_⟩
  · rw [hpack]
    omega
  · have h16 : (16 : UInt32).toNat % 32 = 16 := rfl
    rw [UInt32.toNat_shiftRight, h16, Nat.shiftRight_eq_div_pow, hpack]
    omega

lemma pointInRect_iff (x y : Int32) (rect : Rect) : osGuiPointInRect x y rect = true ↔
    rect.x.toInt ≤ x.toInt ∧ x.toInt < (rect.x + rect.w).toInt ∧ rect.y.toInt ≤ y.toInt ∧
      y.toInt < (rect.y + rect.h).toInt := by
  simp only [osGuiPointInRect, Bool.and_eq_true, decide_eq_true_eq, ge_iff_le, Int32.le_iff_toInt_le,
    Int32.lt_iff_toInt_lt, and_assoc]

lemma onStartButton_iff (x y : Int32) :
    osGuiPointInRect x y (osRect desktopInit.startButton) = true ↔ OnStartButton x.toInt y.toInt :=
  pointInRect_iff x y _

lemma onCloseButton_iff (x y : Int32) :
    osGuiPointInRect x y (osRect desktopInit.closeButton) = true ↔ OnCloseButton x.toInt y.toInt :=
  pointInRect_iff x y _

lemma onMenu_iff (x y : Int32) :
    osGuiPointInRect x y (osRect desktopInit.startMenu) = true ↔ OnMenu x.toInt y.toInt := pointInRect_iff x y _

/-- The position of a mouse that was driven by its packets is on the screen. -/
def OnScreen (mouse : Mouse) : Prop :=
  0 ≤ mouse.mouseX.toInt ∧ mouse.mouseX.toInt < 320 ∧ 0 ≤ mouse.mouseY.toInt ∧ mouse.mouseY.toInt < 200

def Tracked (mouse : Mouse) : Prop := ∃ h, Follows h mouse

lemma Tracked.onScreen (h : Tracked mouse) : OnScreen mouse := by
  obtain ⟨_, hf⟩ := h
  have hx := hf.x
  have hy := hf.y
  rw [Int32.le_iff_toInt_le, Int32.lt_iff_toInt_lt] at hx hy
  exact ⟨hx.1, hx.2, hy.1, hy.2⟩

lemma Tracked.interrupts (h : Tracked mouse) (irqs : List Controller) : Tracked (interrupts mouse irqs) := by
  unfold Desktop.interrupts
  induction irqs generalizing mouse with
  | nil => exact h
  | cons c irqs ih =>
    obtain ⟨_, hf⟩ := h
    exact ih ⟨_, hf.call (.irq c)⟩

lemma Tracked.consume (h : Tracked mouse) : Tracked { mouse with leftClickPending := false } := by
  obtain ⟨_, hf⟩ := h
  exact ⟨_, hf.call .consume⟩

end Coordinates

section Handlers

lemma onKeydown_other (desktop : DesktopState) {wParam : UInt32}
    (h : wParam ∉ [keyC, keyT, keyS, keyE, keyD, keyR, keyEsc]) : onKeydown desktop wParam = desktop := by
  simp only [List.mem_cons, List.not_mem_nil, or_false, not_or] at h
  obtain ⟨hC, hT, hS, hE, hD, hR, hEsc⟩ := h
  simp only [onKeydown, if_neg hC, if_neg hT, if_neg hS, if_neg hE, if_neg hD, if_neg hR, if_neg hEsc]

lemma key_other (shell : Shell) {scancode : UInt8} (h : scancode ∉ [0x2E, 0x14, 0x1F, 0x12, 0x20, 0x13, 0x01]) :
    shell.key scancode = shell := by
  simp only [List.mem_cons, List.not_mem_nil, or_false, not_or, ← beq_eq_false_iff_ne] at h
  obtain ⟨hC, hT, hS, hE, hD, hR, hEsc⟩ := h
  rw [beq_eq_false_iff_ne] at hEsc
  simp only [Shell.key, keys, List.lookup_cons, List.lookup_nil, if_neg hEsc, hC, hT, hS, hE, hD, hR]

lemma state_key (shell : Shell) (scancode : UInt8) :
    onKeydown shell.state scancode.toUInt32 = (shell.key scancode).state := by
  by_cases hmem : scancode ∈ [0x2E, 0x14, 0x1F, 0x12, 0x20, 0x13, 0x01]
  · simp only [List.mem_cons, List.not_mem_nil, or_false] at hmem
    obtain rfl | rfl | rfl | rfl | rfl | rfl | rfl := hmem <;> rfl
  · rw [key_other shell hmem]
    apply onKeydown_other
    have hcodes : [keyC, keyT, keyS, keyE, keyD, keyR, keyEsc] =
        [0x2E, 0x14, 0x1F, 0x12, 0x20, 0x13, 0x01].map UInt8.toUInt32 := rfl
    rw [hcodes, List.mem_map]
    rintro ⟨code, hcode, heq⟩
    exact hmem (UInt8.toUInt32_inj.mp heq ▸ hcode)

/-- The number of the row that is passed to `choose_menu_option`. -/
lemma row_toNat {my : Int32} (h : 92 ≤ my.toInt) (h' : my.toInt < 184) :
    ((my - 92).toUInt32.toNat : ℤ) = my.toInt - 92 := by
  have h92 : (92 : Int32).toInt = 92 := rfl
  have hrow := toUInt32_toNat (my - 92)
  rw [toInt_sub_of rfl h92 (by omega) (by omega)] at hrow
  omega

lemma chooseMenuOption_eq (m : Machine) {row : UInt32} {n : ℤ} (hrow : (row.toNat : ℤ) = n) :
    chooseMenuOption m row =
      match menuEntry n with
      | .ok app => .ok { m with desktop := setActiveWindow m.desktop app.title }
      | .error halt => .error (halt, showShutdownMessage m (farewell halt)) := by
  have hlt : ∀ k : UInt32, row < k ↔ n < k.toNat := by
    intro k
    rw [UInt32.lt_iff_toNat_lt, ← hrow]
    omega
  have h24 : row < 24 ↔ n < 24 := hlt 24
  have h36 : row < 36 ↔ n < 36 := hlt 36
  have h48 : row < 48 ↔ n < 48 := hlt 48
  have h60 : row < 60 ↔ n < 60 := hlt 60
  have h72 : row < 72 ↔ n < 72 := hlt 72
  unfold chooseMenuOption menuEntry
  simp only [h24, h36, h48, h60, h72]
  split_ifs <;> rfl

lemma onLbuttondown_eq (h : m.desktop = shell.state) {mx my : Int32} (hx0 : 0 ≤ mx.toInt) (hx : mx.toInt < 2 ^ 15)
    (hy0 : 0 ≤ my.toInt) (hy : my.toInt < 2 ^ 15) :
    onLbuttondown m (pack mx my) = settle m (shell.click mx.toInt my.toInt) := by
  obtain ⟨hmx, hmy⟩ := unpack_pack hx0 hx hy0 hy
  have hstart : osGuiPointInRect mx my (osRect shell.state.startButton) = true ↔ _ := onStartButton_iff mx my
  have hclose : osGuiPointInRect mx my (osRect shell.state.closeButton) = true ↔ _ := onCloseButton_iff mx my
  have hmenu : osGuiPointInRect mx my (osRect shell.state.startMenu) = true ↔ _ := onMenu_iff mx my
  have hwindow : shell.state.activeWindowOpen = shell.window.isSome := rfl
  have hopen : shell.state.startMenuOpen = shell.menuOpen := rfl
  unfold onLbuttondown Shell.click
  simp only [hmx, hmy, h, Bool.and_eq_true, hstart, hclose, hmenu, hwindow, hopen]
  by_cases h1 : OnStartButton mx.toInt my.toInt
  · rw [if_pos h1, if_pos h1]
    rfl
  rw [if_neg h1, if_neg h1]
  by_cases h2 : shell.window.isSome = true ∧ OnCloseButton mx.toInt my.toInt
  · rw [if_pos h2, if_pos h2]
    rfl
  rw [if_neg h2, if_neg h2]
  by_cases h3 : shell.menuOpen = true ∧ OnMenu mx.toInt my.toInt
  · rw [if_pos h3, if_pos h3]
    have htop : shell.state.startMenu.top = 92 := rfl
    rw [htop, chooseMenuOption_eq m (row_toNat h3.2.2.2.1 h3.2.2.2.2), h]
    cases menuEntry (my.toInt - 92) <;> rfl
  · rw [if_neg h3, if_neg h3]
    rfl

end Handlers

section Rounds

variable {key : Option UInt8} {input : Input}

/-- A key that waits to be handled. -/
structure Waiting (m : Machine) (shell : Shell) (key : Option UInt8) : Prop where
  state : m.desktop = shell.state
  pending : m.os.hasPendingMessage = key.isSome
  message : ∀ scancode ∈ key, m.os.pendingMessage = ⟨m.mainWindow, wmKeydown, scancode.toUInt32, 0⟩
  quit : m.os.quitRequested = false
  routed : ∀ message wParam lParam, dispatchMessage m.os (some ⟨m.mainWindow, message, wParam, lParam⟩) =
    some (desktopWndProcAddress, ⟨m.mainWindow, message, wParam, lParam⟩)

lemma Waiting.dispatch (h : Waiting m shell key) (now : ℕ → UInt8) (message wParam lParam : UInt32) :
    dispatch now m ⟨m.mainWindow, message, wParam, lParam⟩ =
      desktopWndProc now m ⟨m.mainWindow, message, wParam, lParam⟩ := by
  unfold Desktop.dispatch
  rw [h.routed]
  exact if_pos rfl

lemma waiting_key (h : Represents m shell) (key : Option UInt8) :
    Waiting (processKey m key) shell (key.filter fun scancode => scancode < 0x80) := by
  obtain ⟨hstate, hpending, hquit, hrouted⟩ := h
  cases key with
  | none => exact ⟨hstate, hpending, fun _ hmem => absurd hmem (Option.not_mem_none _), hquit, hrouted⟩
  | some scancode =>
    unfold processKey
    by_cases hdown : scancode < 0x80
    · simp only [if_pos hdown, Option.filter_some, decide_eq_true hdown]
      refine ⟨hstate, rfl, fun _ hmem => ?_, hquit, hrouted⟩
      rw [if_pos trivial, Option.mem_some_iff] at hmem
      rw [← hmem]
      rfl
    · simp only [if_neg hdown, Option.filter_some, decide_eq_false hdown]
      exact ⟨hstate, hpending, fun _ hmem => absurd hmem (Option.not_mem_none _), hquit, hrouted⟩

lemma processMouse_eq (h : Waiting m shell key) (ht : Tracked m.mouse) (input : Input) :
    let polled := interrupts m.mouse (input.irqs 0)
    let cleared := { interrupts polled (input.irqs 1) with leftClickPending := false }
    let first := interrupts cleared (input.irqs 2)
    let second := interrupts first (input.irqs 3)
    processMouse m input =
      if polled.leftClickPending then
        settle { m with mouse := second } (shell.click first.mouseX.toInt second.mouseY.toInt)
      else .ok { m with mouse := cleared } := by
  intro polled cleared first second
  have hcleared : Tracked cleared := ((ht.interrupts _).interrupts _).consume
  have hfirst : Tracked first := hcleared.interrupts _
  have hsecond : Tracked second := hfirst.interrupts _
  obtain ⟨hx0, hx, -⟩ := hfirst.onScreen
  obtain ⟨-, -, hy0, hy⟩ := hsecond.onScreen
  have hwaiting : Waiting { m with mouse := second } shell key :=
    ⟨h.state, h.pending, h.message, h.quit, h.routed⟩
  unfold processMouse
  by_cases hclicked : polled.leftClickPending = true
  · rw [if_pos hclicked, if_pos hclicked]
    refine (hwaiting.dispatch input.now wmLbuttondown 0 _).trans ?_
    exact onLbuttondown_eq hwaiting.state hx0 (hx.trans (by decide)) hy0 (hy.trans (by decide))
  · rw [if_neg hclicked, if_neg hclicked]

lemma getMessage_none {os : Os} (hquit : os.quitRequested = false) (hpending : os.hasPendingMessage = false) :
    getMessage os true = (true, some ⟨none, wmNull, 0, 0⟩, os) := by
  simp only [getMessage, hquit, hpending, Bool.not_true, Bool.false_eq_true, if_false]

lemma getMessage_some {os : Os} (hquit : os.quitRequested = false) (hpending : os.hasPendingMessage = true) :
    getMessage os true = (true, some os.pendingMessage, { os with hasPendingMessage := false }) := by
  simp only [getMessage, hquit, hpending, Bool.not_true, Bool.false_eq_true, if_false, if_true]

/-- Without a key that waits the loop ends at once. -/
lemma messages_none (h : Waiting m shell none) (now : ℕ → UInt8) (n : ℕ) :
    loop (messageStep now) (n + 1) m = some (.ok m) := by
  apply loop_succ_inr
  unfold messageStep
  rw [getMessage_none h.quit h.pending]
  rfl

lemma messageStep_pending (now : ℕ → UInt8) (hquit : m.os.quitRequested = false) (hpending : m.os.hasPendingMessage = true) {msg : Msg}
    (hmsg : m.os.pendingMessage = msg) (hne : msg.message ≠ wmNull) : messageStep now m =
      match dispatch now { m with os := { m.os with hasPendingMessage := false } } msg with
      | .ok m => .inl m
      | .error halted => .inr (.error halted) := by
  subst hmsg
  unfold messageStep
  rw [getMessage_some hquit hpending]
  exact if_neg hne

/-- The messages of a round are at most one key. -/
lemma messages_spec (h : Waiting m shell key) (now : ℕ → UInt8) (n : ℕ) :
    ∃ os, loop (messageStep now) (n + 2) m =
        some (.ok { m with os := os, desktop := (key.elim shell shell.key).state }) ∧
      Waiting { m with os := os, desktop := (key.elim shell shell.key).state } (key.elim shell shell.key) none := by
  cases key with
  | none =>
    have hsame : m = { m with desktop := shell.state } := by rw [← h.state]
    refine ⟨m.os, ?_, ?_⟩
    · rw [messages_none h]
      exact congrArg (fun m => some (Except.ok m)) hsame
    · change Waiting { m with desktop := shell.state } shell none
      rwa [← hsame]
  | some scancode =>
    have hhandled : Waiting { m with
        os := { m.os with hasPendingMessage := false }
        desktop := (shell.key scancode).state } (shell.key scancode) none :=
      ⟨rfl, rfl, fun _ hmem => absurd hmem (Option.not_mem_none _), h.quit, h.routed⟩
    have hbefore : Waiting { m with os := { m.os with hasPendingMessage := false } } shell none :=
      ⟨h.state, rfl, fun _ hmem => absurd hmem (Option.not_mem_none _), h.quit, h.routed⟩
    have hdispatch := hbefore.dispatch now wmKeydown scancode.toUInt32 0
    have hne : wmKeydown ≠ wmNull := by decide
    have hstep := messageStep_pending now h.quit h.pending (h.message scancode rfl) hne
    rw [hdispatch] at hstep
    refine ⟨{ m.os with hasPendingMessage := false }, ?_, hhandled⟩
    rw [loop_succ_inl (hstep.trans ?_), messages_none hhandled]
    · rfl
    · rw [← state_key, ← h.state]
      rfl

/-- The backbuffer after a round in which the program has not ended. -/
def painted (desktop : DesktopState) (seen : Seen) (backbuffer : Backbuffer) : Backbuffer :=
  osGuiDrawCursor (drawDesktop desktop seen.now backbuffer) seen.mx seen.my seen.pressed

/-- The machine at the end of a round, when the mouse and the messages have been handled. -/
def finished (m : Machine) (os : Os) (desktop : DesktopState) (input : Input) : Machine :=
  showFrame { m with os := os, desktop := desktop, backbuffer := drawDesktop desktop input.now m.backbuffer } input

lemma round_ok {m₂ : Machine} (hmouse : processMouse (processKey m input.key) input = .ok m₂)
    (h : Waiting m₂ shell key) (n : ℕ) :
    ∃ os, round (n + 2) m input = some (.ok (finished m₂ os (key.elim shell shell.key).state input)) ∧
      Represents (finished m₂ os (key.elim shell shell.key).state input) (key.elim shell shell.key) := by
  obtain ⟨os, hloop, hwaiting⟩ := messages_spec h input.now n
  refine ⟨os, ?_, ⟨rfl, hwaiting.pending, hwaiting.quit, hwaiting.routed⟩⟩
  have hpaint := hwaiting.dispatch input.now wmPaint 0 0
  unfold round
  rw [hmouse]
  simp only [hloop, Option.map_some]
  change some (dispatch _ _ _ >>= _) = _
  rw [hpaint]
  rfl

lemma round_error {halted : Halt × Machine} (hmouse : processMouse (processKey m input.key) input = .error halted)
    (n : ℕ) : round n m input = some (.error halted) := by
  unfold round
  rw [hmouse]

lemma processKey_eq (m : Machine) (key : Option UInt8) : ∃ os, processKey m key = { m with os := os } := by
  cases key with
  | none => exact ⟨m.os, rfl⟩
  | some scancode =>
    unfold processKey
    by_cases hdown : scancode < 0x80
    · simp only [if_pos hdown]
      exact ⟨_, rfl⟩
    · simp only [if_neg hdown]
      exact ⟨m.os, rfl⟩

lemma foldlM_key (shell : Shell) (key : Option UInt8) :
    (key.toList.map Event.key).foldlM Shell.step shell = .ok (key.elim shell shell.key) := by
  cases key <;> rfl

/-- A round of the program: what it shows depends on what the shell does with the events of the round. -/
lemma round_spec (h : Represents m shell) (ht : Tracked m.mouse) (input : Input) (n : ℕ) :
    match (see m.mouse input).1.events.foldlM Shell.step shell with
    | .ok shell' => ∃ m', round (n + 2) m input = some (.ok m') ∧ Represents m' shell' ∧
        m'.mouse = (see m.mouse input).2 ∧
        m'.backbuffer = painted shell'.state (see m.mouse input).1 m.backbuffer ∧
        m'.vgaMem = vgaRender m.vgaMem m'.backbuffer
    | .error halt => ∃ m', round (n + 2) m input = some (.error (halt, m')) ∧
        m'.backbuffer = osGuiDrawTitledWindow m.backbuffer ⟨100, 80, 140, 20⟩ (farewell halt) ∧
        m'.vgaMem = vgaRender m.vgaMem m'.backbuffer := by
  have hkey := waiting_key h input.key
  have hmouse := processMouse_eq hkey
  have hok := fun m₂ (hp : processMouse (processKey m input.key) input = .ok m₂) shell
    (hw : Waiting m₂ shell (input.key.filter fun scancode => scancode < 0x80)) => round_ok hp hw n
  obtain ⟨os, hos⟩ := processKey_eq m input.key
  simp only [hos] at hkey hmouse hok
  have hmouse := hmouse ht input
  unfold see
  dsimp only at hmouse ⊢
  generalize hpolled : interrupts m.mouse (input.irqs 0) = polled at hmouse ⊢
  by_cases hclicked : polled.leftClickPending = true
  · simp only [if_pos hclicked] at hmouse ⊢
    rw [List.singleton_append, List.foldlM_cons, Shell.step]
    cases hclick : shell.click (interrupts { interrupts polled (input.irqs 1) with leftClickPending := false }
        (input.irqs 2)).mouseX.toInt (interrupts (interrupts { interrupts polled (input.irqs 1) with
        leftClickPending := false } (input.irqs 2)) (input.irqs 3)).mouseY.toInt with
    | ok shell' =>
      rw [hclick] at hmouse
      change match List.foldlM Shell.step shell' _ with
        | .ok shell' => _
        | .error halt => _
      rw [foldlM_key]
      obtain ⟨os', hround, hrep⟩ := hok _ hmouse shell' ⟨rfl, hkey.pending, hkey.message, hkey.quit, hkey.routed⟩
      exact ⟨_, hround, hrep, rfl, rfl, rfl⟩
    | error halt =>
      rw [hclick] at hmouse
      rw [← hos] at hmouse
      exact ⟨_, round_error hmouse _, rfl, rfl⟩
  · simp only [if_neg hclicked] at hmouse ⊢
    rw [List.nil_append, foldlM_key]
    obtain ⟨os', hround, hrep⟩ := hok _ hmouse shell ⟨hkey.state, hkey.pending, hkey.message, hkey.quit, hkey.routed⟩
    exact ⟨_, hround, hrep, rfl, rfl, rfl⟩

end Rounds

section Runs

lemma Tracked.see (h : Tracked mouse) (input : Input) : Tracked (see mouse input).2 := by
  have hcleared := ((h.interrupts (input.irqs 0)).interrupts (input.irqs 1)).consume
  unfold Desktop.see
  dsimp only
  split
  · exact ((((hcleared.interrupts _).interrupts _).interrupts _).interrupts _).interrupts _
  · exact ((hcleared.interrupts _).interrupts _).interrupts _

lemma Shell.run_cons (shell : Shell) (first : Seen) (seen : List Seen) :
    shell.run (first :: seen) = first.events.foldlM Shell.step shell >>= fun shell => shell.run seen := by
  unfold Shell.run
  rw [List.flatMap_cons, List.foldlM_append]

lemma run_agrees (h : Represents m shell) (ht : Tracked m.mouse) (inputs : List Input) (n : ℕ) :
    Agrees (run (n + 2) m inputs) (shell.run (visible m.mouse inputs)) := by
  induction inputs generalizing m shell with
  | nil => exact h
  | cons input inputs ih =>
    have hround := round_spec h ht input n
    rw [visible, Shell.run_cons, run]
    cases hevents : (see m.mouse input).1.events.foldlM Shell.step shell with
    | ok shell' =>
      rw [hevents] at hround
      obtain ⟨m', hround, hrep, hmouse, -⟩ := hround
      rw [hround, ← hmouse]
      exact ih hrep (hmouse ▸ ht.see input)
    | error halt =>
      rw [hevents] at hround
      obtain ⟨m', hround, -⟩ := hround
      rw [hround]
      exact rfl

/-- The window and its class are made, and the program has a window to send messages to. -/
lemma start_spec (mouse : Mouse) (backbuffer vgaMem : Backbuffer) :
    ∃ m, start mouse backbuffer vgaMem = some m ∧ Represents m .start ∧ m.mouse = mouse :=
  ⟨_, rfl, ⟨rfl, rfl, rfl, fun _ _ _ => rfl⟩, rfl⟩

/-- Whatever keys and packets come and whenever they come, the program takes each click and each key once, in the
order in which it sees them, and it ends just where the shell does. -/
theorem desktop_refines_shell (c : Controller) (calls : List MouseCall) (backbuffer vgaMem : Backbuffer)
    (inputs : List Input) (n : ℕ) :
    ∃ m, start (calls.foldl Mouse.call (mouseInit startMouse c).1) backbuffer vgaMem = some m ∧
      Agrees (run (n + 2) m inputs) (Shell.start.run (visible m.mouse inputs)) := by
  obtain ⟨m, hstart, hrep, hmouse⟩ := start_spec (calls.foldl Mouse.call (mouseInit startMouse c).1) backbuffer vgaMem
  have hx : 0 ≤ startMouse.mouseX ∧ startMouse.mouseX < mouseScreenW := by decide
  have hy : 0 ≤ startMouse.mouseY ∧ startMouse.mouseY < mouseScreenH := by decide
  have htracked : Tracked m.mouse := ⟨_, hmouse ▸ (follows_init hx hy c).run calls⟩
  exact ⟨m, hstart, run_agrees hrep htracked inputs n⟩

end Runs

end SBoy28.Desktop
