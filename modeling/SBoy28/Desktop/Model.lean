import SBoy28.Lib.Loop
import SBoy28.Ps2.MouseState
import SBoy28.Windows.Gdi

/-!
# The desktop

`OS.c`: one window covers the screen, and the main loop of its program takes a key, takes a click, handles the
messages and paints a frame. The interrupts of the mouse may come between any two accesses to its state.
-/

namespace SBoy28.Desktop
open Lib Windows Ps2

section State

structure DesktopState where
  startMenu : Rect
  startButton : Rect
  startMenuOpen : Bool
  activeWindowTitle : CString
  activeWindowOpen : Bool
  activeWindow : Rect
  closeButton : Rect

def rectWidth (rect : Rect) : Int32 := rect.right - rect.left

def rectHeight (rect : Rect) : Int32 := rect.bottom - rect.top

/-- A rectangle of two corners as one of a corner and a size. -/
def osRect (rect : Rect) : Rect := ⟨rect.left, rect.top, rectWidth rect, rectHeight rect⟩

def setActiveWindow (desktop : DesktopState) (title : CString) : DesktopState :=
  { desktop with activeWindowTitle := title, activeWindowOpen := true }

def closeActiveWindow (desktop : DesktopState) : DesktopState :=
  { desktop with activeWindowOpen := false, activeWindowTitle := literal "None" }

def desktopInit : DesktopState where
  startMenu := ⟨4, 92, 150, 184⟩
  startButton := ⟨4, 186, 50, 198⟩
  startMenuOpen := false
  activeWindowTitle := literal "None"
  activeWindowOpen := false
  activeWindow := ⟨60, 26, 260, 136⟩
  closeButton := ⟨246, 28, 256, 36⟩

inductive Halt where
  | shutdown
  | restart
deriving DecidableEq

structure Machine where
  os : Os
  desktop : DesktopState
  mainWindow : HWnd
  mouse : Mouse
  backbuffer : Backbuffer
  vgaMem : Backbuffer

/-- `kernel_shutdown` and `kernel_restart` do not return. -/
abbrev Outcome := Except (Halt × Machine) Machine

def wmDestroy : UInt32 := 0x0002
def wmPaint : UInt32 := 0x000F
def wmKeydown : UInt32 := 0x0100
def wmLbuttondown : UInt32 := 0x0201
def wsOverlappedwindow : UInt32 := 0x00CF0000

def keyEsc : UInt32 := 0x01
def keyE : UInt32 := 0x12
def keyR : UInt32 := 0x13
def keyT : UInt32 := 0x14
def keyS : UInt32 := 0x1F
def keyD : UInt32 := 0x20
def keyC : UInt32 := 0x2E

end State

section Painting

/-- `TextOutA` with a string of the program. -/
def textOut (backbuffer : Backbuffer) (x y : Int32) (str : CString) (c : Int32) : Backbuffer :=
  (textOutA backbuffer x y (some (CString.chars str)) c).2

def drawClock (backbuffer : Backbuffer) (now : ℕ → UInt8) : Backbuffer :=
  (textOutA backbuffer 256 188 (some now) 8).2

def drawStartMenu (desktop : DesktopState) (backbuffer : Backbuffer) : Backbuffer :=
  let menu := desktop.startMenu
  let backbuffer := osGuiDrawTitledWindow backbuffer (osRect menu) (literal "Menu")
  let backbuffer := textOut backbuffer (menu.left + 8) (menu.top + 16) (literal "Console") 7
  let backbuffer := textOut backbuffer (menu.left + 8) (menu.top + 28) (literal "Task Manager") 12
  let backbuffer := textOut backbuffer (menu.left + 8) (menu.top + 40) (literal "Settings") 8
  let backbuffer := textOut backbuffer (menu.left + 8) (menu.top + 52) (literal "End Session") 11
  let backbuffer := textOut backbuffer (menu.left + 8) (menu.top + 64) (literal "Shut Down") 9
  textOut backbuffer (menu.left + 8) (menu.top + 76) (literal "Restart") 7

def drawActiveWindow (desktop : DesktopState) (backbuffer : Backbuffer) : Backbuffer :=
  let window := desktop.activeWindow
  let close := desktop.closeButton
  let title := desktop.activeWindowTitle
  let backbuffer := osGuiDrawTitledWindow backbuffer (osRect window) title
  let backbuffer := osGuiFillRect backbuffer (osRect close) brightRed
  let backbuffer := textOut backbuffer (close.left + 2) (close.top + 1) (literal "X") 1
  let backbuffer :=
    textOut backbuffer (window.left + 10) (window.top + 20) (literal "Window opened from Start menu") 29
  textOut backbuffer (window.left + 10) (window.top + 36) title (Int32.ofNat title.1.length)

def drawDesktop (desktop : DesktopState) (now : ℕ → UInt8) (backbuffer : Backbuffer) : Backbuffer :=
  let backbuffer := osGuiDrawDesktopBackground backbuffer
  let backbuffer := osGuiDrawTaskbar backbuffer desktop.startMenuOpen
  let backbuffer := drawClock backbuffer now
  let backbuffer := if desktop.activeWindowOpen then drawActiveWindow desktop backbuffer else backbuffer
  if desktop.startMenuOpen then drawStartMenu desktop backbuffer else backbuffer

end Painting

section Procedure

def showShutdownMessage (m : Machine) (msg : CString) : Machine :=
  let backbuffer := osGuiDrawTitledWindow m.backbuffer ⟨100, 80, 140, 20⟩ msg
  { m with backbuffer := backbuffer, vgaMem := vgaRender m.vgaMem backbuffer }

def chooseMenuOption (m : Machine) (row : UInt32) : Outcome :=
  if row < 24 then .ok { m with desktop := setActiveWindow m.desktop (literal "Console") }
  else if row < 36 then .ok { m with desktop := setActiveWindow m.desktop (literal "Task Manager") }
  else if row < 48 then .ok { m with desktop := setActiveWindow m.desktop (literal "Settings") }
  else if row < 60 then .ok { m with desktop := setActiveWindow m.desktop (literal "End Session") }
  else if row < 72 then .error (.shutdown, showShutdownMessage m (literal "Shutting Down..."))
  else .error (.restart, showShutdownMessage m (literal "Restarting..."))

def onKeydown (desktop : DesktopState) (wParam : UInt32) : DesktopState :=
  let desktop := if wParam = keyC then setActiveWindow desktop (literal "Console") else desktop
  let desktop := if wParam = keyT then setActiveWindow desktop (literal "Task Manager") else desktop
  let desktop := if wParam = keyS then setActiveWindow desktop (literal "Settings") else desktop
  let desktop := if wParam = keyE then setActiveWindow desktop (literal "End Session") else desktop
  let desktop := if wParam = keyD then setActiveWindow desktop (literal "Shut Down") else desktop
  let desktop := if wParam = keyR then setActiveWindow desktop (literal "Restart") else desktop
  if wParam = keyEsc then closeActiveWindow desktop else desktop

def onLbuttondown (m : Machine) (lParam : UInt32) : Outcome :=
  let mx := (lParam &&& 0xFFFF).toUInt16.toInt16.toInt32
  let my := ((lParam >>> 16) &&& 0xFFFF).toUInt16.toInt16.toInt32
  let desktop := m.desktop
  if osGuiPointInRect mx my (osRect desktop.startButton) then
    .ok { m with desktop := { desktop with startMenuOpen := !desktop.startMenuOpen } }
  else if desktop.activeWindowOpen && osGuiPointInRect mx my (osRect desktop.closeButton) then
    .ok { m with desktop := { closeActiveWindow desktop with startMenuOpen := false } }
  else if desktop.startMenuOpen && osGuiPointInRect mx my (osRect desktop.startMenu) then do
    let m ← chooseMenuOption m (my - desktop.startMenu.top).toUInt32
    .ok { m with desktop := { m.desktop with startMenuOpen := false } }
  else .ok { m with desktop := { desktop with startMenuOpen := false } }

/-- The string at `now` is what `get_current_time` returns if the window is painted. -/
def desktopWndProc (now : ℕ → UInt8) (m : Machine) (msg : Msg) : Outcome :=
  if msg.message = wmKeydown then .ok { m with desktop := onKeydown m.desktop msg.wParam }
  else if msg.message = wmLbuttondown then onLbuttondown m msg.lParam
  else if msg.message = wmPaint then .ok { m with backbuffer := drawDesktop m.desktop now m.backbuffer }
  else if msg.message = wmDestroy then .ok { m with os := postQuitMessage m.os 0 }
  else .ok m

/-- The address of `desktop_wnd_proc`. -/
def desktopWndProcAddress : WndProc := 1

/-- `DispatchMessage`, with the call that it makes. -/
def dispatch (now : ℕ → UInt8) (m : Machine) (msg : Msg) : Outcome :=
  match dispatchMessage m.os (some msg) with
  | some (proc, msg) => if proc = desktopWndProcAddress then desktopWndProc now m msg else .ok m
  | none => .ok m

def sendMessage (now : ℕ → UInt8) (m : Machine) (message wParam lParam : UInt32) : Outcome :=
  dispatch now m ⟨m.mainWindow, message, wParam, lParam⟩

end Procedure

section Loop

/-- The packets that the mouse sends, as its interrupt handler finds the controller. -/
def interrupts (mouse : Mouse) (irqs : List Controller) : Mouse :=
  irqs.foldl (fun mouse c => (mouseIrqHandler mouse c).1) mouse

/-- What comes from outside in one round: a key, the interrupts before the `n`-th look at the mouse, and the time. -/
structure Input where
  key : Option UInt8
  irqs : ℕ → List Controller
  now : ℕ → UInt8

/-- The position of the mouse as one number. -/
def pack (mx my : Int32) : UInt32 := mx.toUInt32.toUInt16.toUInt32 ||| (my.toUInt32.toUInt16.toUInt32 <<< 16)

def processKey (m : Machine) (key : Option UInt8) : Machine :=
  match key with
  | some scancode =>
    if scancode < 0x80 then { m with os := (postMessage m.os m.mainWindow wmKeydown scancode.toUInt32 0).2 } else m
  | none => m

/-- The flag is read, then cleared; then the two coordinates are read. -/
def processMouse (m : Machine) (input : Input) : Outcome :=
  let mouse := interrupts m.mouse (input.irqs 0)
  let clicked := mouse.leftClickPending
  let mouse := { interrupts mouse (input.irqs 1) with leftClickPending := false }
  if clicked then
    let mouse := interrupts mouse (input.irqs 2)
    let mx := mouse.mouseX
    let mouse := interrupts mouse (input.irqs 3)
    sendMessage input.now { m with mouse := mouse } wmLbuttondown 0 (pack mx mouse.mouseY)
  else .ok { m with mouse := mouse }

/-- One iteration of the loop around `GetMessage`; `TranslateMessage` does nothing. -/
def messageStep (now : ℕ → UInt8) (m : Machine) : Machine ⊕ Outcome :=
  match getMessage m.os true with
  | (true, some msg, os) =>
    let m := { m with os := os }
    if msg.message = wmNull then .inr (.ok m)
    else
      match dispatch now m msg with
      | .ok m => .inl m
      | .error halted => .inr (.error halted)
  | (_, _, os) => .inr (.ok { m with os := os })

def showFrame (m : Machine) (input : Input) : Machine :=
  let mouse := interrupts m.mouse (input.irqs 4)
  let mx := mouse.mouseX
  let mouse := interrupts mouse (input.irqs 5)
  let my := mouse.mouseY
  let mouse := interrupts mouse (input.irqs 6)
  let pressed := mouse.leftPressed || mouse.rightPressed || mouse.middlePressed
  let backbuffer := osGuiDrawCursor m.backbuffer mx my pressed
  { m with mouse := mouse, backbuffer := backbuffer, vgaMem := vgaRender m.vgaMem backbuffer }

/-- One round of the main loop; the fuel is for the messages. -/
def round (fuel : ℕ) (m : Machine) (input : Input) : Option Outcome :=
  match processMouse (processKey m input.key) input with
  | .error halted => some (.error halted)
  | .ok m =>
    (loop (messageStep input.now) fuel m).map fun outcome => do
      let m ← outcome
      let m ← sendMessage input.now m wmPaint 0 0
      .ok (showFrame m input)

/-- The main loop, with what is done before it; the result is `none` if the window could not be made. -/
def start (mouse : Mouse) (backbuffer vgaMem : Backbuffer) : Option Machine :=
  let (atom, os) := registerClass .boot (some ⟨some desktopWndProcAddress, some (literal "Sboy28Desktop").1⟩)
  if atom = 0 then none
  else
    let (hwnd, os) := createWindowEx os 0 (some (literal "Sboy28Desktop").1) (some (literal "SBoy28 OS Desktop").1)
      (wsOverlappedwindow ||| wsVisible) 0 0 320 200
    if hwnd = none then none
    else
      let os := (showWindow os hwnd swShow).2
      let os := (updateWindow os hwnd).2
      some ⟨os, desktopInit, hwnd, mouse, draw os.drawn backbuffer, vgaMem⟩

def run (fuel : ℕ) (m : Machine) : List Input → Option Outcome
  | [] => some (.ok m)
  | input :: inputs =>
    match round fuel m input with
    | none => none
    | some (.error halted) => some (.error halted)
    | some (.ok m) => run fuel m inputs

end Loop

end SBoy28.Desktop
