import Mathlib.Data.List.FinRange
import Mathlib.Data.Int.Notation
import Mathlib.Logic.Function.Basic
import Mathlib.Tactic.Common

/-!
# Window classes, windows and messages

`windows.c` keeps sixteen classes and sixteen windows in static arrays; a handle is the address
of a slot. One message can be pending.
-/

namespace SBoy28.Windows

section Strings

/-- The characters of an array from index `i` on, compared with a string. -/
def strcmpLoop (name : ℕ → UInt8) (name1 : List UInt8) : ℕ → ℕ → ℤ
  | 0, _ => 0
  | n + 1, i =>
    if name i ≠ 0 ∧ name1.getD i 0 ≠ 0 then
      if name i ≠ name1.getD i 0 then (name i).toNat - (name1.getD i 0).toNat
      else strcmpLoop name name1 n (i + 1)
    else (name i).toNat - (name1.getD i 0).toNat

def strcmp (name : ℕ → UInt8) (name1 : List UInt8) : ℤ := strcmpLoop name name1 64 0

/-- Both loops write below `n` and below 64: the characters first, then zeros. -/
def strncpy (name : ℕ → UInt8) (name1 : List UInt8) (n : ℕ) : ℕ → UInt8 :=
  let name := fun i => if i < n ∧ i < 64 then name1.getD i 0 else name i
  if 64 ≤ n then Function.update name 63 0 else name

end Strings

section Data

/-- The address of a window procedure. -/
abbrev WndProc := ℕ

structure WindowClass where
  inUse : Bool
  atom : UInt32
  wndProc : Option WndProc
  className : ℕ → UInt8

structure Rect where
  left : Int32
  top : Int32
  right : Int32
  bottom : Int32
deriving DecidableEq

structure Window where
  inUse : Bool
  visible : Bool
  bounds : Rect
  style : UInt32
  exStyle : UInt32
  windowClass : Option (Fin 16)
  title : ℕ → UInt8

/-- The null pointer or the address of a slot. -/
abbrev HWnd := Option (Fin 16)

structure Msg where
  hwnd : HWnd
  message : UInt32
  wParam : UInt32
  lParam : UInt32
deriving DecidableEq

def wmNull : UInt32 := 0x0000
def wmQuit : UInt32 := 0x0012
def wsVisible : UInt32 := 0x10000000
def swHide : Int32 := 0
def swShow : Int32 := 5
def swpNosize : UInt32 := 0x0001
def swpNomove : UInt32 := 0x0002
def swpNoredraw : UInt32 := 0x0008

/-- The statics of `windows.c`, with the calls of `os_gui_draw_window`. -/
structure Os where
  classes : Fin 16 → WindowClass
  windows : Fin 16 → Window
  pendingMessage : Msg
  hasPendingMessage : Bool
  quitRequested : Bool
  quitCode : UInt32
  nextAtom : UInt32
  drawn : List (Rect × (ℕ → UInt8))

/-- `WNDCLASS`, as far as it is read. -/
structure WndClass where
  lpfnWndProc : Option WndProc
  lpszClassName : Option (List UInt8)

/-- A slot that holds zeros. -/
def Window.zero : Window := ⟨false, false, ⟨0, 0, 0, 0⟩, 0, 0, none, fun _ => 0⟩

def WindowClass.zero : WindowClass := ⟨false, 0, none, fun _ => 0⟩

/-- The statics before any call. -/
def Os.boot : Os :=
  ⟨fun _ => .zero, fun _ => .zero, ⟨none, 0, 0, 0⟩, false, false, 0, 1, []⟩

end Data

section Classes

def findClassByName (os : Os) (name : Option (List UInt8)) : Option (Fin 16) :=
  match name with
  | none => none
  | some name =>
    (List.finRange 16).find? fun i => (os.classes i).inUse && strcmp (os.classes i).className name == 0

/-- `RegisterClass`; the result 0 means failure. -/
def registerClass (os : Os) (lpWndClass : Option WndClass) : UInt32 × Os :=
  match lpWndClass with
  | some ⟨some proc, some name⟩ =>
    if (findClassByName os (some name)).isSome then (0, os)
    else
      match (List.finRange 16).find? fun i => !(os.classes i).inUse with
      | some i =>
        let className := Function.update (strncpy (os.classes i).className name 63) 63 0
        (os.nextAtom, { os with
          classes := Function.update os.classes i ⟨true, os.nextAtom, some proc, className⟩
          nextAtom := os.nextAtom + 1 })
      | none => (0, os)
  | _ => (0, os)

end Classes

section Windows

def isValidWindow (os : Os) (hWnd : HWnd) : Bool :=
  match hWnd with
  | some i => (os.windows i).inUse
  | none => false

@[simp] lemma isValidWindow_some (os : Os) (i : Fin 16) : isValidWindow os (some i) = (os.windows i).inUse := rfl

def drawWindow (os : Os) (i : Fin 16) : Os :=
  let window := os.windows i
  if !window.inUse || !window.visible then os
  else
    let rect : Rect := ⟨window.bounds.left, window.bounds.top, window.bounds.right - window.bounds.left,
      window.bounds.bottom - window.bounds.top⟩
    { os with drawn := os.drawn ++ [(rect, window.title)] }

def redrawDesktop (os : Os) : Os := (List.finRange 16).foldl drawWindow os

/-- What `CreateWindowEx` writes into a slot. -/
def newWindow (old : Window) (dwExStyle : UInt32) (klass : Fin 16) (lpWindowName : Option (List UInt8))
    (dwStyle : UInt32) (x y nWidth nHeight : Int32) : Window where
  inUse := true
  visible := decide (dwStyle &&& wsVisible ≠ 0)
  style := dwStyle
  exStyle := dwExStyle
  windowClass := some klass
  bounds := ⟨x, y, x + nWidth, y + nHeight⟩
  title :=
    match lpWindowName with
    | some name => Function.update (strncpy old.title name 127) 127 0
    | none => Function.update old.title 0 0

def createWindowEx (os : Os) (dwExStyle : UInt32) (lpClassName lpWindowName : Option (List UInt8))
    (dwStyle : UInt32) (x y nWidth nHeight : Int32) : HWnd × Os :=
  match findClassByName os lpClassName with
  | none => (none, os)
  | some klass =>
    match (List.finRange 16).find? fun i => !(os.windows i).inUse with
    | some i =>
      let window := newWindow (os.windows i) dwExStyle klass lpWindowName dwStyle x y nWidth nHeight
      let os := { os with windows := Function.update os.windows i window }
      (some i, if window.visible then drawWindow os i else os)
    | none => (none, os)

def destroyWindow (os : Os) (hWnd : HWnd) : Bool × Os :=
  match hWnd with
  | some i =>
    if isValidWindow os (some i) then
      (true, redrawDesktop { os with windows := Function.update os.windows i .zero })
    else (false, os)
  | none => (false, os)

/-- The calls on a handle all test it, change the record of the window and draw. -/
def onWindow (os : Os) (hWnd : HWnd) (change : Window → Window) (draw : Os → Fin 16 → Os) : Bool × Os :=
  match hWnd with
  | some i =>
    if isValidWindow os (some i) then
      (true, draw { os with windows := Function.update os.windows i (change (os.windows i)) } i)
    else (false, os)
  | none => (false, os)

def showWindow (os : Os) (hWnd : HWnd) (nCmdShow : Int32) : Bool × Os :=
  onWindow os hWnd (fun window => { window with visible := nCmdShow != swHide }) fun os _ => redrawDesktop os

def updateWindow (os : Os) (hWnd : HWnd) : Bool × Os := onWindow os hWnd id drawWindow

def setWindowText (os : Os) (hWnd : HWnd) (lpString : Option (List UInt8)) : Bool × Os :=
  onWindow os hWnd (fun window => { window with title :=
    match lpString with
    | some name => Function.update (strncpy window.title name 127) 127 0
    | none => Function.update window.title 0 0 }) drawWindow

def moveWindow (os : Os) (hWnd : HWnd) (x y nWidth nHeight : Int32) (bRepaint : Bool) : Bool × Os :=
  onWindow os hWnd (fun window => { window with bounds := ⟨x, y, x + nWidth, y + nHeight⟩ })
    fun os _ => if bRepaint then redrawDesktop os else os

/-- The new size is taken from the new position. -/
def setWindowPos (os : Os) (hWnd : HWnd) (x y cx cy : Int32) (uFlags : UInt32) : Bool × Os :=
  onWindow os hWnd
    (fun window =>
      let bounds := if uFlags &&& swpNomove = 0 then { window.bounds with left := x, top := y } else window.bounds
      let bounds :=
        if uFlags &&& swpNosize = 0 then { bounds with right := bounds.left + cx, bottom := bounds.top + cy }
        else bounds
      { window with bounds := bounds })
    fun os _ => if uFlags &&& swpNoredraw = 0 then redrawDesktop os else os

end Windows

section Messages

/-- `GetMessage`: its result, and what it writes to `lpMsg` if that is not the null pointer. -/
def getMessage (os : Os) (lpMsg : Bool) : Bool × Option Msg × Os :=
  if !lpMsg then (false, none, os)
  else if os.quitRequested then (false, some ⟨none, wmQuit, os.quitCode, 0⟩, os)
  else if os.hasPendingMessage then
    (true, some os.pendingMessage, { os with hasPendingMessage := false })
  else (true, some ⟨none, wmNull, 0, 0⟩, os)

/-- `DispatchMessage`: the call of a window procedure that it makes. -/
def dispatchMessage (os : Os) (lpMsg : Option Msg) : Option (WndProc × Msg) :=
  match lpMsg with
  | none => none
  | some msg =>
    match msg.hwnd with
    | none => none
    | some i =>
      if isValidWindow os (some i) then
        match (os.windows i).windowClass with
        | none => none
        | some klass => (os.classes klass).wndProc.map fun proc => (proc, msg)
      else none

def postMessage (os : Os) (hWnd : HWnd) (msg wParam lParam : UInt32) : Bool × Os :=
  (true, { os with pendingMessage := ⟨hWnd, msg, wParam, lParam⟩, hasPendingMessage := true })

def postQuitMessage (os : Os) (nExitCode : UInt32) : Os :=
  { os with quitRequested := true, quitCode := nExitCode }

end Messages

end SBoy28.Windows
