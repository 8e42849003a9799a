import SBoy28.Windows.Screen

/-!
# Drawing for applications

The rest of `gui.c`, and the calls of `windows.c` that draw text and rectangles on a device context. There is one
device context, the screen.
-/

namespace SBoy28.Windows
open Lib

section Gui

def osGuiDrawDesktopBackground (backbuffer : Backbuffer) : Backbuffer :=
  let backbuffer := osGuiFillRect backbuffer ⟨0, 0, 320, 184⟩ cyan
  osGuiFillRect backbuffer ⟨0, 120, 320, 64⟩ green

/-- The characters of a literal; a zero would end it. -/
def literal (s : String) : CString :=
  ⟨(s.toList.map fun c => UInt8.ofNat c.toNat).filter fun b => b ≠ 0, by simp⟩

def osGuiDrawTaskbar (backbuffer : Backbuffer) (startMenuOpen : Bool) : Backbuffer :=
  let backbuffer := osGuiFillRect backbuffer ⟨0, 184, 320, 16⟩ darkGrey
  let startButton : Rect := ⟨4, 186, 46, 12⟩
  let backbuffer := osGuiFillRect backbuffer startButton (if startMenuOpen then brightCyan else grey)
  let backbuffer := osGuiDrawRectOutline backbuffer startButton white
  vgaDrawText backbuffer 10 188 (literal "Start") black

def osGuiDrawCursor (backbuffer : Backbuffer) (x y : Int32) (leftPressed : Bool) : Backbuffer :=
  let color := if leftPressed then brightRed else white
  let backbuffer := forInt32 0 8 (fun buf dy => vgaPutPixel buf x.toUInt32 (y + dy).toUInt32 color) backbuffer
  let backbuffer := forInt32 0 6 (fun buf dx => vgaPutPixel buf (x + dx).toUInt32 y.toUInt32 color) backbuffer
  let backbuffer := vgaPutPixel backbuffer (x + 1).toUInt32 (y + 1).toUInt32 color
  let backbuffer := vgaPutPixel backbuffer (x + 2).toUInt32 (y + 2).toUInt32 color
  vgaPutPixel backbuffer (x + 3).toUInt32 (y + 3).toUInt32 color

def osGuiPointInRect (x y : Int32) (rect : Rect) : Bool :=
  x ≥ rect.x && x < rect.x + rect.w && y ≥ rect.y && y < rect.y + rect.h

end Gui

section Gdi

/-- `TextOutA`: `c` characters go to a buffer of 256, and the zero behind them. -/
def textOutA (backbuffer : Backbuffer) (x y : Int32) (lpString : Option (ℕ → UInt8)) (c : Int32) :
    Bool × Backbuffer :=
  match lpString with
  | none => (false, backbuffer)
  | some str =>
    if c ≤ 0 then (false, backbuffer)
    else
      let count := if c < 255 then c else 255
      let buffer : CString := ⟨string str count.toNatClampNeg, zero_notMem_string str count.toNatClampNeg⟩
      (true, vgaDrawText backbuffer x.toUInt32 y.toUInt32 buffer white)

/-- A string in memory, with its zero. -/
def CString.chars (s : CString) (k : ℕ) : UInt8 := s.1.getD k 0

end Gdi

end SBoy28.Windows
