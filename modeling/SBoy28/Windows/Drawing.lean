import SBoy28.Windows.Model

/-!
# Drawing into the backbuffer

Pixels, characters and the windows of `gui.c`, as they are drawn into the backbuffer once
`vga_init` has allocated it.
-/

namespace SBoy28.Windows

section Pixels

abbrev Backbuffer := ℕ → UInt8

def vgaWidth : UInt32 := 320
def vgaHeight : UInt32 := 200

def blue : UInt8 := 1
def darkGrey : UInt8 := 8
def brightBlue : UInt8 := 9
def white : UInt8 := 15

def vgaPutPixel (backbuffer : Backbuffer) (x y : UInt32) (color : UInt8) : Backbuffer :=
  if x < vgaWidth ∧ y < vgaHeight then Function.update backbuffer (y * vgaWidth + x).toNat color
  else backbuffer

/-- `for (int32_t k = start; k < stop; k++)`. -/
def forInt32 (start stop : Int32) (body : Backbuffer → Int32 → Backbuffer) (backbuffer : Backbuffer) : Backbuffer :=
  (List.range (stop.toInt - start.toInt).toNat).foldl (fun buf k => body buf (start + Int32.ofNat k)) backbuffer

end Pixels

section Text

/-- The glyphs of the characters from the blank to the underscore. -/
def fontUpper : List (List UInt8) :=
  [[0x00, 0x00, 0x00, 0x00, 0x00, 0x00, 0x00, 0x00],
   [0x18, 0x18, 0x18, 0x18, 0x18, 0x00, 0x18, 0x00],
   [0x6C, 0x6C, 0x6C, 0x00, 0x00, 0x00, 0x00, 0x00],
   [0x6C, 0x6C, 0xFE, 0x6C, 0xFE, 0x6C, 0x6C, 0x00],
   [0x18, 0x7E, 0xC0, 0x7E, 0x06, 0xFC, 0x18, 0x00],
   [0x00, 0xC6, 0xCC, 0x18, 0x30, 0x66, 0xC6, 0x00],
   [0x38, 0x6C, 0x38, 0x76, 0xDC, 0xCC, 0x76, 0x00],
   [0x18, 0x18, 0x30, 0x00, 0x00, 0x00, 0x00, 0x00],
   [0x0C, 0x18, 0x30, 0x30, 0x30, 0x18, 0x0C, 0x00],
   [0x30, 0x18, 0x0C, 0x0C, 0x0C, 0x18, 0x30, 0x00],
   [0x00, 0x66, 0x3C, 0xFF, 0x3C, 0x66, 0x00, 0x00],
   [0x00, 0x18, 0x18, 0x7E, 0x18, 0x18, 0x00, 0x00],
   [0x00, 0x00, 0x00, 0x00, 0x00, 0x18, 0x18, 0x30],
   [0x00, 0x00, 0x00, 0x7E, 0x00, 0x00, 0x00, 0x00],
   [0x00, 0x00, 0x00, 0x00, 0x00, 0x18, 0x18, 0x00],
   [0x06, 0x0C, 0x18, 0x30, 0x60, 0xC0, 0x80, 0x00],
   [0x3C, 0x66, 0x6E, 0x76, 0x66, 0x66, 0x3C, 0x00],
   [0x18, 0x38, 0x18, 0x18, 0x18, 0x18, 0x7E, 0x00],
   [0x3C, 0x66, 0x06, 0x0C, 0x18, 0x30, 0x7E, 0x00],
   [0x3C, 0x66, 0x06, 0x1C, 0x06, 0x66, 0x3C, 0x00],
   [0x1C, 0x3C, 0x6C, 0xCC, 0xFE, 0x0C, 0x1E, 0x00],
   [0x7E, 0x60, 0x7C, 0x06, 0x06, 0x66, 0x3C, 0x00],
   [0x3C, 0x66, 0x60, 0x7C, 0x66, 0x66, 0x3C, 0x00],
   [0x7E, 0x66, 0x06, 0x0C, 0x18, 0x18, 0x18, 0x00],
   [0x3C, 0x66, 0x66, 0x3C, 0x66, 0x66, 0x3C, 0x00],
   [0x3C, 0x66, 0x66, 0x3E, 0x06, 0x66, 0x3C, 0x00],
   [0x00, 0x18, 0x18, 0x00, 0x18, 0x18, 0x00, 0x00],
   [0x00, 0x18, 0x18, 0x00, 0x18, 0x18, 0x30, 0x00],
   [0x0C, 0x18, 0x30, 0x60, 0x30, 0x18, 0x0C, 0x00],
   [0x00, 0x00, 0x7E, 0x00, 0x7E, 0x00, 0x00, 0x00],
   [0x30, 0x18, 0x0C, 0x06, 0x0C, 0x18, 0x30, 0x00],
   [0x3C, 0x66, 0x06, 0x0C, 0x18, 0x00, 0x18, 0x00],
   [0x3C, 0x66, 0x06, 0x5E, 0x66, 0x66, 0x3C, 0x00],
   [0x18, 0x3C, 0x66, 0x66, 0x7E, 0x66, 0x66, 0x00],
   [0x7C, 0x66, 0x66, 0x7C, 0x66, 0x66, 0x7C, 0x00],
   [0x3C, 0x66, 0x60, 0x60, 0x60, 0x66, 0x3C, 0x00],
   [0x78, 0x6C, 0x66, 0x66, 0x66, 0x6C, 0x78, 0x00],
   [0x7E, 0x60, 0x60, 0x7C, 0x60, 0x60, 0x7E, 0x00],
   [0x7E, 0x60, 0x60, 0x7C, 0x60, 0x60, 0x60, 0x00],
   [0x3C, 0x66, 0x60, 0x6E, 0x66, 0x66, 0x3C, 0x00],
   [0x66, 0x66, 0x66, 0x7E, 0x66, 0x66, 0x66, 0x00],
   [0x3C, 0x18, 0x18, 0x18, 0x18, 0x18, 0x3C, 0x00],
   [0x1E, 0x0C, 0x0C, 0x0C, 0x0C, 0xCC, 0x78, 0x00],
   [0x66, 0x6C, 0x78, 0x70, 0x78, 0x6C, 0x66, 0x00],
   [0x60, 0x60, 0x60, 0x60, 0x60, 0x60, 0x7E, 0x00],
   [0x63, 0x77, 0x7F, 0x6B, 0x63, 0x63, 0x63, 0x00],
   [0x66, 0x76, 0x7E, 0x7E, 0x6E, 0x66, 0x66, 0x00],
   [0x3C, 0x66, 0x66, 0x66, 0x66, 0x66, 0x3C, 0x00],
   [0x7C, 0x66, 0x66, 0x7C, 0x60, 0x60, 0x60, 0x00],
   [0x3C, 0x66, 0x66, 0x66, 0x66, 0x3C, 0x0E, 0x01],
   [0x7C, 0x66, 0x66, 0x7C, 0x78, 0x6C, 0x66, 0x00],
   [0x3C, 0x66, 0x60, 0x3C, 0x06, 0x66, 0x3C, 0x00],
   [0x7E, 0x18, 0x18, 0x18, 0x18, 0x18, 0x18, 0x00],
   [0x66, 0x66, 0x66, 0x66, 0x66, 0x66, 0x3C, 0x00],
   [0x66, 0x66, 0x66, 0x66, 0x66, 0x3C, 0x18, 0x00],
   [0x63, 0x63, 0x63, 0x6B, 0x7F, 0x77, 0x63, 0x00],
   [0x66, 0x66, 0x3C, 0x18, 0x3C, 0x66, 0x66, 0x00],
   [0x66, 0x66, 0x66, 0x3C, 0x18, 0x18, 0x18, 0x00],
   [0x7E, 0x06, 0x0C, 0x18, 0x30, 0x60, 0x7E, 0x00],
   [0x3C, 0x30, 0x30, 0x30, 0x30, 0x30, 0x3C, 0x00],
   [0x80, 0x40, 0x20, 0x10, 0x08, 0x04, 0x02, 0x00],
   [0x3C, 0x0C, 0x0C, 0x0C, 0x0C, 0x0C, 0x3C, 0x00],
   [0x18, 0x3C, 0x66, 0x00, 0x00, 0x00, 0x00, 0x00],
   [0x00, 0x00, 0x00, 0x00, 0x00, 0x00, 0x00, 0xFF]]

/-- The glyphs of the lower case letters. -/
def fontLower : List (List UInt8) :=
  [[0x00, 0x00, 0x3C, 0x06, 0x3E, 0x66, 0x3E, 0x00],
   [0x60, 0x60, 0x7C, 0x66, 0x66, 0x66, 0x7C, 0x00],
   [0x00, 0x00, 0x3C, 0x60, 0x60, 0x66, 0x3C, 0x00],
   [0x06, 0x06, 0x3E, 0x66, 0x66, 0x66, 0x3E, 0x00],
   [0x00, 0x00, 0x3C, 0x66, 0x7E, 0x60, 0x3C, 0x00],
   [0x1C, 0x30, 0x7C, 0x30, 0x30, 0x30, 0x30, 0x00],
   [0x00, 0x00, 0x3E, 0x66, 0x66, 0x3E, 0x06, 0x3C],
   [0x60, 0x60, 0x7C, 0x66, 0x66, 0x66, 0x66, 0x00],
   [0x18, 0x00, 0x38, 0x18, 0x18, 0x18, 0x3C, 0x00],
   [0x06, 0x00, 0x06, 0x06, 0x06, 0x66, 0x3C, 0x00],
   [0x60, 0x60, 0x66, 0x6C, 0x78, 0x6C, 0x66, 0x00],
   [0x38, 0x18, 0x18, 0x18, 0x18, 0x18, 0x3C, 0x00],
   [0x00, 0x00, 0x6C, 0xFE, 0xD6, 0xC6, 0xC6, 0x00],
   [0x00, 0x00, 0x7C, 0x66, 0x66, 0x66, 0x66, 0x00],
   [0x00, 0x00, 0x3C, 0x66, 0x66, 0x66, 0x3C, 0x00],
   [0x00, 0x00, 0x7C, 0x66, 0x66, 0x7C, 0x60, 0x60],
   [0x00, 0x00, 0x3E, 0x66, 0x66, 0x3E, 0x06, 0x06],
   [0x00, 0x00, 0x7C, 0x66, 0x60, 0x60, 0x60, 0x00],
   [0x00, 0x00, 0x3E, 0x60, 0x3C, 0x06, 0x7C, 0x00],
   [0x30, 0x30, 0x7C, 0x30, 0x30, 0x30, 0x1C, 0x00],
   [0x00, 0x00, 0x66, 0x66, 0x66, 0x66, 0x3E, 0x00],
   [0x00, 0x00, 0x66, 0x66, 0x66, 0x3C, 0x18, 0x00],
   [0x00, 0x00, 0xC3, 0xD6, 0xD6, 0xFE, 0x6C, 0x00],
   [0x00, 0x00, 0x66, 0x3C, 0x18, 0x3C, 0x66, 0x00],
   [0x00, 0x00, 0x66, 0x66, 0x66, 0x3E, 0x06, 0x3C],
   [0x00, 0x00, 0x7E, 0x0C, 0x18, 0x30, 0x7E, 0x00]]

/-- The row `i` of the glyph of a character; the other characters have none. -/
def font8x8 (ch : UInt8) (i : ℕ) : UInt8 :=
  if 32 ≤ ch ∧ ch ≤ 95 then (fontUpper.getD (ch.toNat - 32) []).getD i 0
  else if 97 ≤ ch ∧ ch ≤ 122 then (fontLower.getD (ch.toNat - 97) []).getD i 0
  else 0

def vgaDrawCharLocked (backbuffer : Backbuffer) (x y : UInt32) (ch color : UInt8) : Backbuffer :=
  if 127 < ch then backbuffer
  else
    (List.range 8).foldl (fun buf i => (List.range 8).foldl (fun buf j =>
      if (font8x8 ch i).toNat.testBit (7 - j) then
        vgaPutPixel buf (x + UInt32.ofNat j) (y + UInt32.ofNat i) color
      else buf) buf) backbuffer

/-- The characters of a string from number `k` on. -/
def vgaDrawStringLoop (str : ℕ → UInt8) (color : UInt8) : ℕ → ℕ → UInt32 → UInt32 → Backbuffer → Backbuffer
  | 0, _, _, _, backbuffer => backbuffer
  | n + 1, k, x, y, backbuffer =>
    if str k = 0 then backbuffer
    else
      let backbuffer := vgaDrawCharLocked backbuffer x y (str k) color
      let x := x + 8
      let wrap := x + 8 > vgaWidth
      let y := if wrap then y + 8 else y
      let x := if wrap then 0 else x
      if y + 8 > vgaHeight then backbuffer else vgaDrawStringLoop str color n (k + 1) x y backbuffer

lemma vgaDrawStringLoop_end {str : ℕ → UInt8} {m : ℕ} (hm : str m = 0) (color : UInt8) (n n' : ℕ) {k : ℕ} (hk : k ≤ m)
    (hn : m < k + n) (hn' : m < k + n') (x y : UInt32) (buf : Backbuffer) :
    vgaDrawStringLoop str color n k x y buf = vgaDrawStringLoop str color n' k x y buf := by
  induction n generalizing n' k x y buf with
  | zero => omega
  | succ n ih =>
    cases n' with
    | zero => omega
    | succ n' =>
      simp only [vgaDrawStringLoop]
      by_cases hz : str k = 0
      · rw [if_pos hz, if_pos hz]
      · have hne : k ≠ m := fun he => hz (he ▸ hm)
        rw [if_neg hz, if_neg hz, ih n' (by omega) (by omega) (by omega)]

/-- A title is an array of 128 characters with a zero in it. -/
def vgaDrawString (backbuffer : Backbuffer) (x y : UInt32) (str : ℕ → UInt8) (color : UInt8) : Backbuffer :=
  vgaDrawStringLoop str color 128 0 x y backbuffer

end Text

section Gui

/-- In an `os_rect_t` the four numbers are a corner and a size. -/
abbrev Rect.x (rect : Rect) : Int32 := rect.left
abbrev Rect.y (rect : Rect) : Int32 := rect.top
abbrev Rect.w (rect : Rect) : Int32 := rect.right
abbrev Rect.h (rect : Rect) : Int32 := rect.bottom

def osGuiFillRect (backbuffer : Backbuffer) (rect : Rect) (color : UInt8) : Backbuffer :=
  forInt32 rect.y (rect.y + rect.h) (fun buf y =>
    forInt32 rect.x (rect.x + rect.w) (fun buf x => vgaPutPixel buf x.toUInt32 y.toUInt32 color) buf) backbuffer

def osGuiDrawRectOutline (backbuffer : Backbuffer) (rect : Rect) (color : UInt8) : Backbuffer :=
  let backbuffer := forInt32 rect.x (rect.x + rect.w) (fun buf x =>
    vgaPutPixel (vgaPutPixel buf x.toUInt32 rect.y.toUInt32 color) x.toUInt32
      (rect.y + rect.h - 1).toUInt32 color) backbuffer
  forInt32 rect.y (rect.y + rect.h) (fun buf y =>
    vgaPutPixel (vgaPutPixel buf rect.x.toUInt32 y.toUInt32 color)
      (rect.x + rect.w - 1).toUInt32 y.toUInt32 color) backbuffer

def osGuiDrawTitleBar (backbuffer : Backbuffer) (rect : Rect) (title : ℕ → UInt8) : Backbuffer :=
  let titleBar : Rect := ⟨rect.x + 1, rect.y + 1, rect.w - 2, 10⟩
  let backbuffer := osGuiFillRect backbuffer titleBar brightBlue
  vgaDrawString backbuffer (rect.x + 4).toUInt32 (rect.y + 2).toUInt32 title white

def osGuiDrawWindow (backbuffer : Backbuffer) (rect : Rect) (title : ℕ → UInt8) : Backbuffer :=
  let backbuffer := osGuiFillRect backbuffer rect blue
  let backbuffer := osGuiDrawRectOutline backbuffer rect white
  let shadow : Rect := ⟨rect.x + rect.w, rect.y + 2, 2, rect.h⟩
  let backbuffer := osGuiFillRect backbuffer shadow darkGrey
  osGuiDrawTitleBar backbuffer rect title

/-- The backbuffer after some windows were drawn. -/
def draw (drawn : List (Rect × (ℕ → UInt8))) (backbuffer : Backbuffer) : Backbuffer :=
  drawn.foldl (fun buf picture => osGuiDrawWindow buf picture.1 picture.2) backbuffer

end Gui

end SBoy28.Windows
