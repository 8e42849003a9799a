import SBoy28.Lib.Layers
import SBoy28.Windows.Filling

/-!
# The backbuffer as a picture

`vga_clear` and `vga_render` work on the whole backbuffer. What is drawn in one colour is a layer over it.
-/

namespace SBoy28.Windows
open Lib

section Model

def black : UInt8 := 0
def green : UInt8 := 2
def cyan : UInt8 := 3
def grey : UInt8 := 7
def brightCyan : UInt8 := 11
def brightRed : UInt8 := 12

def vgaSize : ℕ := 64000

/-- `memset` over the whole backbuffer. -/
def vgaClear (backbuffer : Backbuffer) (color : UInt8) : Backbuffer :=
  fun p => if p < vgaSize then color else backbuffer p

/-- `memcpy` of the backbuffer into the video memory. -/
def vgaRender (vgaMem backbuffer : Backbuffer) : Backbuffer :=
  fun p => if p < vgaSize then backbuffer p else vgaMem p

def vgaDrawChar (backbuffer : Backbuffer) (x y : UInt32) (ch color : UInt8) : Backbuffer :=
  vgaDrawCharLocked backbuffer x y ch color

end Model

section Layers

variable {f : Backbuffer → Backbuffer} {part : ℤ → ℤ → Prop} {color : UInt8} {px py p : ℕ}

/-- The dots of a glyph. -/
def lit (ch : UInt8) (i j : ℕ) : Bool := (font8x8 ch i).toNat.testBit (7 - j)

lemma Covers.keeps (hf : Covers f part) (hpx : px < 320) (h : ¬part px py) (backbuffer : Backbuffer) :
    f backbuffer (py * 320 + px) = backbuffer (py * 320 + px) := by
  apply eq_of_not_touches
  rw [hf.touches]
  rintro ⟨qx, qy, hpixel, hpart⟩
  obtain ⟨rfl, rfl⟩ := pixel_unique hpx hpixel
  exact h hpart

lemma Covers.paints_in (hf : Covers f part) (hc : Fills color f) (hpx : px < 320) (hpy : py < 200) (h : part px py)
    (backbuffer : Backbuffer) : f backbuffer (py * 320 + px) = color := by
  apply hc.eq_of_touches
  rw [hf.touches]
  exact ⟨px, py, ⟨by omega, by omega, by omega, by omega, by omega⟩, h⟩

/-- Nothing behind the last pixel is written. -/
lemma Covers.outside (hf : Covers f part) (hp : vgaSize ≤ p) (backbuffer : Backbuffer) :
    f backbuffer p = backbuffer p := by
  unfold vgaSize at hp
  apply eq_of_not_touches
  rw [hf.touches]
  rintro ⟨qx, qy, ⟨hx0, hx, hy0, hy, hindex⟩, -⟩
  omega

lemma fills_char (x y : UInt32) (ch color : UInt8) : Fills color fun buf => vgaDrawCharLocked buf x y ch color := by
  unfold vgaDrawCharLocked
  by_cases hch : 127 < ch
  · simp only [if_pos hch]
    exact Fills.id
  · simp only [if_neg hch]
    apply Fills.foldl
    intro i
    apply Fills.foldl
    intro j
    cases (font8x8 ch i).toNat.testBit (7 - j) with
    | false => exact Fills.id
    | true => exact fills_putPixel _ _ color

lemma fills_stringLoop (str : ℕ → UInt8) (color : UInt8) (n k : ℕ) (x y : UInt32) :
    Fills color fun buf => vgaDrawStringLoop str color n k x y buf := by
  induction n generalizing k x y with
  | zero => exact Fills.id
  | succ n ih =>
    simp only [vgaDrawStringLoop]
    by_cases hz : str k = 0
    · simp only [if_pos hz]
      exact Fills.id
    · simp only [if_neg hz]
      generalize (if x + 8 + 8 > vgaWidth then (0 : UInt32) else x + 8) = x'
      generalize (if x + 8 + 8 > vgaWidth then y + 8 else y) = y'
      by_cases hend : y' + 8 > vgaHeight
      · simp only [if_pos hend]
        exact fills_char x y (str k) color
      · simp only [if_neg hend]
        exact (fills_char x y (str k) color).comp (ih (k + 1) x' y')

@[simp] lemma vgaClear_pixel (backbuffer : Backbuffer) (color : UInt8) (hpx : px < 320) (hpy : py < 200) :
    vgaClear backbuffer color (py * 320 + px) = color := by
  have hp : py * 320 + px < vgaSize := by
    unfold vgaSize
    omega
  exact if_pos hp

@[simp] lemma vgaClear_outside (backbuffer : Backbuffer) (color : UInt8) (hp : vgaSize ≤ p) :
    vgaClear backbuffer color p = backbuffer p := if_neg (Nat.not_lt.mpr hp)

/-- After a frame is shown the video memory is the backbuffer. -/
lemma vgaRender_of_lt (vgaMem backbuffer : Backbuffer) (hp : p < vgaSize) :
    vgaRender vgaMem backbuffer p = backbuffer p := if_pos hp

end Layers

end SBoy28.Windows
