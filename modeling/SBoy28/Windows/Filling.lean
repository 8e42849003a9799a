import SBoy28.Windows.Containment

/-!
# Filled rectangles

A filled rectangle is clipped by the comparison in `vga_put_pixel`: a negative coordinate is a large number
there. What is left of it on the screen has the colour, and the rest of the buffer is as it was.
-/

namespace SBoy28.Windows
open Lib

section Specification

/-- The right and the lower edge are numbers of 32 bits. -/
structure EdgesFit (rect : Rect) : Prop where
  right : -2 ^ 31 ≤ rect.x.toInt + rect.w.toInt ∧ rect.x.toInt + rect.w.toInt < 2 ^ 31
  bottom : -2 ^ 31 ≤ rect.y.toInt + rect.h.toInt ∧ rect.y.toInt + rect.h.toInt < 2 ^ 31

def InRect (rect : Rect) (px py : ℤ) : Prop :=
  rect.x.toInt ≤ px ∧ px < rect.x.toInt + rect.w.toInt ∧ rect.y.toInt ≤ py ∧ py < rect.y.toInt + rect.h.toInt

instance (rect : Rect) (px py : ℤ) : Decidable (InRect rect px py) := inferInstanceAs (Decidable (_ ∧ _))

/-- The pixels of the rectangle have the colour, the others what they had, and nothing behind them is written. -/
structure FillsExactly (backbuffer : Backbuffer) (rect : Rect) (color : UInt8) : Prop where
  pixels : ∀ px < 320, ∀ py < 200, osGuiFillRect backbuffer rect color (py * 320 + px) =
    if InRect rect px py then color else backbuffer (py * 320 + px)
  outside : ∀ p, 64000 ≤ p → osGuiFillRect backbuffer rect color p = backbuffer p

end Specification

variable {rect : Rect} {p : ℕ}

section Colour

lemma fills_putPixel (x y : UInt32) (color : UInt8) : Fills color fun buf => vgaPutPixel buf x y color := by
  unfold vgaPutPixel
  by_cases h : x < vgaWidth ∧ y < vgaHeight
  · simp only [if_pos h]
    exact Fills.update _
  · simp only [if_neg h]
    exact Fills.id

lemma fills_fillRect (rect : Rect) (color : UInt8) : Fills color fun buf => osGuiFillRect buf rect color := by
  unfold osGuiFillRect forInt32
  apply Fills.foldl
  intro y
  apply Fills.foldl
  intro x
  exact fills_putPixel _ _ color

end Colour

section Exactness

/-- A place in the buffer is one pixel only. -/
lemma pixel_unique {px py : ℕ} {qx qy : ℤ} (hpx : px < 320) (h : Pixel (py * 320 + px) qx qy) :
    qx = px ∧ qy = py := by
  obtain ⟨hx0, hx, hy0, hy, hindex⟩ := h
  omega

lemma touches_fill (h : EdgesFit rect) (color : UInt8) : Touches (fun buf => osGuiFillRect buf rect color) p ↔
    ∃ px py, Pixel p px py ∧ InRect rect px py := by
  have hright := toInt_add_of (a := rect.x) (b := rect.w) rfl rfl h.right.1 h.right.2
  have hbottom := toInt_add_of (a := rect.y) (b := rect.h) rfl rfl h.bottom.1 h.bottom.2
  exact (covers_fill_of rect color rfl hright rfl hbottom).touches p

theorem fill_rect_exact (rect : Rect) (h : EdgesFit rect) (color : UInt8) (backbuffer : Backbuffer) :
    FillsExactly backbuffer rect color where
  pixels := by
    intro px hpx py hpy
    by_cases hin : InRect rect px py
    · rw [if_pos hin]
      have htouch := (touches_fill (p := py * 320 + px) h color).mpr
        ⟨px, py, ⟨by omega, by omega, by omega, by omega, by omega⟩, hin⟩
      exact (fills_fillRect rect color).eq_of_touches htouch backbuffer
    · rw [if_neg hin]
      refine eq_of_not_touches (f := fun buf => osGuiFillRect buf rect color) (fun htouch => hin ?_) backbuffer
      obtain ⟨qx, qy, hpixel, hrect⟩ := (touches_fill h color).mp htouch
      obtain ⟨rfl, rfl⟩ := pixel_unique hpx hpixel
      exact hrect
  outside := by
    intro p hp
    refine eq_of_not_touches (f := fun buf => osGuiFillRect buf rect color) (fun htouch => ?_) backbuffer
    obtain ⟨qx, qy, ⟨hx0, hx, hy0, hy, hindex⟩, -⟩ := (touches_fill h color).mp htouch
    omega

/-- A corner is off the screen. -/
theorem fill_rect_exact_corner : FillsExactly (fun _ => 0) ⟨-2, -1, 5, 3⟩ blue :=
  fill_rect_exact _ ⟨by decide, by decide⟩ _ _

end Exactness

end SBoy28.Windows
