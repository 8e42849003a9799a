import Mathlib.Algebra.Group.Int.Defs
import SBoy28.Lib.Strings
import SBoy28.Windows.Classes
import SBoy28.Windows.Redraw

/-!
# The area of a window

`os_gui_draw_window` draws the face, the outline, the shadow, the title bar and the title, and each of them
computes its own coordinates. The outline of a flat or narrow rectangle, the title bar of a low one and the
title may be outside of the area.
-/

namespace SBoy28.Windows
open Lib

section Specification

/-- `vga_draw_string` with a string of any length. -/
def vgaDrawText (backbuffer : Backbuffer) (x y : UInt32) (str : CString) (color : UInt8) : Backbuffer :=
  vgaDrawStringLoop (fun k => str.1.getD k 0) color (str.1.length + 1) 0 x y backbuffer

/-- `os_gui_draw_title_bar` with a title of any length. -/
def osGuiDrawTitleText (backbuffer : Backbuffer) (rect : Rect) (title : CString) : Backbuffer :=
  let titleBar : Rect := ⟨rect.x + 1, rect.y + 1, rect.w - 2, 10⟩
  let backbuffer := osGuiFillRect backbuffer titleBar brightBlue
  vgaDrawText backbuffer (rect.x + 4).toUInt32 (rect.y + 2).toUInt32 title white

/-- `os_gui_draw_window` with a title of any length. -/
def osGuiDrawTitledWindow (backbuffer : Backbuffer) (rect : Rect) (title : CString) : Backbuffer :=
  let backbuffer := osGuiFillRect backbuffer rect blue
  let backbuffer := osGuiDrawRectOutline backbuffer rect white
  let shadow : Rect := ⟨rect.x + rect.w, rect.y + 2, 2, rect.h⟩
  let backbuffer := osGuiFillRect backbuffer shadow darkGrey
  osGuiDrawTitleText backbuffer rect title

/-- The sums of the coordinates are numbers of 32 bits. -/
structure NoOverflow (rect : Rect) : Prop where
  right : rect.x.toInt + rect.w.toInt + 2 < 2 ^ 31
  text : rect.x.toInt + 4 < 2 ^ 31
  bottom : rect.y.toInt + rect.h.toInt + 2 < 2 ^ 31
  bar : rect.y.toInt + 11 < 2 ^ 31
  lastColumn : -2 ^ 31 ≤ rect.x.toInt + rect.w.toInt - 1
  lastRow : -2 ^ 31 ≤ rect.y.toInt + rect.h.toInt - 1

/-- The rectangle and the shadow strip. -/
def InArea (rect : Rect) (px py : ℤ) : Prop :=
  (rect.x.toInt ≤ px ∧ px < rect.x.toInt + rect.w.toInt ∧ rect.y.toInt ≤ py ∧ py < rect.y.toInt + rect.h.toInt) ∨
    (rect.x.toInt + rect.w.toInt ≤ px ∧ px < rect.x.toInt + rect.w.toInt + 2 ∧
      rect.y.toInt + 2 ≤ py ∧ py < rect.y.toInt + 2 + rect.h.toInt)

/-- What the callers rely on: only pixels of the area change. -/
def StaysInArea (rect : Rect) (title : CString) : Prop :=
  ∀ backbuffer p, osGuiDrawTitledWindow backbuffer rect title p ≠ backbuffer p →
    ∃ px py : ℕ, px < 320 ∧ py < 200 ∧ p = py * 320 + px ∧ InArea rect px py

end Specification

section Condition

/-- No number from `a` up to `b` is among the first `n`. -/
def Misses (a b n : ℤ) : Prop := b ≤ a ∨ b ≤ 0 ∨ n ≤ a

/-- The outline of a rectangle without a height has a row at `y` and one above it. -/
def FlatOk (rect : Rect) : Prop :=
  rect.h = 0 → Misses rect.x.toInt (rect.x.toInt + rect.w.toInt) 320 ∨
    Misses (rect.y.toInt - 1) (rect.y.toInt + 1) 200

/-- The outline of a rectangle without a width has a column at `x`, of which the shadow covers all but the two
upper pixels, and one before it. -/
def NarrowOk (rect : Rect) : Prop :=
  rect.w = 0 →
    (Misses (rect.x.toInt - 1) rect.x.toInt 320 ∨
      Misses rect.y.toInt (rect.y.toInt + rect.h.toInt) 200) ∧
    (Misses rect.x.toInt (rect.x.toInt + 1) 320 ∨
      Misses rect.y.toInt (rect.y.toInt + min 2 rect.h.toInt) 200)

/-- The title bar ends in row `y + 10`. -/
def BarOk (rect : Rect) : Prop :=
  Misses (rect.x.toInt + 1) (rect.x.toInt + rect.w.toInt - 1) 320 ∨
    Misses (max (rect.y.toInt + 1) (rect.y.toInt + rect.h.toInt)) (rect.y.toInt + 11) 200

/-- The number of characters on the first line of a text that starts at column `x`. -/
def firstLine (x : ℤ) : ℕ := if -16 ≤ x ∧ x ≤ 312 then ((320 - x) / 8).toNat else 1

/-- The column of character `k` of the text: the other lines have 40 characters each. -/
def textColumn (x : ℤ) (k : ℕ) : ℤ :=
  if k < firstLine x then x + 8 * k else 8 * ((k - firstLine x) % 40 : ℕ)

def textLine (x : ℤ) (k : ℕ) : ℕ := if k < firstLine x then 0 else 1 + (k - firstLine x) / 40

/-- The first character is drawn everywhere, the others down to the end of the screen. -/
def TextShown (x y : ℤ) (k : ℕ) : Prop :=
  k = 0 ∨ -8 ≤ y + 8 * textLine x 1 ∧ y + 8 * textLine x k ≤ 192

def DotOk (rect : Rect) (px py : ℤ) : Prop := 0 ≤ px → px < 320 → 0 ≤ py → py < 200 → InArea rect px py

/-- The dots of the characters are in the area or not on the screen. -/
def TextOk (rect : Rect) (title : CString) : Prop :=
  ∀ k < title.1.length, TextShown (rect.x.toInt + 4) (rect.y.toInt + 2) k → ∀ i < 8, ∀ j < 8,
    (font8x8 (title.1.getD k 0) i).toNat.testBit (7 - j) = true →
      DotOk rect (textColumn (rect.x.toInt + 4) k + j) (rect.y.toInt + 2 + 8 * textLine (rect.x.toInt + 4) k + i)

/-- The parts that may be outside of the area are not. -/
def DrawsInside (rect : Rect) (title : CString) : Prop :=
  FlatOk rect ∧ NarrowOk rect ∧ BarOk rect ∧ TextOk rect title

instance (a b n : ℤ) : Decidable (Misses a b n) := inferInstanceAs (Decidable (_ ∨ _))
instance (rect : Rect) (px py : ℤ) : Decidable (InArea rect px py) := inferInstanceAs (Decidable (_ ∨ _))
instance (rect : Rect) : Decidable (FlatOk rect) := inferInstanceAs (Decidable (_ → _))
instance (rect : Rect) : Decidable (NarrowOk rect) := inferInstanceAs (Decidable (_ → _))
instance (rect : Rect) : Decidable (BarOk rect) := inferInstanceAs (Decidable (_ ∨ _))
instance (x y : ℤ) (k : ℕ) : Decidable (TextShown x y k) := inferInstanceAs (Decidable (_ ∨ _))
instance (rect : Rect) (px py : ℤ) : Decidable (DotOk rect px py) := inferInstanceAs (Decidable (_ → _))

instance (rect : Rect) (title : CString) : Decidable (TextOk rect title) :=
  inferInstanceAs (Decidable (∀ k < title.1.length, TextShown (rect.x.toInt + 4) (rect.y.toInt + 2) k →
    ∀ i < 8, ∀ j < 8, (font8x8 (title.1.getD k 0) i).toNat.testBit (7 - j) = true →
      DotOk rect (textColumn (rect.x.toInt + 4) k + j)
        (rect.y.toInt + 2 + 8 * textLine (rect.x.toInt + 4) k + i)))

instance (rect : Rect) (title : CString) : Decidable (DrawsInside rect title) :=
  inferInstanceAs (Decidable (_ ∧ _))

end Condition

variable {rect : Rect} {title : CString} {p : ℕ}

section Titles

lemma stringLoop_congr {str str' : ℕ → UInt8} (color : UInt8) {n k : ℕ}
    (h : ∀ i, k ≤ i → i < k + n → str i = str' i) (x y : UInt32) (buf : Backbuffer) :
    vgaDrawStringLoop str color n k x y buf = vgaDrawStringLoop str' color n k x y buf := by
  induction n generalizing k x y buf with
  | zero => rfl
  | succ n ih =>
    have hrest := fun x y buf => ih (k := k + 1) (fun i hi hi' => h i (by omega) (by omega)) x y buf
    simp only [vgaDrawStringLoop, h k (Nat.le_refl k) (by omega), hrest]

/-- The title field of a window holds its title. -/
theorem osGuiDrawWindow_string (rect : Rect) {title : ℕ → UInt8} (h : ∃ k < 128, title k = 0)
    (backbuffer : Backbuffer) : osGuiDrawWindow backbuffer rect title =
      osGuiDrawTitledWindow backbuffer rect ⟨string title 128, zero_notMem_string title 128⟩ := by
  obtain ⟨hget, hlt, hend⟩ := string_end h
  have hstr : ∀ i, 0 ≤ i → i < 0 + ((string title 128).length + 1) → title i = (string title 128).getD i 0 := by
    intro i _ hi
    rcases Nat.lt_or_ge i (string title 128).length with hlt' | hge
    · exact (hget i hlt').symm
    · have hi' : i = (string title 128).length := by omega
      rw [List.getD_eq_default _ _ hge, hi', hend]
  unfold osGuiDrawWindow osGuiDrawTitledWindow osGuiDrawTitleBar osGuiDrawTitleText vgaDrawString vgaDrawText
  simp only
  rw [vgaDrawStringLoop_end hend white 128 ((string title 128).length + 1) (Nat.zero_le _) (by omega) (by omega),
    stringLoop_congr white hstr]

end Titles

section Pixels

instance nontrivialUInt8 : Nontrivial UInt8 := ⟨0, 1, by decide⟩

def Pixel (p : ℕ) (px py : ℤ) : Prop := 0 ≤ px ∧ px < 320 ∧ 0 ≤ py ∧ py < 200 ∧ (p : ℤ) = py * 320 + px

/-- The pixel of two numbers of 32 bits, which may stand for negative numbers. -/
lemma touches_putPixel {x y : UInt32} {px py : ℤ} (hx : (x.toNat : ℤ) = px % 2 ^ 32)
    (hy : (y.toNat : ℤ) = py % 2 ^ 32) (hpx : -2 ^ 31 ≤ px ∧ px < 2 ^ 31 + 2 ^ 30)
    (hpy : -2 ^ 31 ≤ py ∧ py < 2 ^ 31 + 2 ^ 30) (color : UInt8) :
    Touches (fun buf => vgaPutPixel buf x y color) p ↔ Pixel p px py := by
  unfold vgaPutPixel Pixel
  have hw : x < vgaWidth ↔ 0 ≤ px ∧ px < 320 := by
    rw [UInt32.lt_iff_toNat_lt]
    have h320 : vgaWidth.toNat = 320 := rfl
    omega
  have hh : y < vgaHeight ↔ 0 ≤ py ∧ py < 200 := by
    rw [UInt32.lt_iff_toNat_lt]
    have h200 : vgaHeight.toNat = 200 := rfl
    omega
  by_cases hin : x < vgaWidth ∧ y < vgaHeight
  · have hon := hin
    rw [hw, hh] at hon
    have hx' : x.toNat = px.toNat := by omega
    have hy' : y.toNat = py.toNat := by omega
    have hindex : (y * vgaWidth + x).toNat = py.toNat * 320 + px.toNat := by
      have hmul : (y * vgaWidth).toNat = py.toNat * 320 := by
        rw [toNat_mul_of_lt, hy']
        · rfl
        · have h320 : vgaWidth.toNat = 320 := rfl
          rw [h320]
          omega
      rw [toNat_add_of_lt (by omega), hmul, hx']
    simp only [if_pos hin, touches_update, hindex]
    omega
  · simp only [if_neg hin]
    refine iff_of_false not_touches_id ?_
    rintro ⟨h1, h2, h3, h4, -⟩
    exact hin ⟨hw.mpr ⟨h1, h2⟩, hh.mpr ⟨h3, h4⟩⟩

lemma toUInt32_toNat (x : Int32) : (x.toUInt32.toNat : ℤ) = x.toInt % 2 ^ 32 := by
  have hlt := x.toBitVec.isLt
  rw [← Int32.toNat_toBitVec, ← Int32.toInt_toBitVec, BitVec.toInt_eq_toNat_cond]
  by_cases hpos : 2 * x.toBitVec.toNat < 2 ^ 32
  · rw [if_pos hpos]
    omega
  · rw [if_neg hpos]
    omega

lemma touches_putPixel_int (x y : Int32) (color : UInt8) :
    Touches (fun buf => vgaPutPixel buf x.toUInt32 y.toUInt32 color) p ↔ Pixel p x.toInt y.toInt := by
  have hx := x.toInt_lt
  have hx' := x.le_toInt
  have hy := y.toInt_lt
  have hy' := y.le_toInt
  exact touches_putPixel (toUInt32_toNat x) (toUInt32_toNat y) (by omega) (by omega) color

lemma touches_forInt32 {first last : Int32} {body : Backbuffer → Int32 → Backbuffer}
    (h : ∀ k, Paints fun buf => body buf k) : Touches (forInt32 first last body) p ↔
      ∃ k : Int32, first.toInt ≤ k.toInt ∧ k.toInt < last.toInt ∧ Touches (fun buf => body buf k) p := by
  have hrounds := touches_foldl (p := p) (fun k : ℕ => h (first + Int32.ofNat k))
    (List.range (last.toInt - first.toInt).toNat)
  have hlt := last.toInt_lt
  have hge := first.le_toInt
  have hround : ∀ n : ℕ, first.toInt + n < last.toInt → (first + Int32.ofNat n).toInt = first.toInt + n := by
    intro n hn
    have hsize : Int32.size = 2 ^ 32 := rfl
    rw [Int32.toInt_add, Int32.toInt_ofNat', Int.add_bmod_bmod, Int.bmod_eq_of_le (by omega) (by omega)]
  change Touches (fun buf => (List.range _).foldl (fun buf k => body buf (first + Int32.ofNat k)) buf) p ↔ _
  rw [hrounds]
  constructor
  · rintro ⟨n, hn, htouch⟩
    rw [List.mem_range] at hn
    refine ⟨first + Int32.ofNat n, ?_, ?_, htouch⟩ <;> rw [hround n (by omega)] <;> omega
  · rintro ⟨k, hk, hk', htouch⟩
    refine ⟨(k.toInt - first.toInt).toNat, List.mem_range.mpr (by omega), ?_⟩
    have hk : first + Int32.ofNat (k.toInt - first.toInt).toNat = k := by
      rw [← Int32.toInt_inj, hround _ (by omega)]
      omega
    rwa [hk]

end Pixels

section Parts

/-- A drawing covers the pixels of a part of the plane that are on the screen. -/
structure Covers (f : Backbuffer → Backbuffer) (part : ℤ → ℤ → Prop) : Prop where
  paints : Paints f
  touches : ∀ p, Touches f p ↔ ∃ px py, Pixel p px py ∧ part px py

lemma Covers.comp {f g : Backbuffer → Backbuffer} {part part' : ℤ → ℤ → Prop} (hf : Covers f part)
    (hg : Covers g part') : Covers (fun buf => g (f buf)) fun px py => part px py ∨ part' px py := by
  refine ⟨hf.paints.comp hg.paints, fun p => ?_⟩
  rw [hg.paints.touches_comp, hf.touches, hg.touches]
  constructor
  · rintro (⟨px, py, hp, hpart⟩ | ⟨px, py, hp, hpart⟩)
    · exact ⟨px, py, hp, Or.inl hpart⟩
    · exact ⟨px, py, hp, Or.inr hpart⟩
  · rintro ⟨px, py, hp, hpart | hpart⟩
    · exact Or.inl ⟨px, py, hp, hpart⟩
    · exact Or.inr ⟨px, py, hp, hpart⟩

lemma Covers.congr {f : Backbuffer → Backbuffer} {part part' : ℤ → ℤ → Prop} (hf : Covers f part)
    (h : ∀ px py, 0 ≤ px → px < 320 → 0 ≤ py → py < 200 → (part px py ↔ part' px py)) : Covers f part' := by
  refine ⟨hf.paints, fun p => ?_⟩
  rw [hf.touches]
  refine exists_congr fun px => exists_congr fun py => and_congr_right fun hp => ?_
  exact h px py hp.1 hp.2.1 hp.2.2.1 hp.2.2.2.1

lemma covers_foldl {α : Type*} {body : Backbuffer → α → Backbuffer} {part : α → ℤ → ℤ → Prop} {l : List α}
    (hpaints : ∀ a, Paints fun buf => body buf a) (h : ∀ a ∈ l, Covers (fun buf => body buf a) (part a)) :
    Covers (fun buf => l.foldl body buf) fun px py => ∃ a ∈ l, part a px py := by
  refine ⟨Paints.foldl hpaints l, fun p => ?_⟩
  rw [touches_foldl hpaints]
  constructor
  · rintro ⟨a, ha, htouch⟩
    obtain ⟨px, py, hp, hpart⟩ := ((h a ha).touches p).mp htouch
    exact ⟨px, py, hp, a, ha, hpart⟩
  · rintro ⟨px, py, hp, a, ha, hpart⟩
    exact ⟨a, ha, ((h a ha).touches p).mpr ⟨px, py, hp, hpart⟩⟩

lemma covers_forInt32 (first last : Int32) {body : Backbuffer → Int32 → Backbuffer} {part : Int32 → ℤ → ℤ → Prop}
    (h : ∀ k, Covers (fun buf => body buf k) (part k)) : Covers (fun buf => forInt32 first last body buf)
      fun px py => ∃ k : Int32, first.toInt ≤ k.toInt ∧ k.toInt < last.toInt ∧ part k px py := by
  refine ⟨paints_forInt32 first last fun k => (h k).paints, fun p => ?_⟩
  refine (touches_forInt32 fun k => (h k).paints).trans ?_
  constructor
  · rintro ⟨k, hk, hk', htouch⟩
    obtain ⟨px, py, hp, hpart⟩ := ((h k).touches p).mp htouch
    exact ⟨px, py, hp, k, hk, hk', hpart⟩
  · rintro ⟨px, py, hp, k, hk, hk', hpart⟩
    exact ⟨k, hk, hk', ((h k).touches p).mpr ⟨px, py, hp, hpart⟩⟩

lemma covers_putPixel (x y : Int32) (color : UInt8) :
    Covers (fun buf => vgaPutPixel buf x.toUInt32 y.toUInt32 color) fun px py => px = x.toInt ∧ py = y.toInt := by
  refine ⟨paints_putPixel _ _ color, fun p => ?_⟩
  rw [touches_putPixel_int]
  exact ⟨fun hp => ⟨_, _, hp, rfl, rfl⟩, fun ⟨px, py, hp, hx, hy⟩ => hx ▸ hy ▸ hp⟩

lemma exists_int32 {t : ℤ} (h0 : 0 ≤ t) (hn : t < 320) : ∃ k : Int32, k.toInt = t :=
  ⟨Int32.ofInt t, Int32.toInt_ofInt_of_le (by omega) (by omega)⟩

lemma covers_fill (rect : Rect) (color : UInt8) : Covers (fun buf => osGuiFillRect buf rect color) fun px py =>
    rect.x.toInt ≤ px ∧ px < (rect.x + rect.w).toInt ∧ rect.y.toInt ≤ py ∧ py < (rect.y + rect.h).toInt := by
  have hloops := covers_forInt32 rect.y (rect.y + rect.h) fun y =>
    covers_forInt32 rect.x (rect.x + rect.w) fun x => covers_putPixel x y color
  refine Covers.congr hloops fun px py hx0 hx hy0 hy => ?_
  constructor
  · rintro ⟨y, hfirst, hlast, x, hfirst', hlast', rfl, rfl⟩
    exact ⟨hfirst', hlast', hfirst, hlast⟩
  · rintro ⟨hpx, hpx', hpy, hpy'⟩
    obtain ⟨x, rfl⟩ := exists_int32 hx0 hx
    obtain ⟨y, rfl⟩ := exists_int32 hy0 (by omega)
    exact ⟨y, hpy, hpy', x, hpx, hpx', rfl, rfl⟩

lemma covers_fill_of (rect : Rect) (color : UInt8) {left right top bottom : ℤ} (hl : rect.x.toInt = left)
    (hr : (rect.x + rect.w).toInt = right) (ht : rect.y.toInt = top) (hb : (rect.y + rect.h).toInt = bottom) :
    Covers (fun buf => osGuiFillRect buf rect color)
      fun px py => left ≤ px ∧ px < right ∧ top ≤ py ∧ py < bottom := by
  subst hl hr ht hb
  exact covers_fill rect color

/-- The two horizontal and the two vertical lines. -/
def OutlinePart (rect : Rect) (px py : ℤ) : Prop :=
  (rect.x.toInt ≤ px ∧ px < (rect.x + rect.w).toInt ∧
      (py = rect.y.toInt ∨ py = (rect.y + rect.h - 1).toInt)) ∨
    (rect.y.toInt ≤ py ∧ py < (rect.y + rect.h).toInt ∧ (px = rect.x.toInt ∨ px = (rect.x + rect.w - 1).toInt))

lemma covers_outline (rect : Rect) (color : UInt8) :
    Covers (fun buf => osGuiDrawRectOutline buf rect color) (OutlinePart rect) := by
  have hrows := covers_forInt32 rect.x (rect.x + rect.w) fun x =>
    (covers_putPixel x rect.y color).comp (covers_putPixel x (rect.y + rect.h - 1) color)
  have hcolumns := covers_forInt32 rect.y (rect.y + rect.h) fun y =>
    (covers_putPixel rect.x y color).comp (covers_putPixel (rect.x + rect.w - 1) y color)
  refine Covers.congr (hrows.comp hcolumns) fun px py hx0 hx hy0 hy => ?_
  unfold OutlinePart
  constructor
  · rintro (⟨x, hx, hx', hpart⟩ | ⟨y, hy, hy', hpart⟩) <;> omega
  · rintro (⟨hpx, hpx', hpy⟩ | ⟨hpy, hpy', hpx⟩)
    · obtain ⟨x, rfl⟩ := exists_int32 hx0 hx
      exact Or.inl ⟨x, hpx, hpx', by omega⟩
    · obtain ⟨y, rfl⟩ := exists_int32 hy0 (by omega)
      exact Or.inr ⟨y, hpy, hpy', by omega⟩

end Parts

section Text

variable {x y : ℤ} {k m : ℕ}

lemma firstLine_spec (x : ℤ) :
    (-16 ≤ x ∧ 8 * (firstLine x : ℤ) ≤ 320 - x ∧ 320 - x < 8 * firstLine x + 8 ∧ 1 ≤ firstLine x) ∨
      ((x < -16 ∨ 312 < x) ∧ firstLine x = 1) := by
  unfold firstLine
  by_cases hx : -16 ≤ x ∧ x ≤ 312
  · rw [if_pos hx]
    omega
  · rw [if_neg hx]
    omega

def RoomBehind (x : ℤ) (k : ℕ) : Prop := 0 ≤ textColumn x k + 16 ∧ textColumn x k + 16 ≤ 320

/-- After a character the text goes on 8 pixels to the right, or at the start of the next line. -/
lemma text_succ (x : ℤ) (k : ℕ) :
    (RoomBehind x k → textColumn x (k + 1) = textColumn x k + 8 ∧ textLine x (k + 1) = textLine x k) ∧
      (¬RoomBehind x k → textColumn x (k + 1) = 0 ∧ textLine x (k + 1) = textLine x k + 1) := by
  have hspec := firstLine_spec x
  unfold RoomBehind textColumn textLine
  generalize firstLine x = n at hspec ⊢
  by_cases hk : k < n
  · rw [if_pos hk, if_pos hk]
    by_cases hnext : k + 1 < n
    · rw [if_pos hnext, if_pos hnext]
      omega
    · rw [if_neg hnext, if_neg hnext]
      omega
  · have hnext : ¬k + 1 < n := by omega
    rw [if_neg hk, if_neg hk, if_neg hnext, if_neg hnext]
    omega

lemma textLine_mono (x : ℤ) (h : k ≤ m) : textLine x k ≤ textLine x m := by
  induction m with
  | zero => rw [Nat.le_zero.mp h]
  | succ m ih =>
    rcases Nat.lt_or_ge m k with hlt | hge
    · have hk : k = m + 1 := Nat.le_antisymm h hlt
      rw [hk]
    · refine (ih hge).trans ?_
      by_cases hroom : RoomBehind x m
      · rw [((text_succ x m).1 hroom).2]
      · rw [((text_succ x m).2 hroom).2]
        exact Nat.le_succ _

lemma textColumn_bounds (hx : -2 ^ 31 ≤ x ∧ x < 2 ^ 31) (k : ℕ) :
    -2 ^ 31 ≤ textColumn x k ∧ textColumn x k < 2 ^ 31 := by
  cases k with
  | zero =>
    have hspec := firstLine_spec x
    unfold textColumn
    rw [if_pos (by omega)]
    omega
  | succ k =>
    by_cases hroom : RoomBehind x k
    · rw [((text_succ x k).1 hroom).1]
      unfold RoomBehind at hroom
      omega
    · rw [((text_succ x k).2 hroom).1]
      omega

def GlyphPart (ch : UInt8) (x y px py : ℤ) : Prop :=
  ∃ i < 8, ∃ j < 8, (font8x8 ch i).toNat.testBit (7 - j) = true ∧ px = x + j ∧ py = y + i

lemma font8x8_high {ch : UInt8} (h : 127 < ch) (i : ℕ) : font8x8 ch i = 0 := by
  have h1 : ¬(32 ≤ ch ∧ ch ≤ 95) := fun hc => absurd (UInt8.lt_of_lt_of_le h hc.2) (by decide)
  have h2 : ¬(97 ≤ ch ∧ ch ≤ 122) := fun hc => absurd (UInt8.lt_of_lt_of_le h hc.2) (by decide)
  rw [font8x8, if_neg h1, if_neg h2]

lemma toNat_add_small {cx : UInt32} {n : ℕ} (hcx : (cx.toNat : ℤ) = x % 2 ^ 32) (hn : n < 2 ^ 32) :
    ((cx + UInt32.ofNat n).toNat : ℤ) = (x + n) % 2 ^ 32 := by
  rw [UInt32.toNat_add, UInt32.toNat_ofNat', Nat.mod_eq_of_lt hn]
  omega

lemma covers_dot {cx cy : UInt32} (hcx : (cx.toNat : ℤ) = x % 2 ^ 32) (hcy : (cy.toNat : ℤ) = y % 2 ^ 32)
    (hx : -2 ^ 31 ≤ x ∧ x < 2 ^ 31) (hy : -2 ^ 31 ≤ y ∧ y < 2 ^ 31) {i j : ℕ} (hi : i < 8) (hj : j < 8)
    (lit : Bool) (color : UInt8) :
    Covers (fun buf => if lit then vgaPutPixel buf (cx + UInt32.ofNat j) (cy + UInt32.ofNat i) color else buf)
      fun px py => lit = true ∧ px = x + j ∧ py = y + i := by
  cases lit with
  | false => exact ⟨Paints.id, fun p => iff_of_false not_touches_id fun ⟨_, _, _, h, _⟩ => Bool.false_ne_true h⟩
  | true =>
    refine ⟨paints_putPixel _ _ color, fun p => ?_⟩
    have hdot := touches_putPixel (p := p) (toNat_add_small (n := j) hcx (by omega))
      (toNat_add_small (n := i) hcy (by omega)) (by omega) (by omega) color
    simp only [if_true, hdot, true_and]
    exact ⟨fun hp => ⟨_, _, hp, rfl, rfl⟩, fun ⟨px, py, hp, hpx, hpy⟩ => hpx ▸ hpy ▸ hp⟩

lemma covers_char {cx cy : UInt32} (hcx : (cx.toNat : ℤ) = x % 2 ^ 32) (hcy : (cy.toNat : ℤ) = y % 2 ^ 32)
    (hx : -2 ^ 31 ≤ x ∧ x < 2 ^ 31) (hy : -2 ^ 31 ≤ y ∧ y < 2 ^ 31) (ch color : UInt8) :
    Covers (fun buf => vgaDrawCharLocked buf cx cy ch color) (GlyphPart ch x y) := by
  unfold vgaDrawCharLocked
  by_cases hch : 127 < ch
  · simp only [if_pos hch]
    refine ⟨Paints.id, fun p => iff_of_false not_touches_id ?_⟩
    rintro ⟨px, py, -, i, -, j, -, hbit, -⟩
    rw [font8x8_high hch] at hbit
    simp at hbit
  · simp only [if_neg hch]
    have hpaints : ∀ i j, Paints fun buf => if (font8x8 ch i).toNat.testBit (7 - j) then
        vgaPutPixel buf (cx + UInt32.ofNat j) (cy + UInt32.ofNat i) color else buf := by
      intro i j
      cases (font8x8 ch i).toNat.testBit (7 - j) with
      | false => exact Paints.id
      | true => exact paints_putPixel _ _ color
    refine (covers_foldl (fun i => Paints.foldl (hpaints i) _) fun i hi => covers_foldl (hpaints i) fun j hj =>
      covers_dot hcx hcy hx hy (List.mem_range.mp hi) (List.mem_range.mp hj) _ color).congr ?_
    intro px py _ _ _ _
    simp only [GlyphPart, List.mem_range]

/-- The line of character `k` can be drawn. -/
def LineShown (x y : ℤ) (k : ℕ) : Prop := -8 ≤ y + 8 * textLine x k ∧ y + 8 * textLine x k ≤ 192

/-- One round of the loop: the position of the next character, and whether the loop goes on. -/
lemma text_next {cx cy : UInt32} (hx : -2 ^ 31 ≤ x ∧ x < 2 ^ 31) (hcx : (cx.toNat : ℤ) = textColumn x k % 2 ^ 32)
    (hcy : (cy.toNat : ℤ) = (y + 8 * textLine x k) % 2 ^ 32)
    (hy : -2 ^ 31 ≤ y + 8 * textLine x k ∧ y + 8 * textLine x k < 2 ^ 31) {cx' cy' : UInt32}
    (hcx' : cx' = if cx + 8 + 8 > vgaWidth then 0 else cx + 8)
    (hcy' : cy' = if cx + 8 + 8 > vgaWidth then cy + 8 else cy) :
    (cx'.toNat : ℤ) = textColumn x (k + 1) % 2 ^ 32 ∧ (cy'.toNat : ℤ) = (y + 8 * textLine x (k + 1)) % 2 ^ 32 ∧
      (cy' + 8 > vgaHeight ↔ ¬LineShown x y (k + 1)) := by
  have h8 : (8 : UInt32).toNat = 8 := rfl
  have h200 : vgaHeight.toNat = 200 := rfl
  have h320 : vgaWidth.toNat = 320 := rfl
  have hcol := textColumn_bounds hx k
  have hright : ((cx + 8 + 8).toNat : ℤ) = (textColumn x k + 16) % 2 ^ 32 := by
    rw [UInt32.toNat_add, UInt32.toNat_add, h8]
    omega
  have hwrap : cx + 8 + 8 > vgaWidth ↔ ¬RoomBehind x k := by
    rw [gt_iff_lt, UInt32.lt_iff_toNat_lt, h320]
    unfold RoomBehind
    omega
  have hstop : (cy'.toNat : ℤ) = (y + 8 * textLine x (k + 1)) % 2 ^ 32 →
      textLine x (k + 1) ≤ textLine x k + 1 → (cy' + 8 > vgaHeight ↔ ¬LineShown x y (k + 1)) := by
    intro hcy'' hline
    have hmono := textLine_mono x (Nat.le_add_right k 1)
    unfold LineShown
    rw [gt_iff_lt, UInt32.lt_iff_toNat_lt, h200, UInt32.toNat_add, h8]
    omega
  by_cases hroom : RoomBehind x k
  · obtain ⟨hcolumn, hline⟩ := (text_succ x k).1 hroom
    rw [if_neg (by rwa [hwrap, not_not])] at hcx' hcy'
    have hcy'' : (cy'.toNat : ℤ) = (y + 8 * textLine x (k + 1)) % 2 ^ 32 := by rw [hcy', hcy, hline]
    refine ⟨?_, hcy'', hstop hcy'' (by omega)⟩
    rw [hcx', hcolumn, UInt32.toNat_add, h8]
    omega
  · obtain ⟨hcolumn, hline⟩ := (text_succ x k).2 hroom
    rw [if_pos (hwrap.mpr hroom)] at hcx' hcy'
    have hcy'' : (cy'.toNat : ℤ) = (y + 8 * textLine x (k + 1)) % 2 ^ 32 := by
      rw [hcy', hline, UInt32.toNat_add, h8]
      omega
    refine ⟨?_, hcy'', hstop hcy'' (by omega)⟩
    rw [hcx', hcolumn]
    rfl

/-- What the rest of a text covers, from character `k` on. -/
def TextPart (str : ℕ → UInt8) (x y : ℤ) (k n : ℕ) (px py : ℤ) : Prop :=
  ∃ m, k ≤ m ∧ m < k + n ∧ (∀ i, k ≤ i → i ≤ m → str i ≠ 0) ∧
    (m = k ∨ -8 ≤ y + 8 * textLine x (k + 1) ∧ y + 8 * textLine x m ≤ 192) ∧
      GlyphPart (str m) (textColumn x m) (y + 8 * textLine x m) px py

variable {str : ℕ → UInt8} {n : ℕ} {px py : ℤ}

lemma textPart_first (hz : str k ≠ 0) (h : GlyphPart (str k) (textColumn x k) (y + 8 * textLine x k) px py) :
    TextPart str x y k (n + 1) px py := by
  refine ⟨k, Nat.le_refl k, by omega, fun i hki hik => ?_, Or.inl rfl, h⟩
  rwa [Nat.le_antisymm hik hki]

lemma textPart_stop (hz : str k ≠ 0) (hend : ¬LineShown x y (k + 1)) : TextPart str x y k (n + 1) px py ↔
    GlyphPart (str k) (textColumn x k) (y + 8 * textLine x k) px py := by
  refine ⟨?_, textPart_first hz⟩
  rintro ⟨m, hkm, hm, hstr, rfl | ⟨hlow, hhigh⟩, hglyph⟩
  · exact hglyph
  · rcases Nat.eq_or_lt_of_le hkm with rfl | hlt
    · exact hglyph
    · have hle : textLine x (k + 1) ≤ textLine x m := textLine_mono x hlt
      exact absurd ⟨hlow, by omega⟩ hend

lemma textPart_next (hz : str k ≠ 0) (hgo : LineShown x y (k + 1)) : TextPart str x y k (n + 1) px py ↔
    GlyphPart (str k) (textColumn x k) (y + 8 * textLine x k) px py ∨ TextPart str x y (k + 1) n px py := by
  constructor
  · rintro ⟨m, hkm, hm, hstr, hshown, hglyph⟩
    rcases Nat.eq_or_lt_of_le hkm with rfl | hlt
    · exact Or.inl hglyph
    · refine Or.inr ⟨m, hlt, by omega, fun i hki him => hstr i (by omega) him, ?_, hglyph⟩
      have hle := textLine_mono x (Nat.le_add_right (k + 1) 1)
      rcases hshown with rfl | ⟨hlow, hhigh⟩
      · exact absurd hlt (Nat.lt_irrefl m)
      · exact Or.inr ⟨by omega, hhigh⟩
  · rintro (hglyph | ⟨m, hkm, hm, hstr, hshown, hglyph⟩)
    · exact textPart_first hz hglyph
    · refine ⟨m, by omega, by omega, fun i hki him => ?_, Or.inr ⟨hgo.1, ?_⟩, hglyph⟩
      · rcases Nat.eq_or_lt_of_le hki with rfl | hlt
        · exact hz
        · exact hstr i hlt him
      · rcases hshown with rfl | hshown
        · exact hgo.2
        · exact hshown.2

/-- By induction on the characters left: the position of character `k` is that of the layout. -/
lemma covers_string (str : ℕ → UInt8) (color : UInt8) (hx : -2 ^ 31 ≤ x ∧ x < 2 ^ 31) (n : ℕ) {k : ℕ} {cx cy : UInt32}
    (hcx : (cx.toNat : ℤ) = textColumn x k % 2 ^ 32) (hcy : (cy.toNat : ℤ) = (y + 8 * textLine x k) % 2 ^ 32)
    (hy : -2 ^ 31 ≤ y + 8 * textLine x k ∧ y + 8 * textLine x k < 2 ^ 31) :
    Covers (fun buf => vgaDrawStringLoop str color n k cx cy buf) (TextPart str x y k n) := by
  induction n generalizing k cx cy with
  | zero =>
    refine ⟨Paints.id, fun p => iff_of_false not_touches_id ?_⟩
    rintro ⟨px, py, -, m, hkm, hm, -⟩
    omega
  | succ n ih =>
    obtain ⟨cx', hcx'⟩ : ∃ v, v = if cx + 8 + 8 > vgaWidth then 0 else cx + 8 := ⟨_, rfl⟩
    obtain ⟨cy', hcy'⟩ : ∃ v, v = if cx + 8 + 8 > vgaWidth then cy + 8 else cy := ⟨_, rfl⟩
    obtain ⟨hnextx, hnexty, hstop⟩ := text_next hx hcx hcy hy hcx' hcy'
    have hchar := covers_char hcx hcy (textColumn_bounds hx k) hy (str k) color
    simp only [vgaDrawStringLoop, ← hcx', ← hcy']
    by_cases hz : str k = 0
    · simp only [if_pos hz]
      refine ⟨Paints.id, fun p => iff_of_false not_touches_id ?_⟩
      rintro ⟨px, py, -, m, hkm, hm, hstr, -⟩
      exact hstr k (Nat.le_refl k) hkm hz
    simp only [if_neg hz]
    by_cases hend : cy' + 8 > vgaHeight
    · simp only [if_pos hend]
      exact hchar.congr fun px py _ _ _ _ => (textPart_stop hz (hstop.mp hend)).symm
    · have hgo : LineShown x y (k + 1) := by rwa [hstop, not_not] at hend
      simp only [if_neg hend]
      have hrest := ih hnextx hnexty (by unfold LineShown at hgo; omega)
      exact (hchar.comp hrest).congr fun px py _ _ _ _ => (textPart_next hz hgo).symm

end Text

section Window

lemma toInt_add_of {a b : Int32} {m n : ℤ} (ha : a.toInt = m) (hb : b.toInt = n) (h : -2 ^ 31 ≤ m + n)
    (h' : m + n < 2 ^ 31) : (a + b).toInt = m + n := by
  have hsize : Int32.size = 2 ^ 32 := rfl
  rw [Int32.toInt_add, ha, hb, Int.bmod_eq_of_le (by omega) (by omega)]

lemma toInt_sub_of {a b : Int32} {m n : ℤ} (ha : a.toInt = m) (hb : b.toInt = n) (h : -2 ^ 31 ≤ m - n)
    (h' : m - n < 2 ^ 31) : (a - b).toInt = m - n := by
  have hsize : Int32.size = 2 ^ 32 := rfl
  rw [Int32.toInt_sub, ha, hb, Int.bmod_eq_of_le (by omega) (by omega)]

/-- The sums that the parts are computed with. -/
structure Sums (rect : Rect) : Prop where
  right : (rect.x + rect.w).toInt = rect.x.toInt + rect.w.toInt
  bottom : (rect.y + rect.h).toInt = rect.y.toInt + rect.h.toInt
  lastColumn : (rect.x + rect.w - 1).toInt = rect.x.toInt + rect.w.toInt - 1
  lastRow : (rect.y + rect.h - 1).toInt = rect.y.toInt + rect.h.toInt - 1
  shadowRight : (rect.x + rect.w + 2).toInt = rect.x.toInt + rect.w.toInt + 2
  shadowTop : (rect.y + 2).toInt = rect.y.toInt + 2
  shadowBottom : (rect.y + 2 + rect.h).toInt = rect.y.toInt + 2 + rect.h.toInt
  barLeft : (rect.x + 1).toInt = rect.x.toInt + 1
  barTop : (rect.y + 1).toInt = rect.y.toInt + 1
  barRight : (rect.x + 1 + (rect.w - 2)).toInt = rect.x.toInt + rect.w.toInt - 1
  barBottom : (rect.y + 1 + 10).toInt = rect.y.toInt + 11
  textLeft : (rect.x + 4).toInt = rect.x.toInt + 4

lemma sums (hw : 0 ≤ rect.w.toInt) (ho : NoOverflow rect) : Sums rect := by
  have hx := rect.x.le_toInt
  have hy := rect.y.le_toInt
  have hw' := rect.w.toInt_lt
  obtain ⟨hr, ht, hb, hbar, hc, hrow⟩ := ho
  have h1 : (1 : Int32).toInt = 1 := rfl
  have h2 : (2 : Int32).toInt = 2 := rfl
  have h4 : (4 : Int32).toInt = 4 := rfl
  have h10 : (10 : Int32).toInt = 10 := rfl
  have hright : (rect.x + rect.w).toInt = _ := toInt_add_of rfl rfl (by omega) (by omega)
  have hbottom : (rect.y + rect.h).toInt = _ := toInt_add_of rfl rfl (by omega) (by omega)
  have hleft : (rect.x + 1).toInt = _ := toInt_add_of rfl h1 (by omega) (by omega)
  have htop : (rect.y + 1).toInt = _ := toInt_add_of rfl h1 (by omega) (by omega)
  have hshadow : (rect.y + 2).toInt = _ := toInt_add_of rfl h2 (by omega) (by omega)
  have hwidth : (rect.w - 2).toInt = _ := toInt_sub_of rfl h2 (by omega) (by omega)
  have hbarRight := toInt_add_of hleft hwidth (by omega) (by omega)
  have hbarBottom := toInt_add_of htop h10 (by omega) (by omega)
  exact {
    right := hright
    bottom := hbottom
    lastColumn := toInt_sub_of hright h1 (by omega) (by omega)
    lastRow := toInt_sub_of hbottom h1 (by omega) (by omega)
    shadowRight := toInt_add_of hright h2 (by omega) (by omega)
    shadowTop := hshadow
    shadowBottom := toInt_add_of hshadow rfl (by omega) (by omega)
    barLeft := hleft
    barTop := htop
    barRight := by rw [hbarRight]; omega
    barBottom := by rw [hbarBottom]; omega
    textLeft := toInt_add_of rfl h4 (by omega) (by omega) }

def TitlePart (rect : Rect) (title : CString) (px py : ℤ) : Prop :=
  ∃ k < title.1.length, TextShown (rect.x.toInt + 4) (rect.y.toInt + 2) k ∧
    GlyphPart (title.1.getD k 0) (textColumn (rect.x.toInt + 4) k)
      (rect.y.toInt + 2 + 8 * textLine (rect.x.toInt + 4) k) px py

lemma covers_title (hs : Sums rect) (title : CString) (color : UInt8) : Covers (fun buf =>
    vgaDrawText buf (rect.x + 4).toUInt32 (rect.y + 2).toUInt32 title color) (TitlePart rect title) := by
  have hfirst : ∀ x : ℤ, textColumn x 0 = x ∧ textLine x 0 = 0 := by
    intro x
    have hspec := firstLine_spec x
    unfold textColumn textLine
    rw [if_pos (by omega), if_pos (by omega)]
    exact ⟨by omega, rfl⟩
  have hx := (rect.x + 4).toInt_lt
  have hx' := (rect.x + 4).le_toInt
  have hy := (rect.y + 2).toInt_lt
  have hy' := (rect.y + 2).le_toInt
  rw [hs.textLeft] at hx hx'
  rw [hs.shadowTop] at hy hy'
  obtain ⟨hcolumn, hline⟩ := hfirst (rect.x.toInt + 4)
  have htext := covers_string (x := rect.x.toInt + 4) (y := rect.y.toInt + 2) (fun k => title.1.getD k 0) color
    ⟨hx', hx⟩ (title.1.length + 1) (k := 0)
    (by rw [toUInt32_toNat, hcolumn, hs.textLeft]) (by rw [toUInt32_toNat, hline, hs.shadowTop]; simp) (by omega)
  refine Covers.congr htext fun px py _ _ _ _ => ?_
  constructor
  · rintro ⟨m, -, hm, hstr, hshown, hglyph⟩
    refine ⟨m, ?_, ?_, hglyph⟩
    · by_contra hge
      exact hstr m (Nat.zero_le m) (Nat.le_refl m) (List.getD_eq_default _ _ (Nat.le_of_not_lt hge))
    · exact hshown
  · rintro ⟨m, hm, hshown, hglyph⟩
    refine ⟨m, Nat.zero_le m, by omega, fun i _ him hzero => ?_, hshown, hglyph⟩
    exact getD_ne_zero title.2 (by omega) hzero

def BarPart (rect : Rect) (px py : ℤ) : Prop :=
  rect.x.toInt + 1 ≤ px ∧ px < rect.x.toInt + rect.w.toInt - 1 ∧ rect.y.toInt + 1 ≤ py ∧ py < rect.y.toInt + 11

lemma covers_window (hs : Sums rect) (title : CString) : Covers (fun buf => osGuiDrawTitledWindow buf rect title)
    fun px py => InArea rect px py ∨ OutlinePart rect px py ∨ BarPart rect px py ∨ TitlePart rect title px py := by
  have hface := covers_fill_of rect blue rfl hs.right rfl hs.bottom
  have hshadow := covers_fill_of ⟨rect.x + rect.w, rect.y + 2, 2, rect.h⟩ darkGrey hs.right hs.shadowRight
    hs.shadowTop hs.shadowBottom
  have hbar := covers_fill_of ⟨rect.x + 1, rect.y + 1, rect.w - 2, 10⟩ brightBlue hs.barLeft hs.barRight
    hs.barTop hs.barBottom
  have hall := (((hface.comp (covers_outline rect white)).comp hshadow).comp hbar).comp (covers_title hs title white)
  refine Covers.congr hall fun px py _ _ _ _ => ?_
  constructor
  · rintro ((((hpart | hpart) | hpart) | hpart) | hpart)
    · exact Or.inl (Or.inl hpart)
    · exact Or.inr (Or.inl hpart)
    · exact Or.inl (Or.inr hpart)
    · exact Or.inr (Or.inr (Or.inl hpart))
    · exact Or.inr (Or.inr (Or.inr hpart))
  · rintro ((hpart | hpart) | hpart | hpart | hpart)
    · exact Or.inl (Or.inl (Or.inl (Or.inl hpart)))
    · exact Or.inl (Or.inl (Or.inr hpart))
    · exact Or.inl (Or.inl (Or.inl (Or.inr hpart)))
    · exact Or.inl (Or.inr hpart)
    · exact Or.inr hpart

end Window

section Conditions

/-- Every pixel of the part that is on the screen is in the area. -/
def Inside (rect : Rect) (part : ℤ → ℤ → Prop) : Prop :=
  ∀ px py, 0 ≤ px → px < 320 → 0 ≤ py → py < 200 → part px py → InArea rect px py

lemma staysInArea_iff (hs : Sums rect) (title : CString) : StaysInArea rect title ↔
    Inside rect fun px py => InArea rect px py ∨ OutlinePart rect px py ∨ BarPart rect px py ∨
      TitlePart rect title px py := by
  have hcovers := covers_window hs title
  constructor
  · intro h px py hx0 hx hy0 hy hpart
    have hp : Pixel (py.toNat * 320 + px.toNat) px py := ⟨hx0, hx, hy0, hy, by omega⟩
    obtain ⟨buf, htouch⟩ := (hcovers.touches _).mpr ⟨px, py, hp, hpart⟩
    obtain ⟨qx, qy, hqx, hqy, hq, harea⟩ := h buf _ htouch
    have hpx : (qx : ℤ) = px := by omega
    have hpy : (qy : ℤ) = py := by omega
    rwa [hpx, hpy] at harea
  · intro h buf p hne
    obtain ⟨px, py, ⟨hx0, hx, hy0, hy, hp⟩, hpart⟩ := (hcovers.touches p).mp ⟨buf, hne⟩
    refine ⟨px.toNat, py.toNat, by omega, by omega, by omega, ?_⟩
    rw [Int.toNat_of_nonneg hx0, Int.toNat_of_nonneg hy0]
    exact h px py hx0 hx hy0 hy hpart

/-- The outline of a rectangle with a width and a height is part of its face. -/
lemma outline_iff (hs : Sums rect) (hw : 0 ≤ rect.w.toInt) (hh : 0 ≤ rect.h.toInt) :
    Inside rect (OutlinePart rect) ↔ FlatOk rect ∧ NarrowOk rect := by
  have hw0 : rect.w = 0 ↔ rect.w.toInt = 0 := by rw [← Int32.toInt_inj]; rfl
  have hh0 : rect.h = 0 ↔ rect.h.toInt = 0 := by rw [← Int32.toInt_inj]; rfl
  unfold Inside OutlinePart FlatOk NarrowOk Misses InArea
  rw [hs.right, hs.bottom, hs.lastColumn, hs.lastRow, hw0, hh0]
  generalize rect.x.toInt = x, rect.y.toInt = y, rect.w.toInt = w, rect.h.toInt = h at *
  constructor
  · intro hin
    refine ⟨fun hflat => ?_, fun hnarrow => ⟨?_, ?_⟩⟩
    · have hrow := hin (max x 0) (min y 199)
      omega
    · have hbefore := hin (x - 1) (max y 0)
      omega
    · have hupper := hin x (max y 0)
      omega
  · rintro ⟨hflat, hnarrow⟩ px py hx0 hx hy0 hy hpart
    omega

lemma bar_iff : Inside rect (BarPart rect) ↔ BarOk rect := by
  unfold Inside BarPart BarOk Misses InArea
  generalize rect.x.toInt = x, rect.y.toInt = y, rect.w.toInt = w, rect.h.toInt = h
  constructor
  · intro hin
    have hcorner := hin (max (x + 1) 0) (max (max (y + 1) (y + h)) 0)
    omega
  · intro hmisses px py hx0 hx hy0 hy hpart
    omega

lemma title_iff (title : CString) : Inside rect (TitlePart rect title) ↔ TextOk rect title := by
  constructor
  · intro hin k hk hshown i hi j hj hbit hx0 hx hy0 hy
    exact hin _ _ hx0 hx hy0 hy ⟨k, hk, hshown, i, hi, j, hj, hbit, rfl, rfl⟩
  · rintro h px py hx0 hx hy0 hy ⟨k, hk, hshown, i, hi, j, hj, hbit, rfl, rfl⟩
    exact h k hk hshown i hi j hj hbit hx0 hx hy0 hy

/-- Drawing a window changes only pixels of its area, just if the parts that may be outside are not. -/
theorem window_area_iff (hw : 0 ≤ rect.w.toInt) (hh : 0 ≤ rect.h.toInt) (ho : NoOverflow rect) (title : CString) :
    StaysInArea rect title ↔ DrawsInside rect title := by
  have hs := sums hw ho
  rw [staysInArea_iff hs, DrawsInside, ← and_assoc, ← outline_iff hs hw hh, ← bar_iff, ← title_iff]
  constructor
  · intro h
    exact ⟨fun px py hx0 hx hy0 hy hpart => h px py hx0 hx hy0 hy (Or.inr (Or.inl hpart)),
      fun px py hx0 hx hy0 hy hpart => h px py hx0 hx hy0 hy (Or.inr (Or.inr (Or.inl hpart))),
      fun px py hx0 hx hy0 hy hpart => h px py hx0 hx hy0 hy (Or.inr (Or.inr (Or.inr hpart)))⟩
  · rintro ⟨houtline, hbar, htitle⟩ px py hx0 hx hy0 hy (hpart | hpart | hpart | hpart)
    · exact hpart
    · exact houtline px py hx0 hx hy0 hy hpart
    · exact hbar px py hx0 hx hy0 hy hpart
    · exact htitle px py hx0 hx hy0 hy hpart

theorem window_area_plain : StaysInArea ⟨10, 10, 100, 50⟩ ⟨[79, 75], by decide⟩ :=
  (window_area_iff (by decide) (by decide) (by constructor <;> decide) _).mpr (by decide)

/-- The title bar of a window of 20 by 5 pixels ends below the window. -/
theorem window_area_low : ¬StaysInArea ⟨0, 0, 20, 5⟩ ⟨[], by decide⟩ := by
  have hs : Sums ⟨0, 0, 20, 5⟩ := sums (by decide) (by constructor <;> decide)
  rw [staysInArea_iff hs]
  intro h
  have hbar : BarPart ⟨0, 0, 20, 5⟩ 1 8 := by
    unfold BarPart
    decide
  have harea := h 1 8 (by decide) (by decide) (by decide) (by decide) (Or.inr (Or.inr (Or.inl hbar)))
  exact absurd harea (by decide)

end Conditions

end SBoy28.Windows
