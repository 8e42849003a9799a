import SBoy28.Windows.Gdi

/-!
# Drawings as layers

Each call that draws in one colour puts one layer on the backbuffer; a window is a pile of five.
-/

namespace SBoy28.Windows
open Lib

section Layers

/-- One colour on the part of the plane that is on the screen. -/
def screenLayer (part : ℤ → ℤ → Prop) [∀ px py, Decidable (part px py)] (color : UInt8) (p : ℕ) : Option UInt8 :=
  if p < vgaSize ∧ part (p % 320 : ℕ) (p / 320 : ℕ) then some color else none

def TextDots (str : List UInt8) (x y px py : ℤ) : Prop :=
  ∃ k < str.length, TextShown x y k ∧
    GlyphPart (str.getD k 0) (textColumn x k) (y + 8 * textLine x k) px py

/-- The two legs and the diagonal of the cursor. -/
def CursorDots (x y px py : ℤ) : Prop :=
  (px = x ∧ y ≤ py ∧ py < y + 8) ∨ (py = y ∧ x ≤ px ∧ px < x + 6) ∨
    (px - x = py - y ∧ 1 ≤ px - x ∧ px - x ≤ 3)

instance (ch : UInt8) (x y px py : ℤ) : Decidable (GlyphPart ch x y px py) :=
  inferInstanceAs (Decidable (∃ i < 8, ∃ j < 8, _ ∧ _))
instance (str : List UInt8) (x y px py : ℤ) : Decidable (TextDots str x y px py) :=
  inferInstanceAs (Decidable (∃ k < str.length, _ ∧ _))
instance (rect : Rect) (px py : ℤ) : Decidable (OutlinePart rect px py) := inferInstanceAs (Decidable (_ ∨ _))
instance (x y px py : ℤ) : Decidable (CursorDots x y px py) := inferInstanceAs (Decidable (_ ∨ _))

def rectLayer (rect : Rect) : UInt8 → ℕ → Option UInt8 := screenLayer (InRect rect)

def outlineLayer (rect : Rect) : UInt8 → ℕ → Option UInt8 := screenLayer (OutlinePart rect)

def textLayer (x y : ℤ) (str : List UInt8) : UInt8 → ℕ → Option UInt8 := screenLayer (TextDots str x y)

def cursorLayer (x y : ℤ) (pressed : Bool) : ℕ → Option UInt8 :=
  screenLayer (CursorDots x y) (if pressed then brightRed else white)

/-- A window: the title is on the title bar, both are on the shadow, the outline and the face. -/
def titledLayers (rect : Rect) (title : CString) : List (ℕ → Option UInt8) :=
  [textLayer (rect.x + 4).toInt (rect.y + 2).toInt title.1 white,
    rectLayer ⟨rect.x + 1, rect.y + 1, rect.w - 2, 10⟩ brightBlue,
    rectLayer ⟨rect.x + rect.w, rect.y + 2, 2, rect.h⟩ darkGrey, outlineLayer rect white, rectLayer rect blue]

end Layers

section Piles

variable {f : Backbuffer → Backbuffer} {part : ℤ → ℤ → Prop} {color : UInt8} {p : ℕ}

lemma touches_iff (hf : Covers f part) : Touches f p ↔ p < vgaSize ∧ part (p % 320 : ℕ) (p / 320 : ℕ) := by
  rw [hf.touches]
  unfold vgaSize
  constructor
  · rintro ⟨px, py, ⟨hx0, hx, hy0, hy, hindex⟩, hpart⟩
    have hpx : ((p % 320 : ℕ) : ℤ) = px := by omega
    have hpy : ((p / 320 : ℕ) : ℤ) = py := by omega
    rw [hpx, hpy]
    exact ⟨by omega, hpart⟩
  · rintro ⟨hp, hpart⟩
    exact ⟨_, _, ⟨by omega, by omega, by omega, by omega, by omega⟩, hpart⟩

lemma Covers.piles [∀ px py, Decidable (part px py)] (hf : Covers f part) (hc : Fills color f) :
    Piles f [screenLayer part color] := hc.piles fun _ => touches_iff hf

lemma piles_fill {rect : Rect} (h : EdgesFit rect) (color : UInt8) :
    Piles (fun buf => osGuiFillRect buf rect color) [rectLayer rect color] := by
  have hright := toInt_add_of (a := rect.x) (b := rect.w) rfl rfl h.right.1 h.right.2
  have hbottom := toInt_add_of (a := rect.y) (b := rect.h) rfl rfl h.bottom.1 h.bottom.2
  have hcovers : Covers (fun buf => osGuiFillRect buf rect color) (InRect rect) :=
    covers_fill_of rect color rfl hright rfl hbottom
  exact hcovers.piles (fills_fillRect rect color)

lemma fills_outline (rect : Rect) (color : UInt8) : Fills color fun buf => osGuiDrawRectOutline buf rect color := by
  have hlines : ∀ first last : Int32, ∀ px py qx qy : Int32 → UInt32, Fills color fun buf =>
      forInt32 first last (fun buf k => vgaPutPixel (vgaPutPixel buf (px k) (py k) color) (qx k) (qy k) color) buf :=
    fun first last px py qx qy => Fills.foldl (fun k =>
      (fills_putPixel (px _) (py _) color).comp (fills_putPixel (qx _) (qy _) color)) _
  exact (hlines rect.x (rect.x + rect.w) Int32.toUInt32 (fun _ => rect.y.toUInt32) Int32.toUInt32
    fun _ => (rect.y + rect.h - 1).toUInt32).comp (hlines rect.y (rect.y + rect.h) (fun _ => rect.x.toUInt32)
    Int32.toUInt32 (fun _ => (rect.x + rect.w - 1).toUInt32) Int32.toUInt32)

lemma piles_outline (rect : Rect) (color : UInt8) :
    Piles (fun buf => osGuiDrawRectOutline buf rect color) [outlineLayer rect color] :=
  (covers_outline rect color).piles (fills_outline rect color)

lemma text_start (x : ℤ) : textColumn x 0 = x ∧ textLine x 0 = 0 := by
  have hspec := firstLine_spec x
  unfold textColumn textLine
  rw [if_pos (by omega), if_pos (by omega)]
  exact ⟨by omega, rfl⟩

lemma covers_text (x y : Int32) (str : CString) (color : UInt8) :
    Covers (fun buf => vgaDrawText buf x.toUInt32 y.toUInt32 str color) (TextDots str.1 x.toInt y.toInt) := by
  have hx := x.toInt_lt
  have hx' := x.le_toInt
  have hy := y.toInt_lt
  have hy' := y.le_toInt
  obtain ⟨hcolumn, hline⟩ := text_start x.toInt
  have hcx : (x.toUInt32.toNat : ℤ) = textColumn x.toInt 0 % 2 ^ 32 := by rw [toUInt32_toNat, hcolumn]
  have hcy : (y.toUInt32.toNat : ℤ) = (y.toInt + 8 * textLine x.toInt 0) % 2 ^ 32 := by
    rw [toUInt32_toNat, hline]
    simp
  have htext := covers_string (fun k => str.1.getD k 0) color ⟨hx', hx⟩ (str.1.length + 1) hcx hcy (by omega)
  refine Covers.congr htext fun px py _ _ _ _ => ?_
  constructor
  · rintro ⟨m, -, hm, hstr, hshown, hglyph⟩
    refine ⟨m, ?_, hshown, hglyph⟩
    by_contra hge
    exact hstr m (Nat.zero_le m) (Nat.le_refl m) (List.getD_eq_default _ _ (Nat.le_of_not_lt hge))
  · rintro ⟨m, hm, hshown, hglyph⟩
    refine ⟨m, Nat.zero_le m, by omega, fun i _ him hzero => ?_, hshown, hglyph⟩
    exact getD_ne_zero str.2 (by omega) hzero

lemma piles_text (x y : Int32) (str : CString) (color : UInt8) :
    Piles (fun buf => vgaDrawText buf x.toUInt32 y.toUInt32 str color) [textLayer x.toInt y.toInt str.1 color] :=
  (covers_text x y str color).piles (fills_stringLoop _ color _ _ _ _)

/-- The rectangles that the parts of a window are filled in have edges of 32 bits. -/
structure WindowFits (rect : Rect) : Prop where
  face : EdgesFit rect
  shadow : EdgesFit ⟨rect.x + rect.w, rect.y + 2, 2, rect.h⟩
  bar : EdgesFit ⟨rect.x + 1, rect.y + 1, rect.w - 2, 10⟩

lemma piles_window {rect : Rect} (h : WindowFits rect) (title : CString) :
    Piles (fun buf => osGuiDrawTitledWindow buf rect title) (titledLayers rect title) :=
  ((((piles_fill h.face blue).comp (piles_outline rect white)).comp (piles_fill h.shadow darkGrey)).comp
    (piles_fill h.bar brightBlue)).comp (piles_text _ _ title white)

lemma covers_cursor {x y : Int32} (hx : 0 ≤ x.toInt ∧ x.toInt < 320) (hy : 0 ≤ y.toInt ∧ y.toInt < 200)
    (pressed : Bool) : Covers (fun buf => osGuiDrawCursor buf x y pressed) (CursorDots x.toInt y.toInt) := by
  have hsum : ∀ {z k : Int32}, 0 ≤ z.toInt ∧ z.toInt < 320 → 0 ≤ k.toInt → k.toInt < 8 →
      (z + k).toInt = z.toInt + k.toInt := fun hz hk hk' => toInt_add_of rfl rfl (by omega) (by omega)
  have hy' : 0 ≤ y.toInt ∧ y.toInt < 320 := by omega
  have hlong := covers_forInt32 0 8 fun dy =>
    covers_putPixel x (y + dy) (if pressed then brightRed else white)
  have hshort := covers_forInt32 0 6 fun dx =>
    covers_putPixel (x + dx) y (if pressed then brightRed else white)
  have hdot := fun k => covers_putPixel (x + k) (y + k) (if pressed then brightRed else white)
  refine Covers.congr ((((hlong.comp hshort).comp (hdot 1)).comp (hdot 2)).comp (hdot 3)) fun px py _ _ _ _ => ?_
  have hzero : (0 : Int32).toInt = 0 := rfl
  have hsix : (6 : Int32).toInt = 6 := rfl
  have height : (8 : Int32).toInt = 8 := rfl
  rw [hzero, hsix, height, hsum hx (by decide) (by decide), hsum hx (by decide) (by decide),
    hsum hx (by decide) (by decide), hsum hy' (by decide) (by decide), hsum hy' (by decide) (by decide),
    hsum hy' (by decide) (by decide)]
  have h1 : (1 : Int32).toInt = 1 := rfl
  have h2 : (2 : Int32).toInt = 2 := rfl
  have h3 : (3 : Int32).toInt = 3 := rfl
  rw [h1, h2, h3]
  unfold CursorDots
  constructor
  · rintro ((((⟨k, hk, hk', hpx, hpy⟩ | ⟨k, hk, hk', hpx, hpy⟩) | hpart) | hpart) | hpart)
    · rw [hsum hy' hk hk'] at hpy
      omega
    · rw [hsum hx hk (by omega)] at hpx
      omega
    · omega
    · omega
    · omega
  · rintro (⟨hpx, hpy, hpy'⟩ | ⟨hpy, hpx, hpx'⟩ | hdiagonal)
    · obtain ⟨k, hk⟩ := exists_int32 (t := py - y.toInt) (by omega) (by omega)
      have hpy : py = (y + k).toInt := by
        rw [hsum hy' (by omega) (by omega)]
        omega
      exact Or.inl (Or.inl (Or.inl (Or.inl ⟨k, by omega, by omega, hpx, hpy⟩)))
    · obtain ⟨k, hk⟩ := exists_int32 (t := px - x.toInt) (by omega) (by omega)
      have hpx : px = (x + k).toInt := by
        rw [hsum hx (by omega) (by omega)]
        omega
      exact Or.inl (Or.inl (Or.inl (Or.inr ⟨k, by omega, by omega, hpx, hpy⟩)))
    · omega

lemma fills_cursor (x y : Int32) (pressed : Bool) :
    Fills (if pressed then brightRed else white) fun buf => osGuiDrawCursor buf x y pressed := by
  have hlegs : ∀ color : UInt8, ∀ first last : Int32, ∀ px py : Int32 → UInt32, Fills color fun buf =>
      forInt32 first last (fun buf k => vgaPutPixel buf (px k) (py k) color) buf :=
    fun color first last px py => Fills.foldl (fun k => fills_putPixel _ _ color) _
  exact ((((hlegs _ _ _ _ _).comp (hlegs _ _ _ _ _)).comp (fills_putPixel _ _ _)).comp (fills_putPixel _ _ _)).comp
    (fills_putPixel _ _ _)

/-- What is drawn with `TextOutA`: at most 255 characters, and no more than there are before a zero. -/
lemma piles_textOut (x y : Int32) (str : ℕ → UInt8) {c : Int32} (hc : 0 < c.toInt) (hc' : c.toInt < 255) :
    Piles (fun buf => (textOutA buf x y (some str) c).2)
      [textLayer x.toInt y.toInt (string str c.toInt.toNat) white] := by
  have h0 : ¬c ≤ 0 := by
    rw [Int32.le_iff_toInt_le]
    exact Int.not_le.mpr hc
  have h255 : c < 255 := by
    rw [Int32.lt_iff_toInt_lt]
    exact hc'
  unfold textOutA
  simp only [if_neg h0, if_pos h255]
  exact piles_text x y _ white

end Piles

end SBoy28.Windows
