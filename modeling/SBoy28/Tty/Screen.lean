import SBoy28.Tty.Model

/-!
# What the terminal shows

A terminal of 25 lines of 40 cells. Every character that was written since the last clear is a mark in its cell,
and a mark lets what is below it be seen between its dots.
-/

namespace SBoy28.Tty
open Lib Windows

section Specification

/-- A character in a cell of the screen. -/
structure Mark where
  row : ℕ
  column : ℕ
  ch : UInt8
  color : UInt8

/-- The layer of a mark over the pixels. -/
def Mark.layer (mark : Mark) (pixel : ℕ × ℕ) : Option UInt8 :=
  if pixel.1 / 8 = mark.column ∧ pixel.2 / 8 = mark.row ∧ lit mark.ch (pixel.2 % 8) (pixel.1 % 8) then
    some mark.color
  else none

/-- The cursor is the number of a cell in reading order; the newest mark comes first. -/
structure Terminal where
  cursor : ℕ
  foreColor : UInt8
  backColor : UInt8
  ground : ℕ × ℕ → UInt8
  marks : List Mark

def Terminal.pixel (t : Terminal) : ℕ × ℕ → UInt8 := overlay t.ground (t.marks.map Mark.layer)

def Terminal.clear (t : Terminal) : Terminal :=
  { t with cursor := 0, ground := fun _ => t.backColor, marks := [] }

def next (cursor : ℕ) (c : UInt8) : ℕ := if c = newline then 40 * (cursor / 40 + 1) else cursor + 1

def Terminal.putchar (t : Terminal) (c : UInt8) : Terminal :=
  let marks := if c = newline then t.marks else ⟨t.cursor / 40, t.cursor % 40, c, t.foreColor⟩ :: t.marks
  let t := { t with cursor := next t.cursor c, marks := marks }
  if 1000 ≤ t.cursor then t.clear else t

/-- The marks of a text: a position in cells is a number of 29 bits, and the text goes on in the next line when
there is no room for another character. -/
def printMarks (color : UInt8) : List UInt8 → ℕ → ℕ → List Mark → List Mark
  | [], _, _, marks => marks
  | ch :: str, column, row, marks =>
    let marks := ⟨row, column, ch, color⟩ :: marks
    let wrap := 40 < (column + 2) % 2 ^ 29
    let row := if wrap then (row + 1) % 2 ^ 29 else row
    let column := if wrap then 0 else (column + 1) % 2 ^ 29
    if 25 < (row + 1) % 2 ^ 29 then marks else printMarks color str column row marks

def Terminal.step (t : Terminal) : Call → Terminal
  | .init => { t with foreColor := white, backColor := blue }.clear
  | .setColor foreColor backColor => { t with foreColor := foreColor, backColor := backColor }
  | .putchar c => t.putchar c
  | .putstring str => str.1.foldl Terminal.putchar t
  | .printAt x y str =>
    { t with marks := printMarks t.foreColor str.1 (x.toNat % 2 ^ 29) (y.toNat % 2 ^ 29) t.marks }
  | .clear => t.clear

def Terminal.run (t : Terminal) (calls : List Call) : Terminal := calls.foldl Terminal.step t

def Terminal.boot (backbuffer : Backbuffer) : Terminal :=
  ⟨0, white, blue, fun pixel => backbuffer (pixel.2 * 320 + pixel.1), []⟩

/-- The statics and the backbuffer are what the terminal says, and what is behind the backbuffer is as it was. -/
structure Shows (before : Backbuffer) (tty : TtyState) (t : Terminal) : Prop where
  cursor : tty.row.toNat * 40 + tty.column.toNat = t.cursor
  column : tty.column.toNat < 40
  row : tty.row.toNat < 25
  foreColor : tty.foreColor = t.foreColor
  backColor : tty.backColor = t.backColor
  pixels : ∀ px < 320, ∀ py < 200, tty.backbuffer (py * 320 + px) = t.pixel (px, py)
  outside : ∀ p, vgaSize ≤ p → tty.backbuffer p = before p

end Specification

section Marks

variable {backbuffer : Backbuffer} {ground : ℕ × ℕ → UInt8} {marks : List Mark} {row column : ℕ}
  {x y : UInt32}

/-- The backbuffer shows a ground with marks on it. -/
def Pixels (backbuffer : Backbuffer) (ground : ℕ × ℕ → UInt8) (marks : List Mark) : Prop :=
  ∀ px < 320, ∀ py < 200, backbuffer (py * 320 + px) = overlay ground (marks.map Mark.layer) (px, py)

/-- The number of pixels as the signed number that it stands for. -/
def signed (n : ℕ) : ℤ := if n < 2 ^ 31 then n else n - 2 ^ 32

lemma signed_spec (x : UInt32) :
    (x.toNat : ℤ) = signed x.toNat % 2 ^ 32 ∧ -2 ^ 31 ≤ signed x.toNat ∧ signed x.toNat < 2 ^ 31 := by
  have hx := x.toNat_lt
  unfold signed
  by_cases h : x.toNat < 2 ^ 31
  · rw [if_pos h]
    omega
  · rw [if_neg h]
    omega

lemma glyph_iff (ch : UInt8) (x y : ℕ) (hx : x < 2 ^ 32) (hy : y < 2 ^ 32) (hx8 : x = column * 8)
    (hy8 : y = row * 8) {px py : ℕ} (hpx : px < 320) (hpy : py < 200) : GlyphPart ch (signed x) (signed y) px py ↔
      px / 8 = column ∧ py / 8 = row ∧ lit ch (py % 8) (px % 8) = true := by
  unfold GlyphPart signed
  constructor
  · rintro ⟨i, hi, j, hj, hlit, hpx', hpy'⟩
    have hi' : py % 8 = i := by
      split at hpy' <;> omega
    have hj' : px % 8 = j := by
      split at hpx' <;> omega
    rw [hi', hj']
    refine ⟨?_, ?_, hlit⟩
    · split at hpx' <;> omega
    · split at hpy' <;> omega
  · rintro ⟨hcolumn, hrow, hlit⟩
    refine ⟨py % 8, by omega, px % 8, by omega, hlit, ?_, ?_⟩
    · rw [if_pos (by omega)]
      omega
    · rw [if_pos (by omega)]
      omega

/-- Drawing a character at the corner of a cell adds its mark. -/
lemma char_adds (h : Pixels backbuffer ground marks) (hx : x.toNat = column * 8) (hy : y.toNat = row * 8)
    (ch color : UInt8) :
    Pixels (vgaDrawCharLocked backbuffer x y ch color) ground (⟨row, column, ch, color⟩ :: marks) := by
  intro px hpx py hpy
  obtain ⟨hcx, hx0, hx1⟩ := signed_spec x
  obtain ⟨hcy, hy0, hy1⟩ := signed_spec y
  have hcovers := covers_char hcx hcy ⟨hx0, hx1⟩ ⟨hy0, hy1⟩ ch color
  have hglyph := glyph_iff ch x.toNat y.toNat x.toNat_lt y.toNat_lt hx hy hpx hpy
  rw [List.map_cons, overlay_cons, Mark.layer]
  by_cases hlit : px / 8 = column ∧ py / 8 = row ∧ lit ch (py % 8) (px % 8) = true
  · rw [if_pos hlit]
    exact hcovers.paints_in (fills_char x y ch color) hpx hpy (hglyph.mpr hlit) backbuffer
  · rw [if_neg hlit]
    exact (hcovers.keeps hpx (mt hglyph.mp hlit) backbuffer).trans (h px hpx py hpy)

lemma char_outside (backbuffer : Backbuffer) (x y : UInt32) (ch color : UInt8) {p : ℕ} (hp : vgaSize ≤ p) :
    vgaDrawCharLocked backbuffer x y ch color p = backbuffer p := by
  obtain ⟨hcx, hx0, hx1⟩ := signed_spec x
  obtain ⟨hcy, hy0, hy1⟩ := signed_spec y
  exact (covers_char hcx hcy ⟨hx0, hx1⟩ ⟨hy0, hy1⟩ ch color).outside hp backbuffer

lemma pixels_clear (color : UInt8) : Pixels (vgaClear backbuffer color) (fun _ => color) [] := by
  intro px hpx py hpy
  rw [vgaClear_pixel _ _ hpx hpy]
  rfl

/-- One round of the loop of `vga_draw_string`, in cells. -/
lemma next_cell (hx : x.toNat = column * 8) (hy : y.toNat = row * 8) {x' y' : UInt32}
    (hx' : x' = if x + 8 + 8 > vgaWidth then 0 else x + 8) (hy' : y' = if x + 8 + 8 > vgaWidth then y + 8 else y) :
    x'.toNat = (if 40 < (column + 2) % 2 ^ 29 then 0 else (column + 1) % 2 ^ 29) * 8 ∧
      y'.toNat = (if 40 < (column + 2) % 2 ^ 29 then (row + 1) % 2 ^ 29 else row) * 8 := by
  have h8 : (8 : UInt32).toNat = 8 := rfl
  have h320 : vgaWidth.toNat = 320 := rfl
  have hwrap : x + 8 + 8 > vgaWidth ↔ 40 < (column + 2) % 2 ^ 29 := by
    rw [gt_iff_lt, UInt32.lt_iff_toNat_lt, UInt32.toNat_add, UInt32.toNat_add, hx, h8, h320]
    omega
  rw [hx', hy']
  by_cases h : 40 < (column + 2) % 2 ^ 29
  · rw [if_pos h, if_pos h, if_pos (hwrap.mpr h), if_pos (hwrap.mpr h), UInt32.toNat_add, hy, h8]
    refine ⟨rfl, ?_⟩
    omega
  · rw [if_neg h, if_neg h, if_neg (mt hwrap.mp h), if_neg (mt hwrap.mp h), UInt32.toNat_add, hx, h8]
    refine ⟨?_, hy⟩
    omega

lemma last_line (hy : y.toNat = row * 8) : y + 8 > vgaHeight ↔ 25 < (row + 1) % 2 ^ 29 := by
  have h8 : (8 : UInt32).toNat = 8 := rfl
  have h200 : vgaHeight.toNat = 200 := rfl
  rw [gt_iff_lt, UInt32.lt_iff_toNat_lt, UInt32.toNat_add, hy, h8, h200]
  omega

lemma loop_adds (str : ℕ → UInt8) (color : UInt8) {s : List UInt8} {k : ℕ}
    (hs : ∀ i < s.length, str (k + i) = s.getD i 0) (hzero : (0 : UInt8) ∉ s)
    (hend : str (k + s.length) = 0) (h : Pixels backbuffer ground marks)
    (hx : x.toNat = column * 8) (hy : y.toNat = row * 8) :
    Pixels (vgaDrawStringLoop str color (s.length + 1) k x y backbuffer) ground
      (printMarks color s column row marks) := by
  induction s generalizing k x y column row backbuffer marks with
  | nil =>
    rw [vgaDrawStringLoop, if_pos (by simpa using hend)]
    exact h
  | cons ch s ih =>
    have hch : str k = ch := by simpa using hs 0 (by simp)
    have hne : ch ≠ 0 := fun he => hzero (by simp [he])
    have hdraw := char_adds h hx hy ch color
    obtain ⟨hx', hy'⟩ := next_cell hx hy rfl rfl
    simp only [vgaDrawStringLoop, printMarks, hch, if_neg hne, last_line hy']
    by_cases hlast : 25 < ((if 40 < (column + 2) % 2 ^ 29 then (row + 1) % 2 ^ 29 else row) + 1) % 2 ^ 29
    · rw [if_pos hlast, if_pos hlast]
      exact hdraw
    · rw [if_neg hlast, if_neg hlast]
      refine ih ?_ (fun hm => hzero (List.mem_cons_of_mem ch hm)) ?_ hdraw hx' hy'
      · intro i hi
        have hi' := hs (i + 1) (by simpa using hi)
        rwa [List.getD_cons_succ, ← Nat.add_assoc, Nat.add_right_comm] at hi'
      · rwa [List.length_cons, ← Nat.add_assoc, Nat.add_right_comm] at hend

lemma loop_outside (str : ℕ → UInt8) (color : UInt8) (n k : ℕ) (x y : UInt32) {p : ℕ} (hp : vgaSize ≤ p) :
    vgaDrawStringLoop str color n k x y backbuffer p = backbuffer p := by
  induction n generalizing k x y backbuffer with
  | zero => rfl
  | succ n ih =>
    have hchar := char_outside backbuffer x y (str k) color hp
    simp only [vgaDrawStringLoop]
    by_cases hz : str k = 0
    · rw [if_pos hz]
    · rw [if_neg hz]
      generalize (if x + 8 + 8 > vgaWidth then y + 8 else y) = y'
      by_cases hlast : y' + 8 > vgaHeight
      · rw [if_pos hlast]
        exact hchar
      · rw [if_neg hlast]
        exact (ih _ _ _).trans hchar

end Marks

section Steps

variable {before : Backbuffer} {tty : TtyState} {t : Terminal}

lemma shows_boot (backbuffer : Backbuffer) : Shows backbuffer (.boot backbuffer) (.boot backbuffer) where
  cursor := rfl
  column := Nat.succ_pos 39
  row := Nat.succ_pos 24
  foreColor := rfl
  backColor := rfl
  pixels := fun _ _ _ _ => rfl
  outside := fun _ _ => rfl

/-- A cleared screen, whatever was on it. -/
lemma shows_clear (hout : ∀ p, vgaSize ≤ p → tty.backbuffer p = before p) (foreColor backColor : UInt8) :
    Shows before ⟨0, 0, foreColor, backColor, vgaClear tty.backbuffer backColor⟩
      { t with foreColor := foreColor, backColor := backColor }.clear where
  cursor := rfl
  column := Nat.succ_pos 39
  row := Nat.succ_pos 24
  foreColor := rfl
  backColor := rfl
  pixels := pixels_clear backColor
  outside := fun p hp => (vgaClear_outside _ _ hp).trans (hout p hp)

/-- The position after a character, before the test for the last line: a new line starts in the first cell. -/
structure Advanced (tty tty' : TtyState) (c : UInt8) : Prop where
  cursor : tty'.row.toNat * 40 + tty'.column.toNat = next (tty.row.toNat * 40 + tty.column.toNat) c
  column : tty'.column.toNat < 40
  row : tty'.row = tty.row ∨ tty'.row.toNat = tty.row.toNat + 1 ∧ tty'.column = 0
  foreColor : tty'.foreColor = tty.foreColor
  backColor : tty'.backColor = tty.backColor
  backbuffer : tty'.backbuffer = if c = newline then tty.backbuffer else
    vgaDrawCharLocked tty.backbuffer (tty.column * 8) (tty.row * 8) c tty.foreColor

lemma advanced (hcolumn : tty.column.toNat < 40) (hrow : tty.row.toNat < 25) (c : UInt8) :
    Advanced tty (ttyAdvance tty c) c := by
  have h1 : (1 : UInt32).toNat = 1 := rfl
  have h0 : (0 : UInt32).toNat = 0 := rfl
  have h40 : ttyWidth.toNat = 40 := rfl
  have hnext : (tty.column + 1).toNat = tty.column.toNat + 1 := by
    rw [UInt32.toNat_add, h1]
    omega
  have hline : (tty.row + 1).toNat = tty.row.toNat + 1 := by
    rw [UInt32.toNat_add, h1]
    omega
  unfold ttyAdvance
  by_cases hc : c = newline
  · rw [if_pos hc]
    refine ⟨?_, by simp only [h0]; omega, Or.inr ⟨hline, rfl⟩, rfl, rfl, (if_pos hc).symm⟩
    simp only [next, if_pos hc, hline, h0]
    omega
  · rw [if_neg hc]
    by_cases hfull : tty.column + 1 ≥ ttyWidth
    · have hlast : tty.column.toNat = 39 := by
        rw [ge_iff_le, UInt32.le_iff_toNat_le, hnext, h40] at hfull
        omega
      rw [if_pos hfull]
      refine ⟨?_, by simp only [h0]; omega, Or.inr ⟨hline, rfl⟩, rfl, rfl, (if_neg hc).symm⟩
      simp only [next, if_neg hc, hline, h0]
      omega
    · rw [if_neg hfull]
      rw [ge_iff_le, UInt32.le_iff_toNat_le, hnext, h40] at hfull
      refine ⟨?_, by simp only [hnext]; omega, Or.inl rfl, rfl, rfl, (if_neg hc).symm⟩
      simp only [next, if_neg hc, hnext]
      omega

lemma cell_pixels {x : UInt32} (hx : x.toNat < 40) : (x * 8).toNat = x.toNat * 8 := by
  have h8 : (8 : UInt32).toNat = 8 := rfl
  rw [UInt32.toNat_mul, h8]
  omega

lemma shows_putchar (h : Shows before tty t) (c : UInt8) : Shows before (ttyPutchar tty c) (t.putchar c) := by
  obtain ⟨hcursor, hcolumn, hrow, hfore, hback, hpixels, hout⟩ := h
  obtain ⟨hcursor', hcolumn', hrow', hfore', hback', hbuffer⟩ := advanced hcolumn hrow c
  have hcell : t.cursor / 40 = tty.row.toNat ∧ t.cursor % 40 = tty.column.toNat := by omega
  have hpixels' : Pixels (ttyAdvance tty c).backbuffer t.ground
      (if c = newline then t.marks else ⟨t.cursor / 40, t.cursor % 40, c, t.foreColor⟩ :: t.marks) := by
    rw [hbuffer, hcell.1, hcell.2, ← hfore]
    by_cases hc : c = newline
    · rw [if_pos hc, if_pos hc]
      exact hpixels
    · rw [if_neg hc, if_neg hc]
      exact char_adds hpixels (cell_pixels hcolumn) (cell_pixels (by omega)) c tty.foreColor
  have hout' : ∀ p, vgaSize ≤ p → (ttyAdvance tty c).backbuffer p = before p := by
    intro p hp
    rw [hbuffer]
    by_cases hc : c = newline
    · rw [if_pos hc]
      exact hout p hp
    · rw [if_neg hc]
      exact (char_outside _ _ _ c _ hp).trans (hout p hp)
  rw [hcursor] at hcursor'
  have h25 : ttyHeight.toNat = 25 := rfl
  have hfull : (ttyAdvance tty c).row ≥ ttyHeight ↔ 1000 ≤ next t.cursor c := by
    rw [ge_iff_le, UInt32.le_iff_toNat_le, h25, ← hcursor']
    omega
  unfold ttyPutchar Terminal.putchar
  dsimp only
  by_cases hlast : 1000 ≤ next t.cursor c
  · have hstart : (ttyAdvance tty c).column = 0 := by
      rw [ge_iff_le, UInt32.le_iff_toNat_le, h25] at hfull
      rcases hrow' with hsame | ⟨-, hzero⟩
      · rw [hsame] at hfull
        omega
      · exact hzero
    rw [if_pos hlast, if_pos (hfull.mpr hlast), hstart, hfore', hback', hfore, hback]
    exact shows_clear (t := t) hout' t.foreColor t.backColor
  · rw [if_neg hlast, if_neg (mt hfull.mp hlast)]
    rw [ge_iff_le, UInt32.le_iff_toNat_le, h25] at hfull
    exact ⟨hcursor', hcolumn', by omega, hfore'.trans hfore, hback'.trans hback, hpixels', hout'⟩

lemma shows_putstring (h : Shows before tty t) (str : List UInt8) :
    Shows before (str.foldl ttyPutchar tty) (str.foldl Terminal.putchar t) := by
  induction str generalizing tty t with
  | nil => exact h
  | cons c str ih => exact ih (shows_putchar h c)

lemma shows_printAt (h : Shows before tty t) (x y : UInt32) (str : CString) :
    Shows before (ttyPrintAt tty x y str) (t.step (.printAt x y str)) := by
  obtain ⟨hcursor, hcolumn, hrow, hfore, hback, hpixels, hout⟩ := h
  have h8 : (8 : UInt32).toNat = 8 := rfl
  have hcell : ∀ x : UInt32, (x * 8).toNat = x.toNat % 2 ^ 29 * 8 := by
    intro x
    rw [UInt32.toNat_mul, h8]
    omega
  refine ⟨hcursor, hcolumn, hrow, hfore, hback, ?_, ?_⟩
  · have hstr : ∀ i < str.1.length, str.1.getD (0 + i) 0 = str.1.getD i 0 := fun i _ => by rw [Nat.zero_add]
    have hend : str.1.getD (0 + str.1.length) 0 = 0 := List.getD_eq_default _ _ (by omega)
    have hloop := loop_adds (fun k => str.1.getD k 0) tty.foreColor hstr str.2 hend hpixels (hcell x) (hcell y)
    rw [hfore] at hloop
    unfold ttyPrintAt vgaDrawText
    rw [hfore]
    exact hloop
  · intro p hp
    exact (loop_outside _ _ _ _ _ _ hp).trans (hout p hp)

lemma shows_step (h : Shows before tty t) (call : Call) : Shows before (step tty call) (t.step call) := by
  cases call with
  | init => exact shows_clear h.outside white blue
  | setColor foreColor backColor => exact ⟨h.cursor, h.column, h.row, rfl, rfl, h.pixels, h.outside⟩
  | putchar c => exact shows_putchar h c
  | putstring str => exact shows_putstring h str.1
  | printAt x y str => exact shows_printAt h x y str
  | clear =>
    have hclear := shows_clear (t := t) h.outside t.foreColor t.backColor
    unfold step ttyClear Terminal.step
    rw [h.foreColor, h.backColor]
    exact hclear

/-- Whatever is called, the pixels are those of the terminal: in each cell the marks that were put there since
the last clear, the later ones on top. -/
theorem terminal_refinement (backbuffer : Backbuffer) (calls : List Call) :
    Shows backbuffer (run (.boot backbuffer) calls) (Terminal.run (.boot backbuffer) calls) := by
  have hrun : ∀ tty t, Shows backbuffer tty t → Shows backbuffer (run tty calls) (t.run calls) := by
    induction calls with
    | nil => exact fun _ _ h => h
    | cons call calls ih => exact fun tty t h => ih _ _ (shows_step h call)
  exact hrun _ _ (shows_boot backbuffer)

end Steps

end SBoy28.Tty
