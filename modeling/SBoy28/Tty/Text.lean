import SBoy28.Tty.Screen

/-!
# The text on the screen

Without `tty_print_at` no two characters share a cell: the screen shows the characters that were written since the
last clear, in reading order.
-/

namespace SBoy28.Tty
open Lib Windows

section Specification

/-- The characters with their colours, the oldest first. -/
structure Page where
  sent : List (UInt8 × UInt8)
  foreColor : UInt8
  backColor : UInt8
  ground : ℕ × ℕ → UInt8

/-- The cell that the next character goes to. -/
def cursorOf (sent : List (UInt8 × UInt8)) : ℕ := sent.foldl (fun cursor c => next cursor c.1) 0

def Page.clear (page : Page) : Page := { page with sent := [], ground := fun _ => page.backColor }

def Page.putchar (page : Page) (c : UInt8) : Page :=
  let page := { page with sent := page.sent ++ [(c, page.foreColor)] }
  if 1000 ≤ cursorOf page.sent then page.clear else page

def Page.step (page : Page) : Call → Page
  | .init => { page with foreColor := white, backColor := blue }.clear
  | .setColor foreColor backColor => { page with foreColor := foreColor, backColor := backColor }
  | .putchar c => page.putchar c
  | .putstring str => str.1.foldl Page.putchar page
  | .printAt _ _ _ => page
  | .clear => page.clear

def Page.run (page : Page) (calls : List Call) : Page := calls.foldl Page.step page

def Page.boot (backbuffer : Backbuffer) : Page :=
  ⟨[], white, blue, fun pixel => backbuffer (pixel.2 * 320 + pixel.1)⟩

def Call.characters : Call → List UInt8
  | .putchar c => [c]
  | .putstring str => str.1
  | _ => []

def Call.positioned : Call → Bool
  | .printAt _ _ _ => true
  | _ => false

/-- A character of the text that is not a line break, with what was sent before it. -/
def Sent (page : Page) (earlier : List (UInt8 × UInt8)) (ch color : UInt8) : Prop :=
  ch ≠ newline ∧ earlier ++ [(ch, color)] <+: page.sent

/-- The end of what was written is on the screen: each character alone in its cell, and nothing in the others. -/
structure ShowsText (tty : TtyState) (page : Page) (written : List UInt8) : Prop where
  latest : page.sent.map Prod.fst <:+ written
  cursor : tty.row.toNat * 40 + tty.column.toNat = cursorOf page.sent
  chars : ∀ earlier ch color, Sent page earlier ch color → ∀ px < 320, ∀ py < 200,
    py / 8 * 40 + px / 8 = cursorOf earlier → tty.backbuffer (py * 320 + px) =
      if lit ch (py % 8) (px % 8) then color else page.ground (px, py)
  rest : ∀ px < 320, ∀ py < 200, (∀ earlier ch color, Sent page earlier ch color →
    py / 8 * 40 + px / 8 ≠ cursorOf earlier) → tty.backbuffer (py * 320 + px) = page.ground (px, py)

end Specification

section Layout

variable {t : Terminal} {page : Page} {c : UInt8}

def Mark.cell (mark : Mark) : ℕ := mark.row * 40 + mark.column

/-- The marks are those of the characters that were sent, in falling order of their cells. -/
structure LaidOut (t : Terminal) (page : Page) : Prop where
  cursor : t.cursor = cursorOf page.sent
  room : t.cursor < 1000
  foreColor : t.foreColor = page.foreColor
  backColor : t.backColor = page.backColor
  ground : t.ground = page.ground
  below : ∀ mark ∈ t.marks, mark.cell < t.cursor
  order : t.marks.Pairwise fun mark mark' => mark'.cell < mark.cell
  sent : ∀ mark, mark ∈ t.marks ↔ mark.column < 40 ∧
    ∃ earlier, Sent page earlier mark.ch mark.color ∧ mark.cell = cursorOf earlier

lemma cursorOf_append (sent : List (UInt8 × UInt8)) (c color : UInt8) :
    cursorOf (sent ++ [(c, color)]) = next (cursorOf sent) c := by
  unfold cursorOf
  rw [List.foldl_append]
  rfl

lemma lt_next (cursor : ℕ) (c : UInt8) : cursor < next cursor c := by
  unfold next
  split <;> omega

lemma laidOut_clear (foreColor backColor : UInt8) (t : Terminal) (page : Page) :
    LaidOut { t with foreColor := foreColor, backColor := backColor }.clear
      { page with foreColor := foreColor, backColor := backColor }.clear where
  cursor := rfl
  room := Nat.succ_pos 999
  foreColor := rfl
  backColor := rfl
  ground := rfl
  below := fun _ hm => absurd hm List.not_mem_nil
  order := List.Pairwise.nil
  sent := by
    intro mark
    constructor
    · intro hm
      exact absurd hm List.not_mem_nil
    · rintro ⟨-, earlier, ⟨-, hprefix⟩, -⟩
      exact absurd (List.prefix_nil.mp hprefix) (by simp)

/-- The character before the last one and those before it stay sent. -/
lemma sent_append (foreColor : UInt8) {earlier : List (UInt8 × UInt8)} {ch color : UInt8} :
    Sent { page with sent := page.sent ++ [(c, foreColor)] } earlier ch color ↔
      Sent page earlier ch color ∨ c ≠ newline ∧ earlier = page.sent ∧ ch = c ∧ color = foreColor := by
  unfold Sent
  dsimp only
  rw [List.prefix_concat_iff]
  constructor
  · rintro ⟨hch, heq | hprefix⟩
    · obtain ⟨hearlier, hlast⟩ := List.append_inj' heq rfl
      simp only [List.cons.injEq, Prod.mk.injEq, and_true] at hlast
      exact Or.inr ⟨hlast.1 ▸ hch, hearlier, hlast⟩
    · exact Or.inl ⟨hch, hprefix⟩
  · rintro (⟨hch, hprefix⟩ | ⟨hc, rfl, rfl, rfl⟩)
    · exact ⟨hch, Or.inr hprefix⟩
    · exact ⟨hc, Or.inl rfl⟩

/-- A character goes behind all others. -/
lemma laidOut_append (h : LaidOut t page) (hroom : next t.cursor c < 1000) :
    LaidOut { t with cursor := next t.cursor c, marks := if c = newline then t.marks else
        ⟨t.cursor / 40, t.cursor % 40, c, t.foreColor⟩ :: t.marks }
      { page with sent := page.sent ++ [(c, page.foreColor)] } := by
  obtain ⟨hcursor, -, hfore, hback, hground, hbelow, horder, hsent⟩ := h
  have hlt := lt_next t.cursor c
  have hnext : next t.cursor c = cursorOf (page.sent ++ [(c, page.foreColor)]) := by
    rw [cursorOf_append, hcursor]
  by_cases hc : c = newline
  · refine ⟨hnext, hroom, hfore, hback, hground, ?_, ?_, ?_⟩ <;> simp only [if_pos hc]
    · exact fun mark hm => (hbelow mark hm).trans hlt
    · exact horder
    · intro mark
      simp only [sent_append, hc, ne_eq, not_true_eq_false, false_and, or_false]
      exact hsent mark
  · have hcell : ∀ color, (Mark.mk (t.cursor / 40) (t.cursor % 40) c color).cell = t.cursor := by
      intro color
      change t.cursor / 40 * 40 + t.cursor % 40 = t.cursor
      omega
    refine ⟨hnext, hroom, hfore, hback, hground, ?_, ?_, ?_⟩ <;> simp only [if_neg hc]
    · refine List.forall_mem_cons.mpr ⟨(hcell _).trans_lt hlt, fun mark hm => (hbelow mark hm).trans hlt⟩
    · refine List.pairwise_cons.mpr ⟨fun mark hm => ?_, horder⟩
      rw [hcell]
      exact hbelow mark hm
    · intro mark
      rw [List.mem_cons, hsent]
      simp only [sent_append]
      constructor
      · rintro (rfl | ⟨hcolumn, earlier, hin, hcell'⟩)
        · refine ⟨?_, page.sent, Or.inr ⟨hc, rfl, rfl, hfore⟩, (hcell _).trans hcursor⟩
          change t.cursor % 40 < 40
          omega
        · exact ⟨hcolumn, earlier, Or.inl hin, hcell'⟩
      · rintro ⟨hcolumn, earlier, hin | ⟨-, rfl, hch, hcolor⟩, hcell'⟩
        · exact Or.inr ⟨hcolumn, earlier, hin, hcell'⟩
        · left
          obtain ⟨row, column, ch, color⟩ := mark
          unfold Mark.cell at hcell'
          dsimp only at hcolumn hch hcolor hcell'
          rw [← hcursor] at hcell'
          rw [hch, hcolor, ← hfore, Mark.mk.injEq]
          exact ⟨by omega, by omega, rfl, rfl⟩

lemma laidOut_putchar (h : LaidOut t page) (c : UInt8) : LaidOut (t.putchar c) (page.putchar c) := by
  have hcursor := h.cursor
  unfold Terminal.putchar Page.putchar
  dsimp only
  rw [cursorOf_append, ← hcursor]
  by_cases hfull : 1000 ≤ next t.cursor c
  · rw [if_pos hfull, if_pos hfull]
    have hclear := laidOut_clear t.foreColor t.backColor t page
    rw [h.foreColor, h.backColor] at hclear
    unfold Terminal.clear Page.clear at hclear ⊢
    rw [h.foreColor, h.backColor]
    exact hclear
  · rw [if_neg hfull, if_neg hfull]
    exact laidOut_append h (Nat.lt_of_not_le hfull)

lemma laidOut_putstring (h : LaidOut t page) (str : List UInt8) :
    LaidOut (str.foldl Terminal.putchar t) (str.foldl Page.putchar page) := by
  induction str generalizing t page with
  | nil => exact h
  | cons c str ih => exact ih (laidOut_putchar h c)

lemma laidOut_step (h : LaidOut t page) {call : Call} (hcall : call.positioned = false) :
    LaidOut (t.step call) (page.step call) := by
  cases call with
  | init => exact laidOut_clear white blue t page
  | setColor foreColor backColor =>
    exact ⟨h.cursor, h.room, rfl, rfl, h.ground, h.below, h.order, h.sent⟩
  | putchar c => exact laidOut_putchar h c
  | putstring str => exact laidOut_putstring h str.1
  | printAt x y str => exact absurd hcall Bool.noConfusion
  | clear =>
    have hclear := laidOut_clear t.foreColor t.backColor t page
    unfold Terminal.step Page.step Terminal.clear Page.clear at *
    rw [h.foreColor, h.backColor] at hclear ⊢
    exact hclear

lemma laidOut_boot (backbuffer : Backbuffer) : LaidOut (.boot backbuffer) (.boot backbuffer) where
  cursor := rfl
  room := Nat.succ_pos 999
  foreColor := rfl
  backColor := rfl
  ground := rfl
  below := fun _ hm => absurd hm List.not_mem_nil
  order := List.Pairwise.nil
  sent := (laidOut_clear white blue (.boot backbuffer) (.boot backbuffer)).sent

end Layout

section Reading

variable {t : Terminal} {page : Page} {px py : ℕ}

lemma layer_none {mark : Mark} (h : py / 8 * 40 + px / 8 ≠ mark.cell) : mark.layer (px, py) = none := by
  unfold Mark.layer
  apply if_neg
  rintro ⟨hpx', hpy', -⟩
  unfold Mark.cell at h
  dsimp only at hpx' hpy'
  rw [hpx', hpy'] at h
  exact h rfl

/-- One mark only can be seen in a cell. -/
lemma pixel_mark (h : LaidOut t page) {mark : Mark} (hm : mark ∈ t.marks) (hpx : px < 320)
    (hcell : py / 8 * 40 + px / 8 = mark.cell) :
    t.pixel (px, py) = if lit mark.ch (py % 8) (px % 8) then mark.color else page.ground (px, py) := by
  obtain ⟨newer, older, hsplit⟩ := List.append_of_mem hm
  have horder := h.order
  have hcolumn := ((h.sent mark).mp hm).1
  rw [hsplit, List.pairwise_append, List.pairwise_cons] at horder
  obtain ⟨-, ⟨holder, -⟩, hnewer⟩ := horder
  have hempty : ∀ other : Mark, other.cell ≠ mark.cell → other.layer (px, py) = none := by
    intro other hne
    exact layer_none (by rw [hcell]; exact hne.symm)
  unfold Terminal.pixel
  rw [hsplit, List.map_append, List.map_cons, overlay_single]
  · unfold Mark.layer
    unfold Mark.cell at hcell
    dsimp only
    rw [h.ground]
    by_cases hlit : lit mark.ch (py % 8) (px % 8) = true
    · rw [if_pos hlit, if_pos ⟨by omega, by omega, hlit⟩]
      rfl
    · rw [if_neg hlit, if_neg fun hall => hlit hall.2.2]
      rfl
  · rintro layer hlayer
    obtain ⟨other, hother, rfl⟩ := List.mem_map.mp hlayer
    have hlt := hnewer other hother mark List.mem_cons_self
    exact hempty other (Nat.ne_of_gt hlt)
  · rintro layer hlayer
    obtain ⟨other, hother, rfl⟩ := List.mem_map.mp hlayer
    have hlt := holder other hother
    exact hempty other (Nat.ne_of_lt hlt)

lemma pixel_ground (h : LaidOut t page) (hcell : ∀ mark ∈ t.marks, py / 8 * 40 + px / 8 ≠ mark.cell) :
    t.pixel (px, py) = page.ground (px, py) := by
  unfold Terminal.pixel
  rw [overlay_ground, h.ground]
  rintro layer hlayer
  obtain ⟨mark, hmark, rfl⟩ := List.mem_map.mp hlayer
  exact layer_none (hcell mark hmark)

/-- A character that was sent has its mark. -/
lemma exists_mark (h : LaidOut t page) {earlier : List (UInt8 × UInt8)} {ch color : UInt8}
    (hsent : Sent page earlier ch color) :
    ∃ mark ∈ t.marks, mark.ch = ch ∧ mark.color = color ∧ mark.cell = cursorOf earlier := by
  have hcell : (Mark.mk (cursorOf earlier / 40) (cursorOf earlier % 40) ch color).cell = cursorOf earlier := by
    change cursorOf earlier / 40 * 40 + cursorOf earlier % 40 = _
    omega
  refine ⟨_, (h.sent _).mpr ⟨?_, earlier, hsent, hcell⟩, rfl, rfl, hcell⟩
  change cursorOf earlier % 40 < 40
  omega

end Reading

section Runs

variable {page : Page}

lemma latest_putchar {written : List UInt8} (h : page.sent.map Prod.fst <:+ written) (c : UInt8) :
    (page.putchar c).sent.map Prod.fst <:+ written ++ [c] := by
  unfold Page.putchar
  dsimp only
  split
  · exact List.nil_suffix
  · rw [List.map_append]
    obtain ⟨gone, hgone⟩ := h
    exact ⟨gone, by rw [← hgone, List.append_assoc]; rfl⟩

lemma latest_putstring {written : List UInt8} (h : page.sent.map Prod.fst <:+ written) (str : List UInt8) :
    (str.foldl Page.putchar page).sent.map Prod.fst <:+ written ++ str := by
  induction str generalizing page written with
  | nil => rwa [List.append_nil]
  | cons c str ih =>
    have hrest := ih (latest_putchar h c)
    rwa [List.append_assoc] at hrest

lemma latest_step {written : List UInt8} (h : page.sent.map Prod.fst <:+ written) (call : Call) :
    (page.step call).sent.map Prod.fst <:+ written ++ call.characters := by
  cases call with
  | init => exact List.nil_suffix
  | setColor foreColor backColor =>
    change page.sent.map Prod.fst <:+ written ++ []
    rwa [List.append_nil]
  | putchar c => exact latest_putchar h c
  | putstring str => exact latest_putstring h str.1
  | printAt x y str =>
    change page.sent.map Prod.fst <:+ written ++ []
    rwa [List.append_nil]
  | clear => exact List.nil_suffix

lemma latest_run (calls : List Call) (written : List UInt8) (h : page.sent.map Prod.fst <:+ written) :
    (page.run calls).sent.map Prod.fst <:+ written ++ calls.flatMap Call.characters := by
  induction calls generalizing page written with
  | nil =>
    rw [List.flatMap_nil, List.append_nil]
    exact h
  | cons call calls ih =>
    have hrest := ih _ (latest_step h call)
    rwa [List.append_assoc] at hrest

lemma laidOut_run {t : Terminal} (h : LaidOut t page) {calls : List Call}
    (hcalls : ∀ call ∈ calls, call.positioned = false) : LaidOut (t.run calls) (page.run calls) := by
  induction calls generalizing t page with
  | nil => exact h
  | cons call calls ih =>
    obtain ⟨hcall, hrest⟩ := List.forall_mem_cons.mp hcalls
    exact ih (laidOut_step h hcall) hrest

/-- Characters go to their own cells in the order in which they were sent; those since the last clear are shown, and
they are the end of all that was sent. -/
theorem text_on_screen (backbuffer : Backbuffer) (calls : List Call)
    (hcalls : ∀ call ∈ calls, call.positioned = false) :
    ShowsText (run (.boot backbuffer) calls) (Page.run (.boot backbuffer) calls) (calls.flatMap Call.characters) := by
  have hshows := terminal_refinement backbuffer calls
  have hlaid := laidOut_run (laidOut_boot backbuffer) hcalls
  refine ⟨latest_run calls [] List.nil_suffix, hshows.cursor.trans hlaid.cursor, ?_, ?_⟩
  · intro earlier ch color hsent px hpx py hpy hcell
    obtain ⟨mark, hmark, rfl, rfl, hcell'⟩ := exists_mark hlaid hsent
    rw [hshows.pixels px hpx py hpy]
    exact pixel_mark hlaid hmark hpx (hcell.trans hcell'.symm)
  · intro px hpx py hpy hfree
    rw [hshows.pixels px hpx py hpy]
    refine pixel_ground hlaid fun mark hmark => ?_
    obtain ⟨-, earlier, hsent, hcell⟩ := (hlaid.sent mark).mp hmark
    rw [hcell]
    exact hfree earlier mark.ch mark.color hsent

theorem text_on_screen_word : ShowsText
    (run (.boot fun _ => 0) [.init, .putstring ⟨[79, 75], by decide⟩])
    (Page.run (.boot fun _ => 0) [.init, .putstring ⟨[79, 75], by decide⟩]) [79, 75] :=
  text_on_screen _ _ (by decide)

end Runs

end SBoy28.Tty
