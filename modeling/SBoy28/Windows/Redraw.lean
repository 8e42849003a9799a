import SBoy28.Lib.Painting
import SBoy28.Windows.Drawing
import SBoy28.Windows.Table

/-!
# What the backbuffer shows

`redraw_desktop` draws the visible windows and nothing else, and `CreateWindowEx` draws the new
window over the others. The backbuffer shows the windows over what it held at the start if and
only if no call uncovers a pixel that has changed since, and no window is created under another one.
-/

namespace SBoy28.Windows
open Lib

section Specification

/-- `MoveWindow` with `bRepaint`, `SetWindowPos` without `SWP_NOREDRAW`, and the calls that always draw. -/
def Repaints : TableCall → Prop
  | .create _ => True
  | .on _ .destroyWindow => True
  | .on _ (.showWindow _) => True
  | .on _ (.moveWindow _ _ _ _ bRepaint) => bRepaint = true
  | .on _ (.setWindowPos _ _ _ _ uFlags) => uFlags &&& swpNoredraw = 0
  | _ => False

/-- No window is visible. -/
structure Start (s : Session) : Prop where
  hidden : ∀ i, frame (s.os.windows i) = none
  drawn : s.os.drawn = []

/-- The backbuffer, given the one at the start. -/
def backbuffer (start : Backbuffer) (os : Os) : Backbuffer := draw os.drawn start

/-- The visible windows over the backbuffer at the start. -/
def picture (start : Backbuffer) (windows : Fin 16 → Window) : Backbuffer := draw (frames windows) start

/-- The color that the visible windows give to a pixel. -/
def shown (windows : Fin 16 → Window) : ℕ → Option UInt8 := painted 0 1 (draw (frames windows))

/-- The color that one window gives to a pixel. -/
def shownAlone (window : Window) : ℕ → Option UInt8 := painted 0 1 (draw (frame window).toList)

/-- A new window is shown in front of those in later slots. Any other call uncovers only pixels that
look as they did at the start. -/
def Clean (start : Backbuffer) (s : Session) : TableCall → Prop
  | .create args => ∀ i k, freeSlot s.os = some i → findClassByName s.os args.className = some k →
    let window := args.window (s.os.windows i) k
    ∀ p color, shownAlone window p = some color → shown (Function.update s.os.windows i window) p = some color
  | .on hWnd call => ∀ i, hWnd = some i → (s.os.windows i).inUse = true →
    let windows := Function.update s.os.windows i (call.change (s.os.windows i))
    ∀ p color, shown s.os.windows p = some color → shown windows p = none → color = start p
  | .register _ => True

def CleanRun (start : Backbuffer) : Session → List TableCall → Prop
  | _, [] => True
  | s, call :: calls => Clean start s call ∧ CleanRun start (s.step call) calls

end Specification

variable {s : Session} {start : Backbuffer} {windows : Fin 16 → Window} {i : Fin 16}

section Drawings

lemma paints_putPixel (x y : UInt32) (color : UInt8) : Paints fun buf => vgaPutPixel buf x y color := by
  unfold vgaPutPixel
  by_cases h : x < vgaWidth ∧ y < vgaHeight
  · simp only [if_pos h]
    exact Paints.update _ _
  · simp only [if_neg h]
    exact Paints.id

lemma paints_forInt32 (first last : Int32) {body : Backbuffer → Int32 → Backbuffer}
    (h : ∀ k, Paints fun buf => body buf k) : Paints (forInt32 first last body) :=
  Paints.foldl (fun _ => h _) _

lemma paints_fillRect (rect : Rect) (color : UInt8) : Paints fun buf => osGuiFillRect buf rect color :=
  paints_forInt32 _ _ fun y => paints_forInt32 _ _ fun x => paints_putPixel x.toUInt32 y.toUInt32 color

lemma paints_outline (rect : Rect) (color : UInt8) : Paints fun buf => osGuiDrawRectOutline buf rect color := by
  have hpair : ∀ x y x' y' : UInt32, Paints fun buf => vgaPutPixel (vgaPutPixel buf x y color) x' y' color :=
    fun x y x' y' => (paints_putPixel x y color).comp (paints_putPixel x' y' color)
  exact (paints_forInt32 rect.x (rect.x + rect.w) fun x =>
      hpair x.toUInt32 rect.y.toUInt32 x.toUInt32 (rect.y + rect.h - 1).toUInt32).comp
    (paints_forInt32 rect.y (rect.y + rect.h) fun y =>
      hpair rect.x.toUInt32 y.toUInt32 (rect.x + rect.w - 1).toUInt32 y.toUInt32)

lemma paints_char (x y : UInt32) (ch color : UInt8) : Paints fun buf => vgaDrawCharLocked buf x y ch color := by
  unfold vgaDrawCharLocked
  by_cases hch : 127 < ch
  · simp only [if_pos hch]
    exact Paints.id
  · simp only [if_neg hch]
    refine Paints.foldl (fun i => Paints.foldl (fun j => ?_) _) _
    by_cases hbit : (font8x8 ch i).toNat.testBit (7 - j) = true
    · simp only [if_pos hbit]
      exact paints_putPixel _ _ _
    · simp only [if_neg hbit]
      exact Paints.id

lemma paints_stringLoop (str : ℕ → UInt8) (color : UInt8) (n k : ℕ) (x y : UInt32) :
    Paints (vgaDrawStringLoop str color n k x y) := by
  induction n generalizing k x y with
  | zero => exact Paints.id
  | succ n ih =>
    change Paints fun buf => vgaDrawStringLoop str color (n + 1) k x y buf
    simp only [vgaDrawStringLoop]
    generalize (if x + 8 + 8 > vgaWidth then y + 8 else y) = y'
    generalize (if x + 8 + 8 > vgaWidth then 0 else x + 8) = x'
    by_cases hz : str k = 0
    · simp only [if_pos hz]
      exact Paints.id
    · by_cases hy : y' + 8 > vgaHeight
      · simp only [if_neg hz, if_pos hy]
        exact paints_char x y (str k) color
      · simp only [if_neg hz, if_neg hy]
        exact (paints_char x y (str k) color).comp (ih (k + 1) x' y')

lemma paints_titleBar (rect : Rect) (title : ℕ → UInt8) : Paints fun buf => osGuiDrawTitleBar buf rect title :=
  (paints_fillRect ⟨rect.x + 1, rect.y + 1, rect.w - 2, 10⟩ brightBlue).comp
    (paints_stringLoop title white 128 0 (rect.x + 4).toUInt32 (rect.y + 2).toUInt32)

lemma paints_window (rect : Rect) (title : ℕ → UInt8) : Paints fun buf => osGuiDrawWindow buf rect title :=
  (((paints_fillRect rect blue).comp (paints_outline rect white)).comp
    (paints_fillRect ⟨rect.x + rect.w, rect.y + 2, 2, rect.h⟩ darkGrey)).comp (paints_titleBar rect title)

lemma paints_draw (pictures : List (Rect × (ℕ → UInt8))) : Paints (draw pictures) := by
  have hbody : ∀ picture : Rect × (ℕ → UInt8), Paints fun buf => osGuiDrawWindow buf picture.1 picture.2 :=
    fun picture => paints_window picture.1 picture.2
  exact Paints.foldl hbody pictures

lemma draw_append (l r : List (Rect × (ℕ → UInt8))) (buf : Backbuffer) :
    draw (l ++ r) buf = draw r (draw l buf) := List.foldl_append

/-- A window that becomes visible has a place among the others. -/
lemma frames_update (h : frame (windows i) = none) (window : Window) : ∃ l r, frames windows = l ++ r ∧
    frames (Function.update windows i window) = l ++ (frame window).toList ++ r := by
  obtain ⟨a, b, hab⟩ := List.append_of_mem (List.mem_finRange i)
  have hnodup := List.nodup_finRange 16
  rw [hab, List.nodup_append] at hnodup
  obtain ⟨-, hb, hdisj⟩ := hnodup
  have hia : ∀ j ∈ a, j ≠ i := fun j hj => hdisj j hj i (by simp)
  have hib : ∀ j ∈ b, j ≠ i := fun j hj he => (List.nodup_cons.mp hb).1 (he ▸ hj)
  have hsame : ∀ l : List (Fin 16), (∀ j ∈ l, j ≠ i) →
      l.filterMap (fun j => frame (Function.update windows i window j)) = l.filterMap fun j => frame (windows j) := by
    intro l hl
    refine List.filterMap_congr fun j hj => ?_
    rw [Function.update_of_ne (hl j hj)]
  refine ⟨a.filterMap fun j => frame (windows j), b.filterMap fun j => frame (windows j), ?_, ?_⟩
  · rw [frames, hab, List.filterMap_append, List.filterMap_cons]
    simp only [h]
  · rw [frames, hab, List.filterMap_append, hsame a hia, List.append_assoc]
    congr 1
    rw [List.filterMap_cons, Function.update_self, hsame b hib]
    cases frame window <;> rfl

lemma frame_free (h : (windows i).inUse = false) : frame (windows i) = none := by
  simp [frame, h]

/-- A title has an end. -/
def Window.titled (window : Window) : Prop := ∃ m < 128, window.title m = 0

lemma titled_window (a : CreateArgs) (old : Window) (k : Fin 16) : (a.window old k).titled := by
  cases hname : a.windowName with
  | some name => exact ⟨127, by decide, by simp [CreateArgs.window, newWindow, hname]⟩
  | none => exact ⟨0, by decide, by simp [CreateArgs.window, newWindow, hname]⟩

lemma titled_change {window : Window} (h : window.titled) (call : WindowCall) : (call.change window).titled := by
  cases call with
  | destroyWindow => exact ⟨0, by decide, rfl⟩
  | setWindowText lpString =>
    cases lpString with
    | some name => exact ⟨127, by decide, by simp [WindowCall.change]⟩
    | none => exact ⟨0, by decide, by simp [WindowCall.change]⟩
  | showWindow => exact h
  | updateWindow => exact h
  | moveWindow => exact h
  | setWindowPos => exact h

end Drawings

section Runs

lemma step_on_os (s : Session) (hWnd : HWnd) (call : WindowCall) :
    (s.step (.on hWnd call)).os = (s.os.perform hWnd call).2 := by
  by_cases hd : call = .destroyWindow
  · subst hd
    cases hWnd <;> rfl
  · rw [step_on hd]

lemma titled_step (h : ∀ i, (s.os.windows i).titled) (call : TableCall) (i : Fin 16) :
    ((s.step call).os.windows i).titled := by
  have hwrite : ∀ {j : Fin 16} {window : Window}, window.titled →
      (Function.update s.os.windows j window i).titled := by
    intro j window hw
    by_cases hij : i = j
    · rwa [hij, Function.update_self]
    · rw [Function.update_of_ne hij]
      exact h i
  cases call with
  | register wc =>
    rw [Session.step, (registerClass_same s.os wc).1]
    exact h i
  | create a =>
    rcases create_spec s.os a with ⟨hcall, -⟩ | ⟨k, j, -, -, hcall⟩
    · simp only [Session.step, hcall]
      exact h i
    · simp only [Session.step, hcall]
      exact hwrite (titled_window a _ k)
  | on hWnd call =>
    rw [step_on_os]
    cases hv : isValidWindow s.os hWnd with
    | false =>
      rw [perform_invalid call hv]
      exact h i
    | true =>
      cases hWnd with
      | none => cases hv
      | some j =>
        rw [perform_valid call hv]
        exact hwrite (titled_change (h j) call)

/-- The title of every window has an end, at which `vga_draw_string` stops. -/
theorem titled_run (calls : List TableCall) (i : Fin 16) : ((Session.boot.run calls).os.windows i).titled := by
  have hrun : ∀ (s : Session), (∀ i, (s.os.windows i).titled) → ∀ i, ((s.run calls).os.windows i).titled := by
    induction calls with
    | nil => exact fun _ h => h
    | cons call calls ih => exact fun s h => ih (s.step call) (titled_step h call)
  exact hrun Session.boot (fun _ => ⟨0, by decide, rfl⟩) i

/-- So the 128 characters that `vgaDrawString` reads are enough. -/
theorem vgaDrawString_titled (calls : List TableCall) (i : Fin 16) {n : ℕ} (hn : 128 ≤ n) (x y : UInt32)
    (color : UInt8) (buf : Backbuffer) :
    vgaDrawStringLoop ((Session.boot.run calls).os.windows i).title color n 0 x y buf =
      vgaDrawString buf x y ((Session.boot.run calls).os.windows i).title color := by
  obtain ⟨m, hm, hend⟩ := titled_run calls i
  exact vgaDrawStringLoop_end hend color n 128 (Nat.zero_le m) (by omega) (by omega) x y buf

lemma repaints_pictures {hWnd : HWnd} {call : WindowCall} (h : Repaints (.on hWnd call)) :
    call.pictures windows i = frames windows := by
  cases call with
  | destroyWindow => rfl
  | showWindow nCmdShow => rfl
  | updateWindow => exact absurd h id
  | setWindowText lpString => exact absurd h id
  | moveWindow x y nWidth nHeight bRepaint => exact if_pos h
  | setWindowPos x y cx cy uFlags => exact if_pos h

lemma zero_ne : (0 : UInt8) ≠ 1 := by decide

/-- One call, when the backbuffer shows the windows before it. -/
theorem step_shows_iff (hs : backbuffer start s.os = picture start s.os.windows) {call : TableCall}
    (hr : Repaints call) :
    backbuffer start (s.step call).os = picture start (s.step call).os.windows ↔ Clean start s call := by
  cases call with
  | register wc => exact absurd hr id
  | create a =>
    rcases create_spec s.os a with ⟨hcall, hcase⟩ | ⟨k, i, hclass, hfree, hcall⟩
    · simp only [Session.step, hcall, Clean, hs, true_iff]
      intro i k hi hk
      rcases hcase with hn | hn
      · rw [hn] at hk
        cases hk
      · rw [hn] at hi
        cases hi
    · have hnone := frame_free (freeSlot_free hfree)
      obtain ⟨l, r, hold, hnew⟩ := frames_update hnone (a.window (s.os.windows i) k)
      have hlast := (paints_draw l).last_iff (paints_draw r)
        (paints_draw (frame (a.window (s.os.windows i) k)).toList) zero_ne start
      have hnew' : draw (frames (Function.update s.os.windows i (a.window (s.os.windows i) k))) =
          fun buf => draw r (draw (frame (a.window (s.os.windows i) k)).toList (draw l buf)) := by
        funext buf
        rw [hnew, draw_append, draw_append]
      rw [backbuffer, picture, hold, draw_append] at hs
      simp only [Session.step, hcall, Clean, hfree, hclass, Option.some.injEq, backbuffer, picture,
        draw_append, hs, shown, shownAlone]
      rw [hnew']
      refine hlast.trans ⟨?_, fun hall => hnew' ▸ hall i k rfl rfl⟩
      rintro hall _ _ rfl rfl
      rw [hnew']
      exact hall
  | on hWnd call =>
    cases hv : isValidWindow s.os hWnd with
    | false =>
      have hcall := perform_invalid call hv
      rw [step_on_os, hcall]
      refine ⟨fun _ i hi huse => ?_, fun _ => hs⟩
      rw [hi, isValidWindow_some, huse] at hv
      cases hv
    | true =>
      cases hWnd with
      | none => cases hv
      | some i =>
        have hcall := perform_valid call hv
        obtain ⟨after, hafter⟩ : ∃ after, after =
          Function.update s.os.windows i (call.change (s.os.windows i)) := ⟨_, rfl⟩
        rw [← hafter, repaints_pictures hr] at hcall
        have hwindows : (s.step (.on (some i) call)).os.windows = after := by rw [step_on_os, hcall]
        have hdrawn : (s.step (.on (some i) call)).os.drawn = s.os.drawn ++ frames after := by
          rw [step_on_os, hcall]
        rw [backbuffer] at hs
        rw [backbuffer, hdrawn, draw_append, hs, hwindows, picture, picture,
          (paints_draw _).again_iff (paints_draw _) zero_ne start]
        constructor
        · rintro hall _ ⟨⟩ -
          rw [← hafter]
          exact hall
        · intro hall
          have hclean := hall i rfl hv
          rw [← hafter] at hclean
          exact hclean

lemma Start.shows (h : Start s) (start : Backbuffer) : backbuffer start s.os = picture start s.os.windows := by
  have hframes : frames s.os.windows = [] := List.filterMap_eq_nil_iff.mpr fun i _ => h.hidden i
  rw [backbuffer, picture, h.drawn, hframes]

/-- A whole run. -/
theorem run_shows_iff {calls : List TableCall} (hs : backbuffer start s.os = picture start s.os.windows)
    (hr : ∀ call ∈ calls, Repaints call) :
    (∀ pre, pre <+: calls → backbuffer start (s.run pre).os = picture start (s.run pre).os.windows) ↔
      CleanRun start s calls := by
  induction calls generalizing s with
  | nil =>
    refine ⟨fun _ => trivial, fun _ pre hpre => ?_⟩
    rw [List.prefix_nil.mp hpre]
    exact hs
  | cons call calls ih =>
    have hstep := step_shows_iff hs (hr call (by simp))
    have hrest : ∀ call ∈ calls, Repaints call := fun c hc => hr c (by simp [hc])
    constructor
    · intro hall
      have hone := hall [call] ⟨calls, rfl⟩
      refine ⟨hstep.mp hone, (ih hone hrest).mp fun pre hpre => ?_⟩
      exact hall (call :: pre) (List.cons_prefix_cons.mpr ⟨rfl, hpre⟩)
    · rintro ⟨hclean, hcleanRun⟩ pre hpre
      cases pre with
      | nil => exact hs
      | cons c pre =>
        obtain ⟨rfl, htail⟩ := List.cons_prefix_cons.mp hpre
        exact (ih (hstep.mpr hclean) hrest).mpr hcleanRun pre htail

/-- From a desktop without visible windows on: after every call the backbuffer shows the windows
over what it held at the start, just if every call is clean. Two histories of clean calls that lead
to the same windows lead to the same backbuffer. -/
theorem redraw_window_set (start : Backbuffer) {s₁ s₂ : Session} (h₁ : Start s₁) (h₂ : Start s₂)
    {calls₁ calls₂ : List TableCall} (hr₁ : ∀ call ∈ calls₁, Repaints call) (hr₂ : ∀ call ∈ calls₂, Repaints call) :
    ((∀ pre, pre <+: calls₁ → backbuffer start (s₁.run pre).os = picture start (s₁.run pre).os.windows) ↔
      CleanRun start s₁ calls₁) ∧
    (CleanRun start s₁ calls₁ → CleanRun start s₂ calls₂ →
      (s₁.run calls₁).os.windows = (s₂.run calls₂).os.windows →
      backbuffer start (s₁.run calls₁).os = backbuffer start (s₂.run calls₂).os) := by
  have hrun₁ := run_shows_iff (h₁.shows start) hr₁
  have hrun₂ := run_shows_iff (h₂.shows start) hr₂
  refine ⟨hrun₁, fun hc₁ hc₂ hsame => ?_⟩
  rw [hrun₁.mpr hc₁ calls₁ List.prefix_rfl, hrun₂.mpr hc₂ calls₂ List.prefix_rfl, hsame]

/-- The first window of a desktop covers nothing and is covered by nothing. -/
lemma Start.clean_create (h : Start s) (start : Backbuffer) (a : CreateArgs) : Clean start s (.create a) := by
  intro i k _ _ window p color hcolor
  obtain ⟨l, r, hold, hnew⟩ := frames_update (h.hidden i) window
  have hframes : frames s.os.windows = [] := List.filterMap_eq_nil_iff.mpr fun i _ => h.hidden i
  rw [hframes] at hold
  obtain ⟨rfl, rfl⟩ := List.append_eq_nil_iff.mp hold.symm
  rw [List.nil_append, List.append_nil] at hnew
  rw [shown, hnew]
  exact hcolor

/-- A desktop with one class. -/
def oneClass : Session := Session.boot.step (.register (some ⟨some 1, some [65]⟩))

/-- A window of one pixel and its shadow. -/
def pixelWindow : CreateArgs := ⟨0, some [65], none, wsVisible, 0, 0, 1, 1⟩

lemma oneClass_start : Start oneClass := ⟨fun _ => rfl, rfl⟩


lemma pixelWindow_shown : (oneClass.run [.create pixelWindow, .on (some 0) (.showWindow swShow)]).os.windows =
    (oneClass.run [.create pixelWindow]).os.windows :=
  Function.update_eq_self 0 (oneClass.run [.create pixelWindow]).os.windows

/-- A window, and the same window after all windows were drawn again. -/
theorem redraw_window_set_one :
    (oneClass.run [.create pixelWindow, .on (some 0) (.showWindow swShow)]).os.drawn.length = 2 ∧
    backbuffer (fun _ => 0) (oneClass.run [.create pixelWindow]).os =
      backbuffer (fun _ => 0) (oneClass.run [.create pixelWindow, .on (some 0) (.showWindow swShow)]).os := by
  have hcreate := oneClass_start.clean_create (fun _ => 0) pixelWindow
  have hshow : Clean (fun _ => 0) (oneClass.run [.create pixelWindow]) (.on (some 0) (.showWindow swShow)) := by
    rintro _ ⟨⟩ - _ p color hbefore hafter
    rw [← pixelWindow_shown] at hbefore
    exact absurd (hbefore.symm.trans hafter) (by simp)
  refine ⟨rfl, (redraw_window_set (fun _ => 0) oneClass_start oneClass_start ?_ ?_).2 ⟨hcreate, trivial⟩
    ⟨hcreate, hshow, trivial⟩ pixelWindow_shown.symm⟩
  · simp [Repaints]
  · simp [Repaints]

/-- A window that is created and destroyed leaves its pixels. -/
theorem redraw_window_set_stale : Start oneClass ∧
    (∀ call ∈ [TableCall.create pixelWindow, .on (some 0) .destroyWindow], Repaints call) ∧
    (oneClass.run [.create pixelWindow, .on (some 0) .destroyWindow]).os.windows = (oneClass.run []).os.windows ∧
    backbuffer (fun _ => 0) (oneClass.run [.create pixelWindow, .on (some 0) .destroyWindow]).os 0 = white ∧
    backbuffer (fun _ => 0) (oneClass.run []).os 0 = 0 := by
  refine ⟨oneClass_start, by simp [Repaints], ?_, by decide +kernel, rfl⟩
  have htwice : (oneClass.run [.create pixelWindow, .on (some 0) .destroyWindow]).os.windows =
      Function.update (Function.update oneClass.os.windows 0 (pixelWindow.window .zero 0)) 0 .zero := rfl
  rw [htwice, Function.update_idem]
  exact Function.update_eq_self 0 oneClass.os.windows

end Runs

end SBoy28.Windows
