import SBoy28.Desktop.Refinement
import SBoy28.Windows.Layers

/-!
# The frames of the desktop

A frame is painted over the frame before, with its cursor. Still, what is on the screen depends on nothing but the
shell, the time and the mouse: the background and the taskbar leave no pixel free.
-/

namespace SBoy28.Desktop
open Lib Windows Ps2

section Specification

/-- The entries of the menu, with their distances from its upper edge. -/
def labels : List (ℤ × CString) :=
  [(16, literal "Console"), (28, literal "Task Manager"), (40, literal "Settings"), (52, literal "End Session"),
    (64, literal "Shut Down"), (76, literal "Restart")]

def labelLayer (label : ℤ × CString) : ℕ → Option UInt8 := textLayer 12 (92 + label.1) label.2.1 white

def menuLayers : List (ℕ → Option UInt8) :=
  labels.reverse.map labelLayer ++ titledLayers ⟨4, 92, 146, 92⟩ (literal "Menu")

def windowLayers (app : App) : List (ℕ → Option UInt8) :=
  [textLayer 70 62 app.title.1 white, textLayer 70 46 (literal "Window opened from Start menu").1 white,
    textLayer 248 29 (literal "X").1 white, rectLayer ⟨246, 28, 10, 8⟩ brightRed] ++
    titledLayers ⟨60, 26, 200, 110⟩ app.title

def taskbarLayers (menuOpen : Bool) : List (ℕ → Option UInt8) :=
  [textLayer 10 188 (literal "Start").1 black, outlineLayer ⟨4, 186, 46, 12⟩ white,
    rectLayer ⟨4, 186, 46, 12⟩ (if menuOpen then brightCyan else grey), rectLayer ⟨0, 184, 320, 16⟩ darkGrey]

def backgroundLayers : List (ℕ → Option UInt8) :=
  [rectLayer ⟨0, 120, 320, 64⟩ green, rectLayer ⟨0, 0, 320, 184⟩ cyan]

/-- From the cursor down to the sky. -/
def frameLayers (shell : Shell) (seen : Seen) : List (ℕ → Option UInt8) :=
  [cursorLayer seen.mx.toInt seen.my.toInt seen.pressed] ++ (if shell.menuOpen then menuLayers else []) ++
    shell.window.elim [] windowLayers ++ [textLayer 256 188 (string seen.now 8) white] ++
    taskbarLayers shell.menuOpen ++ backgroundLayers

def picture (shell : Shell) (seen : Seen) : Backbuffer := overlay (fun _ => 0) (frameLayers shell seen)

/-- What is on the screen in the end: the frame of the last round, or a message over the frame before. -/
def Shell.display (ground : Backbuffer) (shell : Shell) : List Seen → Backbuffer
  | [] => ground
  | seen :: rest =>
    match seen.events.foldlM Shell.step shell with
    | .ok shell => shell.display (picture shell seen) rest
    | .error halt => overlay ground (titledLayers ⟨100, 80, 140, 20⟩ (farewell halt))

end Specification

section Layers

variable {shell : Shell}

lemma textOut_piles {x y : Int32} {px py : ℤ} (hx : x.toInt = px) (hy : y.toInt = py) (str : CString) (c : Int32)
    (h0 : 0 < c.toInt) (h : c.toInt < 255) (hstr : string (CString.chars str) c.toInt.toNat = str.1) :
    Piles (fun buf => textOut buf x y str c) [textLayer px py str.1 white] := by
  subst hx hy
  have hpiles := piles_textOut x y (CString.chars str) h0 h
  rw [hstr] at hpiles
  exact hpiles

lemma label_piles (k : Int32) (offset : ℤ) (hk : (92 + k).toInt = 92 + offset) (str : CString) (c : Int32)
    (h0 : 0 < c.toInt) (h : c.toInt < 255) (hstr : string (CString.chars str) c.toInt.toNat = str.1) :
    Piles (fun buf => textOut buf 12 (92 + k) str c) [labelLayer (offset, str)] :=
  textOut_piles rfl hk str c h0 h hstr

lemma piles_menu (shell : Shell) : Piles (fun buf => drawStartMenu shell.state buf) menuLayers := by
  have hrect : osRect desktopInit.startMenu = ⟨4, 92, 146, 92⟩ := by decide
  have hrect : osRect shell.state.startMenu = ⟨4, 92, 146, 92⟩ := hrect
  have hx : shell.state.startMenu.left + 8 = 12 := rfl
  have hy : shell.state.startMenu.top = 92 := rfl
  have hwindow : WindowFits ⟨4, 92, 146, 92⟩ :=
    ⟨⟨by decide, by decide⟩, ⟨by decide, by decide⟩, ⟨by decide, by decide⟩⟩
  unfold drawStartMenu
  dsimp only
  rw [hrect, hx, hy]
  have hconsole := label_piles 16 16 rfl (literal "Console") 7 (by decide) (by decide) rfl
  have htasks := label_piles 28 28 rfl (literal "Task Manager") 12 (by decide) (by decide) rfl
  have hsettings := label_piles 40 40 rfl (literal "Settings") 8 (by decide) (by decide) rfl
  have hsession := label_piles 52 52 rfl (literal "End Session") 11 (by decide) (by decide) rfl
  have hshutdown := label_piles 64 64 rfl (literal "Shut Down") 9 (by decide) (by decide) rfl
  have hrestart := label_piles 76 76 rfl (literal "Restart") 7 (by decide) (by decide) rfl
  exact ((((((piles_window hwindow (literal "Menu")).comp hconsole).comp htasks).comp hsettings).comp hsession).comp
    hshutdown).comp hrestart

lemma piles_app {app : App} (h : shell.window = some app) :
    Piles (fun buf => drawActiveWindow shell.state buf) (windowLayers app) := by
  have hwindow : WindowFits ⟨60, 26, 200, 110⟩ :=
    ⟨⟨by decide, by decide⟩, ⟨by decide, by decide⟩, ⟨by decide, by decide⟩⟩
  have hclose : EdgesFit ⟨246, 28, 10, 8⟩ := ⟨by decide, by decide⟩
  have hrect : osRect desktopInit.activeWindow = ⟨60, 26, 200, 110⟩ := by decide
  have hrect : osRect shell.state.activeWindow = ⟨60, 26, 200, 110⟩ := hrect
  have hbutton : osRect desktopInit.closeButton = ⟨246, 28, 10, 8⟩ := by decide
  have hbutton : osRect shell.state.closeButton = ⟨246, 28, 10, 8⟩ := hbutton
  have htitle : shell.state.activeWindowTitle = app.title := by
    change shell.window.elim _ App.title = _
    rw [h]
    rfl
  have hcloseX : shell.state.closeButton.left + 2 = 248 := rfl
  have hcloseY : shell.state.closeButton.top + 1 = 29 := rfl
  have hx : shell.state.activeWindow.left + 10 = 70 := rfl
  have hy : shell.state.activeWindow.top = 26 := rfl
  unfold drawActiveWindow
  dsimp only
  rw [hrect, hbutton, htitle, hcloseX, hcloseY, hx, hy]
  have hcross : Piles (fun buf => textOut buf 248 29 (literal "X") 1) [textLayer 248 29 (literal "X").1 white] :=
    textOut_piles rfl rfl _ _ (by decide) (by decide) rfl
  have hline : Piles (fun buf => textOut buf 70 (26 + 20) (literal "Window opened from Start menu") 29)
      [textLayer 70 46 (literal "Window opened from Start menu").1 white] :=
    textOut_piles rfl rfl _ _ (by decide) (by decide) rfl
  have happ : Piles (fun buf => textOut buf 70 (26 + 36) app.title (Int32.ofNat app.title.1.length))
      [textLayer 70 62 app.title.1 white] := by
    cases app <;> exact textOut_piles rfl rfl _ _ (by decide) (by decide) rfl
  exact ((((piles_window hwindow app.title).comp (piles_fill hclose brightRed)).comp hcross).comp hline).comp happ

lemma piles_taskbar (menuOpen : Bool) :
    Piles (fun buf => osGuiDrawTaskbar buf menuOpen) (taskbarLayers menuOpen) := by
  have hbar : EdgesFit ⟨0, 184, 320, 16⟩ := ⟨by decide, by decide⟩
  have hbutton : EdgesFit ⟨4, 186, 46, 12⟩ := ⟨by decide, by decide⟩
  have hstart := piles_text 10 188 (literal "Start") black
  exact (((piles_fill hbar darkGrey).comp (piles_fill hbutton (if menuOpen then brightCyan else grey))).comp
    (piles_outline ⟨4, 186, 46, 12⟩ white)).comp hstart

lemma piles_background : Piles (fun buf => osGuiDrawDesktopBackground buf) backgroundLayers := by
  have hsky : EdgesFit ⟨0, 0, 320, 184⟩ := ⟨by decide, by decide⟩
  have hground : EdgesFit ⟨0, 120, 320, 64⟩ := ⟨by decide, by decide⟩
  have hall := (piles_fill hsky cyan).comp (piles_fill hground green)
  exact hall

lemma piles_clock (now : ℕ → UInt8) :
    Piles (fun buf => drawClock buf now) [textLayer 256 188 (string now 8) white] := by
  have hclock := piles_textOut 256 188 now (c := 8) (by decide) (by decide)
  have hcount : (8 : Int32).toInt.toNat = 8 := rfl
  have hx : (256 : Int32).toInt = 256 := rfl
  have hy : (188 : Int32).toInt = 188 := rfl
  rw [hcount, hx, hy] at hclock
  exact hclock

/-- All that is painted for a frame, without the cursor. -/
lemma piles_desktop (shell : Shell) (now : ℕ → UInt8) : Piles (fun buf => drawDesktop shell.state now buf)
    ((if shell.menuOpen then menuLayers else []) ++ shell.window.elim [] windowLayers ++
      [textLayer 256 188 (string now 8) white] ++ taskbarLayers shell.menuOpen ++ backgroundLayers) := by
  have hwindow : shell.state.activeWindowOpen = shell.window.isSome := rfl
  have hopen : shell.state.startMenuOpen = shell.menuOpen := rfl
  have happ : Piles (fun buf => if shell.window.isSome then drawActiveWindow shell.state buf else buf)
      (shell.window.elim [] windowLayers) := by
    cases happ : shell.window with
    | none =>
      simp only [Option.isSome_none, Bool.false_eq_true, if_false]
      exact Piles.id
    | some app =>
      simp only [Option.isSome_some, if_true]
      exact piles_app happ
  have hmenu : Piles (fun buf => if shell.menuOpen then drawStartMenu shell.state buf else buf)
      (if shell.menuOpen then menuLayers else []) := by
    cases shell.menuOpen with
    | false =>
      simp only [Bool.false_eq_true, if_false]
      exact Piles.id
    | true =>
      simp only [if_true]
      exact piles_menu shell
  have hall := (((piles_background.comp (piles_taskbar shell.menuOpen)).comp (piles_clock now)).comp happ).comp hmenu
  unfold drawDesktop
  dsimp only
  rw [hwindow, hopen]
  simp only [List.append_assoc] at hall ⊢
  exact hall

lemma piles_frame (shell : Shell) (seen : Seen) (hx : 0 ≤ seen.mx.toInt ∧ seen.mx.toInt < 320)
    (hy : 0 ≤ seen.my.toInt ∧ seen.my.toInt < 200) :
    Piles (fun buf => painted shell.state seen buf) (frameLayers shell seen) := by
  have hcursor := (covers_cursor hx hy seen.pressed).piles (fills_cursor seen.mx seen.my seen.pressed)
  have hall := (piles_desktop shell seen.now).comp hcursor
  unfold frameLayers
  simp only [List.append_assoc] at hall ⊢
  exact hall

/-- The background and the taskbar cover the screen. -/
lemma frame_covered (shell : Shell) (seen : Seen) {p : ℕ} (hp : p < vgaSize) :
    ∃ layer ∈ frameLayers shell seen, (layer p).isSome := by
  unfold vgaSize at hp
  by_cases hbar : p < 58880
  · refine ⟨rectLayer ⟨0, 0, 320, 184⟩ cyan, by simp [frameLayers, backgroundLayers], ?_⟩
    unfold rectLayer screenLayer
    rw [if_pos]
    · rfl
    · refine ⟨hp, ?_⟩
      change 0 ≤ ((p % 320 : ℕ) : ℤ) ∧ ((p % 320 : ℕ) : ℤ) < 0 + 320 ∧ 0 ≤ ((p / 320 : ℕ) : ℤ) ∧
        ((p / 320 : ℕ) : ℤ) < 0 + 184
      omega
  · refine ⟨rectLayer ⟨0, 184, 320, 16⟩ darkGrey, by simp [frameLayers, taskbarLayers], ?_⟩
    unfold rectLayer screenLayer
    rw [if_pos]
    · rfl
    · refine ⟨hp, ?_⟩
      change 0 ≤ ((p % 320 : ℕ) : ℤ) ∧ ((p % 320 : ℕ) : ℤ) < 0 + 320 ∧ 184 ≤ ((p / 320 : ℕ) : ℤ) ∧
        ((p / 320 : ℕ) : ℤ) < 184 + 16
      omega

/-- A frame does not depend on what was in the backbuffer. -/
lemma painted_eq (shell : Shell) (seen : Seen) (hx : 0 ≤ seen.mx.toInt ∧ seen.mx.toInt < 320)
    (hy : 0 ≤ seen.my.toInt ∧ seen.my.toInt < 200) (backbuffer : Backbuffer) {p : ℕ} (hp : p < vgaSize) :
    painted shell.state seen backbuffer p = picture shell seen p := by
  have hframe := piles_frame shell seen hx hy backbuffer
  dsimp only at hframe
  rw [hframe]
  exact overlay_covered (frame_covered shell seen hp)

end Layers

section Runs

variable {m : Machine} {shell : Shell} {mouse : Mouse}

/-- The machine when a run is over. -/
def lastMachine : Outcome → Machine
  | .ok m => m
  | .error (_, m) => m

lemma cursor_onScreen (h : Tracked mouse) (input : Input) :
    (0 ≤ (see mouse input).1.mx.toInt ∧ (see mouse input).1.mx.toInt < 320) ∧
      0 ≤ (see mouse input).1.my.toInt ∧ (see mouse input).1.my.toInt < 200 := by
  have hcleared := ((h.interrupts (input.irqs 0)).interrupts (input.irqs 1)).consume
  have hcursor : ∀ {mouse : Mouse}, Tracked mouse → OnScreen (interrupts mouse (input.irqs 4)) ∧
      OnScreen (interrupts (interrupts mouse (input.irqs 4)) (input.irqs 5)) :=
    fun h => ⟨(h.interrupts _).onScreen, ((h.interrupts _).interrupts _).onScreen⟩
  unfold see
  dsimp only
  split
  · obtain ⟨⟨hx0, hx, -⟩, -, -, hy0, hy⟩ := hcursor ((hcleared.interrupts (input.irqs 2)).interrupts (input.irqs 3))
    exact ⟨⟨hx0, hx⟩, hy0, hy⟩
  · obtain ⟨⟨hx0, hx, -⟩, -, -, hy0, hy⟩ := hcursor hcleared
    exact ⟨⟨hx0, hx⟩, hy0, hy⟩

/-- A round in which the program does not end leaves its frame in the backbuffer and on the screen. -/
lemma round_frame {shell' : Shell} {input : Input} (h : Represents m shell) (ht : Tracked m.mouse)
    (hevents : (see m.mouse input).1.events.foldlM Shell.step shell = .ok shell') (n : ℕ) :
    ∃ m', round (n + 2) m input = some (.ok m') ∧ Represents m' shell' ∧ m'.mouse = (see m.mouse input).2 ∧
      (∀ p < vgaSize, m'.backbuffer p = picture shell' (see m.mouse input).1 p) ∧
        ∀ p < vgaSize, m'.vgaMem p = picture shell' (see m.mouse input).1 p := by
  have hround := round_spec h ht input n
  rw [hevents] at hround
  obtain ⟨m', hround, hrep, hmouse, hpainted, hrender⟩ := hround
  obtain ⟨hx, hy⟩ := cursor_onScreen ht input
  have hpicture : ∀ p < vgaSize, m'.backbuffer p = picture shell' (see m.mouse input).1 p := by
    intro p hp
    rw [hpainted]
    exact painted_eq shell' _ hx hy m.backbuffer hp
  refine ⟨m', hround, hrep, hmouse, hpicture, fun p hp => ?_⟩
  rw [hrender, vgaRender_of_lt _ _ hp]
  exact hpicture p hp

lemma piles_farewell (halt : Halt) : Piles (fun buf => osGuiDrawTitledWindow buf ⟨100, 80, 140, 20⟩ (farewell halt))
    (titledLayers ⟨100, 80, 140, 20⟩ (farewell halt)) :=
  piles_window ⟨⟨by decide, by decide⟩, ⟨by decide, by decide⟩, ⟨by decide, by decide⟩⟩ (farewell halt)

lemma display_run {ground : Backbuffer} (h : Represents m shell) (ht : Tracked m.mouse)
    (hbuffer : ∀ p < vgaSize, m.backbuffer p = ground p) (hmem : ∀ p < vgaSize, m.vgaMem p = ground p)
    (inputs : List Input) (n : ℕ) : ∃ outcome, run (n + 2) m inputs = some outcome ∧
      ∀ p < vgaSize, (lastMachine outcome).vgaMem p = shell.display ground (visible m.mouse inputs) p := by
  induction inputs generalizing m shell ground with
  | nil => exact ⟨.ok m, rfl, hmem⟩
  | cons input inputs ih =>
    rw [run, visible]
    unfold Shell.display
    cases hevents : (see m.mouse input).1.events.foldlM Shell.step shell with
    | ok shell' =>
      obtain ⟨m', hround, hrep, hmouse, hpicture, hshown⟩ := round_frame h ht hevents n
      rw [hround, ← hmouse]
      exact ih hrep (hmouse ▸ ht.see input) hpicture hshown
    | error halt =>
      have hround := round_spec h ht input n
      rw [hevents] at hround
      obtain ⟨m', hround, hpainted, hrender⟩ := hround
      have hfarewell := piles_farewell halt m.backbuffer
      dsimp only at hfarewell
      rw [hround]
      refine ⟨_, rfl, fun p hp => ?_⟩
      change m'.vgaMem p = overlay ground _ p
      rw [hrender, vgaRender_of_lt _ _ hp, hpainted, hfarewell, overlay, overlay, hbuffer p hp]

/-- The menu is closed in the beginning, and so the program cannot end in its first round. -/
lemma first_round (mouse : Mouse) (input : Input) :
    ∃ shell, (see mouse input).1.events.foldlM Shell.step Shell.start = .ok shell := by
  have hclick : ∀ x y, ∃ shell, Shell.start.click x y = .ok shell := by
    intro x y
    unfold Shell.click
    by_cases hbutton : OnStartButton x y
    · exact ⟨_, if_pos hbutton⟩
    · refine ⟨⟨false, none⟩, ?_⟩
      rw [if_neg hbutton, if_neg fun hc => Bool.false_ne_true hc.1, if_neg fun hc => Bool.false_ne_true hc.1]
      rfl
  unfold see
  dsimp only
  split
  · obtain ⟨shell, hshell⟩ := hclick
      (interrupts { interrupts (interrupts mouse (input.irqs 0)) (input.irqs 1) with leftClickPending := false }
        (input.irqs 2)).mouseX.toInt
      (interrupts (interrupts { interrupts (interrupts mouse (input.irqs 0)) (input.irqs 1) with
        leftClickPending := false } (input.irqs 2)) (input.irqs 3)).mouseY.toInt
    rw [List.singleton_append, List.foldlM_cons, Shell.step, hshell]
    change ∃ shell', List.foldlM Shell.step shell _ = .ok shell'
    exact ⟨_, foldlM_key shell _⟩
  · exact ⟨_, foldlM_key Shell.start _⟩

/-- After every round the screen shows the frame of the shell, with no trace of the frames before; when the program
ends, its message lies over the last frame. -/
theorem desktop_frames (c : Controller) (calls : List MouseCall) (backbuffer vgaMem : Backbuffer) (input : Input)
    (inputs : List Input) (n : ℕ) :
    ∃ m outcome, start (calls.foldl Mouse.call (mouseInit startMouse c).1) backbuffer vgaMem = some m ∧
      run (n + 2) m (input :: inputs) = some outcome ∧ ∀ p < vgaSize, (lastMachine outcome).vgaMem p =
        Shell.start.display (fun _ => 0) (visible m.mouse (input :: inputs)) p := by
  obtain ⟨m, hstart, hrep, hmouse⟩ := start_spec (calls.foldl Mouse.call (mouseInit startMouse c).1) backbuffer vgaMem
  have hx : 0 ≤ startMouse.mouseX ∧ startMouse.mouseX < mouseScreenW := by decide
  have hy : 0 ≤ startMouse.mouseY ∧ startMouse.mouseY < mouseScreenH := by decide
  have htracked : Tracked m.mouse := ⟨_, hmouse ▸ (follows_init hx hy c).run calls⟩
  obtain ⟨shell, hevents⟩ := first_round m.mouse input
  obtain ⟨m', hround, hrep', hmouse', hpicture, hshown⟩ := round_frame hrep htracked hevents n
  obtain ⟨outcome, hrun, hall⟩ := display_run hrep' (hmouse' ▸ htracked.see input) hpicture hshown inputs n
  refine ⟨m, outcome, hstart, ?_, ?_⟩
  · rw [run, hround]
    exact hrun
  · rw [visible, Shell.display, hevents, ← hmouse']
    exact hall

end Runs

end SBoy28.Desktop
