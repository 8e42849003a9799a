import Mathlib.Data.List.DropRight
import SBoy28.Lib.History
import SBoy28.Windows.Classes

/-!
# Moving and sizing

A window keeps the edges of its rectangle. `SetWindowPos` with `SWP_NOSIZE` writes the left and the top
edge and leaves the other two where they were, so a move without a size changes the size.
-/

namespace SBoy28.Windows
open Lib

section Specification

/-- The calls that place a window. -/
inductive PlacementCall where
  | moveWindow (x y nWidth nHeight : Int32) (bRepaint : Bool)
  | setWindowPos (x y cx cy : Int32) (uFlags : UInt32)

def PlacementCall.toCall : PlacementCall → WindowCall
  | moveWindow x y nWidth nHeight bRepaint => .moveWindow x y nWidth nHeight bRepaint
  | setWindowPos x y cx cy uFlags => .setWindowPos x y cx cy uFlags

def PlacementCall.position : PlacementCall → Option (Int32 × Int32)
  | moveWindow x y _ _ _ => some (x, y)
  | setWindowPos x y _ _ uFlags => if uFlags &&& swpNomove = 0 then some (x, y) else none

def PlacementCall.size : PlacementCall → Option (Int32 × Int32)
  | moveWindow _ _ nWidth nHeight _ => some (nWidth, nHeight)
  | setWindowPos _ _ cx cy uFlags => if uFlags &&& swpNosize = 0 then some (cx, cy) else none

abbrev Placements := List (HWnd × PlacementCall)

def Os.place (os : Os) (calls : Placements) : Os :=
  calls.foldl (fun os c => (os.perform c.1 c.2.toCall).2) os

def given (i : Fin 16) (f : PlacementCall → Option (Int32 × Int32)) (c : HWnd × PlacementCall) :
    Option (Int32 × Int32) := if c.1 = some i then f c.2 else none

/-- The position and the size that the calls leave a window with. -/
def positionAfter (i : Fin 16) (args : CreateArgs) (calls : Placements) : Int32 × Int32 :=
  latest (given i PlacementCall.position) (args.x, args.y) calls

def sizeAfter (i : Fin 16) (args : CreateArgs) (calls : Placements) : Int32 × Int32 :=
  latest (given i PlacementCall.size) (args.width, args.height) calls

/-- The calls up to the last one that gives a size to the window. -/
def untilSized (i : Fin 16) (calls : Placements) : Placements :=
  calls.rdropWhile fun c => (given i PlacementCall.size c).isNone

/-- What the callers rely on. -/
structure Placed (os : Os) (i : Fin 16) (position size : Int32 × Int32) : Prop where
  topLeft : ((os.windows i).bounds.left, (os.windows i).bounds.top) = position
  extent : ((os.windows i).bounds.right - (os.windows i).bounds.left,
    (os.windows i).bounds.bottom - (os.windows i).bounds.top) = size

end Specification

variable {os : Os} {i : Fin 16} {args : CreateArgs} {calls : Placements}

section Steps

def PlacementCall.edges (call : PlacementCall) (bounds : Rect) : Rect :=
  let position := call.position.getD (bounds.left, bounds.top)
  match call.size with
  | some size => ⟨position.1, position.2, position.1 + size.1, position.2 + size.2⟩
  | none => ⟨position.1, position.2, bounds.right, bounds.bottom⟩

lemma change_edges (call : PlacementCall) (window : Window) :
    (call.toCall.change window).bounds = call.edges window.bounds ∧
      (call.toCall.change window).inUse = window.inUse := by
  cases call with
  | moveWindow x y nWidth nHeight bRepaint => exact ⟨rfl, rfl⟩
  | setWindowPos x y cx cy uFlags =>
    unfold PlacementCall.edges PlacementCall.position PlacementCall.size PlacementCall.toCall WindowCall.change
    by_cases hmove : uFlags &&& swpNomove = 0 <;> by_cases hsize : uFlags &&& swpNosize = 0 <;>
      simp [hmove, hsize]

lemma place_step (h : (os.windows i).inUse = true) (c : HWnd × PlacementCall) :
    ((os.perform c.1 c.2.toCall).2.windows i).inUse = true ∧
      ((os.perform c.1 c.2.toCall).2.windows i).bounds =
        if c.1 = some i then c.2.edges (os.windows i).bounds else (os.windows i).bounds := by
  by_cases hc : c.1 = some i
  · rw [hc, perform_valid c.2.toCall h, if_pos rfl]
    simp only [Function.update_self, (change_edges c.2 _).1, (change_edges c.2 _).2, h]
    exact ⟨trivial, trivial⟩
  · rw [(perform_frame os c.1 c.2.toCall).2 i hc, if_neg hc]
    exact ⟨h, rfl⟩

/-- The edges after the calls: the right and the bottom one are where the last size put them. -/
def edgesAfter (i : Fin 16) (args : CreateArgs) (calls : Placements) : Rect :=
  let position := positionAfter i args calls
  let sizedAt := positionAfter i args (untilSized i calls)
  let size := sizeAfter i args calls
  ⟨position.1, position.2, sizedAt.1 + size.1, sizedAt.2 + size.2⟩

lemma edgesAfter_concat (i : Fin 16) (args : CreateArgs) (calls : Placements) (c : HWnd × PlacementCall) :
    edgesAfter i args (calls ++ [c]) =
      if c.1 = some i then c.2.edges (edgesAfter i args calls) else edgesAfter i args calls := by
  unfold edgesAfter positionAfter sizeAfter untilSized
  rw [List.rdropWhile_concat, latest_concat, latest_concat]
  by_cases hc : c.1 = some i
  · rw [if_pos hc]
    unfold PlacementCall.edges
    cases hsize : c.2.size with
    | none => simp [given, hc, hsize]
    | some size => simp [given, hc, hsize, latest_concat]
  · simp [given, hc]

theorem place_edges (h : (os.windows i).inUse = true) (hb : (os.windows i).bounds = edgesAfter i args [])
    (calls : Placements) :
    ((os.place calls).windows i).inUse = true ∧ ((os.place calls).windows i).bounds = edgesAfter i args calls := by
  induction calls using List.reverseRecOn with
  | nil => exact ⟨h, hb⟩
  | append_singleton calls c ih =>
    have hrun : os.place (calls ++ [c]) = ((os.place calls).perform c.1 c.2.toCall).2 := by simp [Os.place]
    rw [hrun, edgesAfter_concat, ← ih.2]
    exact place_step ih.1 c

end Steps

section Laws

lemma create_edges (h : (os.create args).1 = some i) :
    (((os.create args).2).windows i).inUse = true ∧
      (((os.create args).2).windows i).bounds = edgesAfter i args [] := by
  rcases create_spec os args with ⟨hfail, -⟩ | ⟨k, j, -, -, hnew⟩
  · rw [hfail] at h
    cases h
  · rw [hnew, Option.some.injEq] at h
    subst h
    rw [hnew]
    simp only [Function.update_self, CreateArgs.window, newWindow]
    exact ⟨trivial, rfl⟩

/-- The position is always the last one that was given, and the size the last one that was given just if the
window is where it was when it got that size. -/
theorem placement_iff (h : (os.create args).1 = some i) (calls : Placements) :
    Placed ((os.create args).2.place calls) i (positionAfter i args calls) (sizeAfter i args calls) ↔
      positionAfter i args calls = positionAfter i args (untilSized i calls) := by
  obtain ⟨huse, hb⟩ := create_edges h
  have hedges := (place_edges huse hb calls).2
  have hsub : ∀ p q w : Int32, p + w - q = w ↔ q = p := by
    intro p q w
    constructor
    · intro he
      grind
    · rintro rfl
      grind
  constructor
  · intro hplaced
    have hextent := hplaced.extent
    rw [hedges] at hextent
    simp only [edgesAfter, Prod.ext_iff, hsub] at hextent
    exact Prod.ext hextent.1 hextent.2
  · intro hsame
    refine ⟨by rw [hedges]; rfl, ?_⟩
    rw [hedges]
    simp only [edgesAfter, Prod.ext_iff, hsub]
    exact ⟨congrArg Prod.fst hsame, congrArg Prod.snd hsame⟩

/-- A window of 80 by 25 pixels in the corner of the screen. -/
def cornerWindow : CreateArgs := ⟨0, some [97], none, 0, 0, 0, 80, 25⟩

theorem placement_moved : Placed ((singleClass.create cornerWindow).2.place
    [(some 0, .moveWindow 5 5 30 20 true), (some 0, .setWindowPos 5 5 0 0 swpNosize)]) 0 (5, 5) (30, 20) :=
  (placement_iff (by decide) _).mpr (by decide)

/-- A move without a size makes the window smaller. -/
theorem placement_shrinks : ¬Placed ((singleClass.create cornerWindow).2.place
    [(some 0, .setWindowPos 10 10 0 0 swpNosize)]) 0 (10, 10) (80, 25) := by
  intro h
  exact absurd h.extent (by decide)

end Laws

end SBoy28.Windows
