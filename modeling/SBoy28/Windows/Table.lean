import Mathlib.Data.Fintype.Card
import SBoy28.Lib.Memory
import SBoy28.Windows.Delivery

/-!
# The tables of windows and classes

A class is registered once and for all. A window belongs to a registered class and keeps its slot
until it is destroyed, and a call on a handle touches the window of that handle only.
-/

namespace SBoy28.Windows
open Lib

section Specification

/-- The calls on a handle. -/
inductive WindowCall where
  | destroyWindow
  | showWindow (nCmdShow : Int32)
  | updateWindow
  | setWindowText (lpString : Option (List UInt8))
  | moveWindow (x y nWidth nHeight : Int32) (bRepaint : Bool)
  | setWindowPos (x y cx cy : Int32) (uFlags : UInt32)

def Os.perform (os : Os) (hWnd : HWnd) : WindowCall → Bool × Os
  | .destroyWindow => destroyWindow os hWnd
  | .showWindow nCmdShow => showWindow os hWnd nCmdShow
  | .updateWindow => updateWindow os hWnd
  | .setWindowText lpString => setWindowText os hWnd lpString
  | .moveWindow x y nWidth nHeight bRepaint => moveWindow os hWnd x y nWidth nHeight bRepaint
  | .setWindowPos x y cx cy uFlags => setWindowPos os hWnd x y cx cy uFlags

inductive TableCall where
  | register (lpWndClass : Option WndClass)
  | create (args : CreateArgs)
  | on (hWnd : HWnd) (call : WindowCall)

/-- The windows, and the handles that were returned and not destroyed since. -/
structure Session where
  os : Os
  live : Finset (Fin 16)

def Session.boot : Session := ⟨.boot, ∅⟩

def Session.step (s : Session) : TableCall → Session
  | .register lpWndClass => { s with os := (registerClass s.os lpWndClass).2 }
  | .create args =>
    match s.os.create args with
    | (some i, os) => ⟨os, insert i s.live⟩
    | (none, os) => ⟨os, s.live⟩
  | .on (some i) .destroyWindow => ⟨(destroyWindow s.os (some i)).2, s.live.erase i⟩
  | .on hWnd call => { s with os := (s.os.perform hWnd call).2 }

def Session.run (s : Session) (calls : List TableCall) : Session := calls.foldl Session.step s

/-- What the callers rely on. -/
structure WindowTable (s : Session) : Prop where
  create_free : ∀ args i, (s.os.create args).1 = some i → i ∉ s.live
  create_null : ∀ args,
    (s.os.create args).1 = none ↔ findClassByName s.os args.className = none ∨ s.live = Finset.univ
  created : ∀ args i, (s.os.create args).1 = some i →
    ((s.os.create args).2.windows i).windowClass = findClassByName s.os args.className
  classed : ∀ i ∈ s.live, ∃ k proc, (s.os.windows i).windowClass = some k ∧
    ∀ calls, ((s.run calls).os.classes k).inUse = true ∧ ((s.run calls).os.classes k).wndProc = some proc ∧
      (TableCall.on (some i) .destroyWindow ∉ calls →
        i ∈ (s.run calls).live ∧ ((s.run calls).os.windows i).windowClass = some k)
  atoms : ∀ k, (s.os.classes k).inUse = true → (s.os.classes k).atom ≠ 0 ∧
    ∀ k', (s.os.classes k').inUse = true → (s.os.classes k).atom = (s.os.classes k').atom → k = k'
  frame : ∀ hWnd (call : WindowCall), (s.os.perform hWnd call).2.classes = s.os.classes ∧
    ∀ j, hWnd ≠ some j → (s.os.perform hWnd call).2.windows j = s.os.windows j
  refused : ∀ hWnd (call : WindowCall), (∀ i, hWnd = some i → i ∉ s.live) →
    s.os.perform hWnd call = (false, s.os)

end Specification

variable {os os' : Os} {s : Session} {i : Fin 16} {hWnd : HWnd}

section Calls

/-- The picture that is drawn of a window. -/
def frame (window : Window) : Option (Rect × (ℕ → UInt8)) :=
  if !window.inUse || !window.visible then none
  else
    some (⟨window.bounds.left, window.bounds.top, window.bounds.right - window.bounds.left,
      window.bounds.bottom - window.bounds.top⟩, window.title)

lemma drawWindow_eq (os : Os) (i : Fin 16) :
    drawWindow os i = { os with drawn := os.drawn ++ (frame (os.windows i)).toList } := by
  unfold drawWindow frame
  by_cases h : (!(os.windows i).inUse || !(os.windows i).visible) = true
  · simp [h]
  · simp only [h]
    rfl

/-- `redraw_desktop` draws the windows in the order of their slots. -/
def frames (windows : Fin 16 → Window) : List (Rect × (ℕ → UInt8)) :=
  (List.finRange 16).filterMap fun i => frame (windows i)

lemma redrawDesktop_eq (os : Os) : redrawDesktop os = { os with drawn := os.drawn ++ frames os.windows } := by
  rw [redrawDesktop, frames]
  induction List.finRange 16 generalizing os with
  | nil => simp
  | cons i l ih =>
    rw [List.foldl_cons, ih, drawWindow_eq]
    cases hf : frame (os.windows i) <;> simp [hf]

/-- How a call changes the record of its window. -/
def WindowCall.change : WindowCall → Window → Window
  | destroyWindow, _ => .zero
  | showWindow nCmdShow, window => { window with visible := nCmdShow != swHide }
  | updateWindow, window => window
  | setWindowText (some name), window =>
    { window with title := Function.update (strncpy window.title name 127) 127 0 }
  | setWindowText none, window => { window with title := Function.update window.title 0 0 }
  | moveWindow x y nWidth nHeight _, window => { window with bounds := ⟨x, y, x + nWidth, y + nHeight⟩ }
  | setWindowPos x y cx cy uFlags, window =>
    let bounds := if uFlags &&& swpNomove = 0 then { window.bounds with left := x, top := y } else window.bounds
    { window with bounds :=
        if uFlags &&& swpNosize = 0 then { bounds with right := bounds.left + cx, bottom := bounds.top + cy }
        else bounds }

/-- What a call draws, given the new windows. -/
def WindowCall.pictures (windows : Fin 16 → Window) (i : Fin 16) : WindowCall → List (Rect × (ℕ → UInt8))
  | updateWindow | setWindowText _ => (frame (windows i)).toList
  | moveWindow _ _ _ _ bRepaint => if bRepaint then frames windows else []
  | setWindowPos _ _ _ _ uFlags => if uFlags &&& swpNoredraw = 0 then frames windows else []
  | destroyWindow | showWindow _ => frames windows

lemma perform_invalid (call : WindowCall) (h : isValidWindow os hWnd = false) :
    os.perform hWnd call = (false, os) := by
  cases hWnd with
  | none => cases call <;> rfl
  | some i =>
    rw [isValidWindow_some] at h
    cases call <;> simp [Os.perform, destroyWindow, showWindow, updateWindow, setWindowText, moveWindow,
      setWindowPos, onWindow, h]

/-- A call on a valid handle. -/
theorem perform_valid (call : WindowCall) (h : (os.windows i).inUse = true) :
    os.perform (some i) call = (true, { os with
      windows := Function.update os.windows i (call.change (os.windows i))
      drawn := os.drawn ++
        call.pictures (Function.update os.windows i (call.change (os.windows i))) i }) := by
  cases call with
  | destroyWindow =>
    simp [Os.perform, destroyWindow, h, redrawDesktop_eq, WindowCall.change, WindowCall.pictures]
  | showWindow nCmdShow =>
    simp [Os.perform, showWindow, onWindow, h, redrawDesktop_eq, WindowCall.change, WindowCall.pictures]
  | updateWindow =>
    simp [Os.perform, updateWindow, onWindow, h, drawWindow_eq, WindowCall.change, WindowCall.pictures]
  | setWindowText lpString =>
    cases lpString <;>
      simp [Os.perform, setWindowText, onWindow, h, drawWindow_eq, WindowCall.change, WindowCall.pictures]
  | moveWindow x y nWidth nHeight bRepaint =>
    cases bRepaint <;>
      simp [Os.perform, moveWindow, onWindow, h, redrawDesktop_eq, WindowCall.change, WindowCall.pictures]
  | setWindowPos x y cx cy uFlags =>
    by_cases hf : uFlags &&& swpNoredraw = 0 <;>
      simp [Os.perform, setWindowPos, onWindow, h, hf, redrawDesktop_eq, WindowCall.change,
        WindowCall.pictures]

/-- The record that `CreateWindowEx` writes into a slot. -/
def CreateArgs.window (a : CreateArgs) (old : Window) (klass : Fin 16) : Window :=
  newWindow old a.exStyle klass a.windowName a.style a.x a.y a.width a.height

/-- A call of `CreateWindowEx` fails and changes nothing, or it fills and draws the first free slot. -/
theorem create_spec (os : Os) (a : CreateArgs) :
    (os.create a = (none, os) ∧ (findClassByName os a.className = none ∨ freeSlot os = none)) ∨
    ∃ k i, findClassByName os a.className = some k ∧ freeSlot os = some i ∧ os.create a = (some i, { os with
      windows := Function.update os.windows i (a.window (os.windows i) k)
      drawn := os.drawn ++ (frame (a.window (os.windows i) k)).toList }) := by
  unfold Os.create createWindowEx
  cases hclass : findClassByName os a.className with
  | none => exact Or.inl ⟨rfl, Or.inl rfl⟩
  | some k =>
    cases hfree : freeSlot os with
    | none =>
      rw [freeSlot] at hfree
      rw [hfree]
      exact Or.inl ⟨rfl, Or.inr rfl⟩
    | some i =>
      refine Or.inr ⟨k, i, rfl, rfl, ?_⟩
      rw [freeSlot] at hfree
      rw [hfree]
      obtain ⟨window, hwindow⟩ : ∃ window, window = a.window (os.windows i) k := ⟨_, rfl⟩
      have hnew : newWindow (os.windows i) a.exStyle k a.windowName a.style a.x a.y a.width a.height = window :=
        hwindow.symm
      rw [← hwindow]
      simp only [hnew, drawWindow_eq, Function.update_self]
      by_cases hv : window.visible = true
      · rw [if_pos hv]
      · rw [if_neg hv, frame]
        simp [hv]

lemma freeSlot_free (h : freeSlot os = some i) : (os.windows i).inUse = false := by
  simpa using List.find?_some h

lemma freeSlot_none (h : freeSlot os = none) (i : Fin 16) : (os.windows i).inUse = true := by
  simpa using List.find?_eq_none.mp h i (List.mem_finRange i)

/-- A call of `RegisterClass` fails and changes nothing, or it fills the first free class. -/
theorem register_spec (os : Os) (wc : Option WndClass) : (registerClass os wc).2 = os ∨
    ∃ k proc name, (os.classes k).inUse = false ∧ (registerClass os wc).2 = { os with
      classes := Function.update os.classes k ⟨true, os.nextAtom, some proc, name⟩
      nextAtom := os.nextAtom + 1 } := by
  unfold registerClass
  split
  · rename_i proc name
    split
    · exact Or.inl rfl
    · split
      · rename_i k hfind
        exact Or.inr ⟨k, proc, _, by simpa using List.find?_some hfind, rfl⟩
      · exact Or.inl rfl
  · exact Or.inl rfl

lemma findClassByName_used {name : Option (List UInt8)} {k : Fin 16} (h : findClassByName os name = some k) :
    (os.classes k).inUse = true := by
  unfold findClassByName at h
  cases name with
  | none => cases h
  | some name =>
    have hfind := List.find?_some h
    rw [Bool.and_eq_true] at hfind
    exact hfind.1

end Calls

section Runs

/-- The classes that are in use, as a set of slots. -/
def usedClasses (os : Os) : Finset (Fin 16) := Finset.univ.filter fun k => (os.classes k).inUse = true

/-- What holds between any two calls. -/
structure SessionOk (s : Session) : Prop where
  live : ∀ i, i ∈ s.live ↔ (s.os.windows i).inUse = true
  classed : ∀ i, (s.os.windows i).inUse = true →
    ∃ k, (s.os.windows i).windowClass = some k ∧ (s.os.classes k).inUse = true
  proc : ∀ k, (s.os.classes k).inUse = true → ∃ proc, (s.os.classes k).wndProc = some proc
  atom : ∀ k, (s.os.classes k).inUse = true →
    (s.os.classes k).atom ≠ 0 ∧ (s.os.classes k).atom < s.os.nextAtom
  distinct : ∀ k k', (s.os.classes k).inUse = true → (s.os.classes k').inUse = true →
    (s.os.classes k).atom = (s.os.classes k').atom → k = k'
  next : s.os.nextAtom.toNat = (usedClasses s.os).card + 1

lemma SessionOk.boot : SessionOk Session.boot where
  live i := by simp [Session.boot, Os.boot, Window.zero]
  classed i h := by cases h
  proc k h := by cases h
  atom k h := by cases h
  distinct k k' h := by cases h
  next := by decide

/-- A registered class stays as it is. -/
def Keeps (os os' : Os) : Prop := ∀ k, (os.classes k).inUse = true → os'.classes k = os.classes k

lemma register_keeps (os : Os) (wc : Option WndClass) : Keeps os (registerClass os wc).2 := by
  intro k hk
  rcases register_spec os wc with hsame | ⟨l, proc, name, hfree, hcall⟩
  · rw [hsame]
  · rw [hcall]
    exact Function.update_of_ne (fun he => by rw [he, hfree] at hk; cases hk) _ _

lemma create_keeps (os : Os) (a : CreateArgs) : (os.create a).2.classes = os.classes := by
  rcases create_spec os a with ⟨hcall, -⟩ | ⟨k, i, -, -, hcall⟩ <;> rw [hcall]

lemma perform_frame (os : Os) (hWnd : HWnd) (call : WindowCall) : (os.perform hWnd call).2.classes = os.classes ∧
    ∀ j, hWnd ≠ some j → (os.perform hWnd call).2.windows j = os.windows j := by
  cases hv : isValidWindow os hWnd with
  | false =>
    rw [perform_invalid call hv]
    exact ⟨rfl, fun _ _ => rfl⟩
  | true =>
    cases hWnd with
    | none => cases hv
    | some i =>
      rw [perform_valid call hv]
      exact ⟨rfl, fun j hj => Function.update_of_ne (fun he => hj (by rw [he])) _ _⟩

lemma SessionOk.register (h : SessionOk s) (wc : Option WndClass) :
    SessionOk { s with os := (registerClass s.os wc).2 } := by
  rcases register_spec s.os wc with hsame | ⟨l, proc, name, hfree, hcall⟩
  · rwa [hsame]
  rw [hcall]
  have hused : usedClasses { s.os with
      classes := Function.update s.os.classes l ⟨true, s.os.nextAtom, some proc, name⟩
      nextAtom := s.os.nextAtom + 1 } = insert l (usedClasses s.os) := by
    ext k
    by_cases hk : k = l
    · simp [usedClasses, hk]
    · simp [usedClasses, hk]
  have hl : l ∉ usedClasses s.os := by simp [usedClasses, hfree]
  have hcard : (insert l (usedClasses s.os)).card ≤ 16 := by
    simpa using Finset.card_le_univ (insert l (usedClasses s.os))
  have hnext : (s.os.nextAtom + 1).toNat = s.os.nextAtom.toNat + 1 := by
    rw [Finset.card_insert_of_notMem hl, ← h.next] at hcard
    have h1 : (1 : UInt32).toNat = 1 := rfl
    rw [toNat_add_of_lt (by rw [h1]; omega), h1]
  refine ⟨h.live, ?_, ?_, ?_, ?_, ?_⟩
  · intro i hi
    obtain ⟨k, hk, huse⟩ := h.classed i hi
    refine ⟨k, hk, ?_⟩
    have hne : k ≠ l := fun he => by rw [he, hfree] at huse; cases huse
    simpa [Function.update_of_ne hne] using huse
  · intro k hk
    by_cases hkl : k = l
    · exact ⟨proc, by simp [hkl]⟩
    · simp only [Function.update_of_ne hkl] at hk ⊢
      exact h.proc k hk
  · intro k hk
    by_cases hkl : k = l
    · subst hkl
      simp only [Function.update_self, ne_eq]
      refine ⟨?_, ?_⟩
      · intro h0
        have hnext0 := h.next
        rw [h0] at hnext0
        simp at hnext0
      · rw [UInt32.lt_iff_toNat_lt, hnext]
        omega
    · simp only [Function.update_of_ne hkl] at hk ⊢
      obtain ⟨hne, hlt⟩ := h.atom k hk
      refine ⟨hne, ?_⟩
      rw [UInt32.lt_iff_toNat_lt] at hlt ⊢
      omega
  · intro k k' hk hk' hatom
    by_cases hkl : k = l
    · by_cases hkl' : k' = l
      · rw [hkl, hkl']
      · simp only [hkl, Function.update_self, Function.update_of_ne hkl'] at hatom hk'
        have hlt := (h.atom k' hk').2
        rw [← hatom] at hlt
        exact absurd hlt (UInt32.lt_irrefl _)
    · by_cases hkl' : k' = l
      · simp only [hkl', Function.update_self, Function.update_of_ne hkl] at hatom hk
        have hlt := (h.atom k hk).2
        rw [hatom] at hlt
        exact absurd hlt (UInt32.lt_irrefl _)
      · simp only [Function.update_of_ne hkl, Function.update_of_ne hkl'] at hatom hk hk'
        exact h.distinct k k' hk hk' hatom
  · rw [hused, Finset.card_insert_of_notMem hl, ← h.next]
    exact hnext

/-- The invariant does not depend on what is drawn, and a record with a used class may be written. -/
lemma SessionOk.write (h : SessionOk s) {window : Window} {live : Finset (Fin 16)} {os : Os}
    (hos : os.windows = Function.update s.os.windows i window) (hclasses : os.classes = s.os.classes)
    (hnext : os.nextAtom = s.os.nextAtom) (hlive : ∀ j, j ∈ live ↔ if j = i then window.inUse = true else j ∈ s.live)
    (hclassed : window.inUse = true → ∃ k, window.windowClass = some k ∧ (s.os.classes k).inUse = true) :
    SessionOk ⟨os, live⟩ := by
  refine ⟨?_, ?_, hclasses ▸ h.proc, ?_, hclasses ▸ h.distinct, ?_⟩
  · intro j
    rw [hlive, hos]
    by_cases hj : j = i
    · rw [if_pos hj, hj, Function.update_self]
    · rw [if_neg hj, Function.update_of_ne hj]
      exact h.live j
  · intro j hj
    simp only [hos, hclasses] at hj ⊢
    by_cases hji : j = i
    · rw [hji, Function.update_self] at hj ⊢
      exact hclassed hj
    · rw [Function.update_of_ne hji] at hj ⊢
      exact h.classed j hj
  · simp only [hclasses, hnext]
    exact h.atom
  · simp only [usedClasses, hclasses, hnext]
    exact h.next

lemma SessionOk.create (h : SessionOk s) (a : CreateArgs) : SessionOk (s.step (.create a)) := by
  rcases create_spec s.os a with ⟨hcall, -⟩ | ⟨k, i, hclass, -, hcall⟩
  · simp only [Session.step, hcall]
    exact h
  · simp only [Session.step, hcall]
    refine h.write rfl rfl rfl ?_ fun _ => ⟨k, rfl, findClassByName_used hclass⟩
    intro j
    by_cases hj : j = i
    · simp [hj, CreateArgs.window, newWindow]
    · simp [hj]

/-- A call other than `DestroyWindow` keeps what the invariant is about. -/
lemma change_same {call : WindowCall} (hne : call ≠ .destroyWindow) (window : Window) :
    (call.change window).inUse = window.inUse ∧ (call.change window).windowClass = window.windowClass := by
  cases call with
  | destroyWindow => exact absurd rfl hne
  | setWindowText lpString => cases lpString <;> exact ⟨rfl, rfl⟩
  | showWindow => exact ⟨rfl, rfl⟩
  | updateWindow => exact ⟨rfl, rfl⟩
  | moveWindow => exact ⟨rfl, rfl⟩
  | setWindowPos => exact ⟨rfl, rfl⟩

lemma step_on {hWnd : HWnd} {call : WindowCall} (hne : call ≠ .destroyWindow) :
    s.step (.on hWnd call) = { s with os := (s.os.perform hWnd call).2 } := by
  cases hWnd with
  | none => rfl
  | some i => cases call <;> first | rfl | exact absurd rfl hne

lemma SessionOk.on (h : SessionOk s) (hWnd : HWnd) (call : WindowCall) : SessionOk (s.step (.on hWnd call)) := by
  cases hv : isValidWindow s.os hWnd with
  | false =>
    have hcall := perform_invalid call hv
    by_cases hd : call = .destroyWindow
    · subst hd
      cases hWnd with
      | none => exact h
      | some i =>
        have hi : i ∉ s.live := by
          rw [h.live i, ← isValidWindow_some, hv]
          simp
        have hdestroy : destroyWindow s.os (some i) = (false, s.os) := hcall
        rw [Session.step, hdestroy, Finset.erase_eq_of_notMem hi]
        exact h
    · rw [step_on hd, hcall]
      exact h
  | true =>
    cases hWnd with
    | none => cases hv
    | some i =>
      have hcall := perform_valid call hv
      by_cases hd : call = .destroyWindow
      · subst hd
        have hdestroy : destroyWindow s.os (some i) = _ := hcall
        rw [Session.step, hdestroy]
        refine h.write rfl rfl rfl ?_ fun hc => by cases hc
        intro j
        by_cases hj : j = i
        · simp [hj, WindowCall.change, Window.zero]
        · simp [hj]
      · rw [step_on hd, hcall]
        obtain ⟨huse, hclass⟩ := change_same hd (s.os.windows i)
        refine h.write rfl rfl rfl ?_ fun _ => hclass ▸ h.classed i hv
        intro j
        by_cases hj : j = i
        · rw [if_pos hj, hj, huse]
          exact h.live i
        · rw [if_neg hj]

theorem SessionOk.step (h : SessionOk s) (call : TableCall) : SessionOk (s.step call) := by
  cases call with
  | register wc => exact h.register wc
  | create a => exact h.create a
  | on hWnd call => exact h.on hWnd call

lemma SessionOk.run (h : SessionOk s) (calls : List TableCall) : SessionOk (s.run calls) := by
  induction calls generalizing s with
  | nil => exact h
  | cons call calls ih => exact ih (h.step call)

lemma step_keeps (s : Session) (call : TableCall) : Keeps s.os (s.step call).os := by
  cases call with
  | register wc => exact register_keeps s.os wc
  | create a =>
    have hclasses := create_keeps s.os a
    intro k _
    simp only [Session.step]
    split <;> simp_all
  | on hWnd call =>
    intro k _
    by_cases hd : call = .destroyWindow
    · subst hd
      cases hWnd with
      | none => rfl
      | some i => exact congrFun (perform_frame s.os (some i) .destroyWindow).1 k
    · rw [step_on hd]
      exact congrFun (perform_frame s.os hWnd call).1 k

lemma run_keeps (s : Session) (calls : List TableCall) : Keeps s.os (s.run calls).os := by
  induction calls generalizing s with
  | nil => exact fun _ _ => rfl
  | cons call calls ih =>
    intro k hk
    have hstep := step_keeps s call k hk
    exact (ih (s.step call) k (hstep ▸ hk)).trans hstep

/-- A window that is not destroyed stays, and so does its class. -/
lemma SessionOk.step_live (h : SessionOk s) (hi : i ∈ s.live) {call : TableCall}
    (hcall : call ≠ .on (some i) .destroyWindow) : i ∈ (s.step call).live ∧
      ((s.step call).os.windows i).windowClass = (s.os.windows i).windowClass := by
  cases call with
  | register wc =>
    refine ⟨hi, ?_⟩
    simp only [Session.step]
    rcases register_spec s.os wc with hsame | ⟨k, proc, name, -, hsame⟩ <;> rw [hsame]
  | create a =>
    rcases create_spec s.os a with ⟨hsame, -⟩ | ⟨k, j, -, hfree, hsame⟩
    · simp only [Session.step, hsame]
      exact ⟨hi, trivial⟩
    · have hne : i ≠ j := by
        rintro rfl
        rw [h.live, freeSlot_free hfree] at hi
        cases hi
      simp only [Session.step, hsame]
      exact ⟨Finset.mem_insert_of_mem hi, by rw [Function.update_of_ne hne]⟩
  | on hWnd call =>
    by_cases hd : call = .destroyWindow
    · subst hd
      cases hWnd with
      | none => exact ⟨hi, rfl⟩
      | some j =>
        have hne : j ≠ i := fun he => hcall (by rw [he])
        have hframe := (perform_frame s.os (some j) .destroyWindow).2 i (by simpa using hne)
        exact ⟨Finset.mem_erase.mpr ⟨hne.symm, hi⟩, congrArg Window.windowClass hframe⟩
    · rw [step_on hd]
      refine ⟨hi, ?_⟩
      by_cases hWi : hWnd = some i
      · rw [hWi, perform_valid call ((h.live i).mp hi)]
        simpa using (change_same hd (s.os.windows i)).2
      · exact congrArg Window.windowClass ((perform_frame s.os hWnd call).2 i hWi)

lemma SessionOk.run_live (h : SessionOk s) (hi : i ∈ s.live) {calls : List TableCall}
    (hcalls : TableCall.on (some i) .destroyWindow ∉ calls) : i ∈ (s.run calls).live ∧
      ((s.run calls).os.windows i).windowClass = (s.os.windows i).windowClass := by
  induction calls generalizing s with
  | nil => exact ⟨hi, rfl⟩
  | cons call calls ih =>
    rw [List.mem_cons, not_or] at hcalls
    obtain ⟨hlive, hsame⟩ := h.step_live hi (Ne.symm hcalls.1)
    obtain ⟨hlive', hsame'⟩ := ih (h.step call) hlive hcalls.2
    exact ⟨hlive', hsame'.trans hsame⟩

/-- The tables after any sequence of calls. -/
theorem window_table (calls : List TableCall) : WindowTable (Session.boot.run calls) := by
  have h := SessionOk.boot.run calls
  refine ⟨?_, ?_, ?_, ?_, ?_, fun hWnd call => perform_frame _ hWnd call, ?_⟩
  · intro a i hi
    rcases create_spec (Session.boot.run calls).os a with ⟨hcall, -⟩ | ⟨k, j, -, hfree, hcall⟩
    · rw [hcall] at hi
      cases hi
    · rw [hcall] at hi
      rw [← Option.some.inj hi, h.live, freeSlot_free hfree]
      simp
  · intro a
    rcases create_spec (Session.boot.run calls).os a with ⟨hcall, hcase⟩ | ⟨k, j, hclass, hfree, hcall⟩
    · rw [hcall]
      refine ⟨fun _ => hcase.imp_right fun hfull => ?_, fun _ => rfl⟩
      exact Finset.eq_univ_iff_forall.mpr fun i => (h.live i).mpr (freeSlot_none hfull i)
    · rw [hcall, hclass]
      refine ⟨fun hc => (by cases hc), ?_⟩
      rintro (hc | hfull)
      · cases hc
      · have hj := (h.live j).mp (hfull ▸ Finset.mem_univ j)
        rw [freeSlot_free hfree] at hj
        cases hj
  · intro a i hi
    rcases create_spec (Session.boot.run calls).os a with ⟨hcall, -⟩ | ⟨k, j, hclass, -, hcall⟩
    · rw [hcall] at hi
      cases hi
    · rw [hcall] at hi ⊢
      obtain rfl : j = i := Option.some.inj hi
      dsimp only
      rw [Function.update_self, hclass]
      rfl
  · intro i hi
    obtain ⟨k, hk, huse⟩ := h.classed i ((h.live i).mp hi)
    obtain ⟨proc, hproc⟩ := h.proc k huse
    refine ⟨k, proc, hk, fun later => ?_⟩
    rw [run_keeps _ later k huse]
    refine ⟨huse, hproc, fun hlater => ?_⟩
    obtain ⟨hlive, hsame⟩ := h.run_live hi hlater
    exact ⟨hlive, hsame.trans hk⟩
  · exact fun k hk => ⟨(h.atom k hk).1, fun k' hk' hatom => h.distinct k k' hk hk' hatom⟩
  · intro hWnd call hdead
    refine perform_invalid call ?_
    cases hWnd with
    | none => rfl
    | some i =>
      have hi := hdead i rfl
      rw [h.live i] at hi
      simpa using hi

end Runs

end SBoy28.Windows
