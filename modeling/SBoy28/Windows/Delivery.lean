import SBoy28.Windows.Model
import SBoy28.Lib.Simulation

/-!
# Messages and their windows

A handle is the address of a slot, and a slot is used again once its window was destroyed. A
message for the old window then reaches the new one. It does not happen as long as no slot is used
again while a message for it is under way, and no old handle is used afterwards.
-/

namespace SBoy28.Windows
open Lib

section Specification

/-- A message with the number of the `CreateWindowEx` call whose handle it was posted to. -/
structure Parcel where
  msg : Msg
  addressee : Option ℕ

/-- The windows and their caller: which `CreateWindowEx` call made the window of each slot, what
each of these calls returned, the addressee of the pending message, the caller's `MSG` variables,
and for each call of a window procedure the addressee and the window it was made for. -/
structure Desk where
  os : Os
  creation : Fin 16 → Option ℕ
  handle : ℕ → HWnd
  created : ℕ
  addressee : Option ℕ
  held : ℕ → Option Parcel
  passed : List (Option ℕ × Option ℕ)

/-- The arguments of `CreateWindowEx` that are used. -/
structure CreateArgs where
  exStyle : UInt32
  className : Option (List UInt8)
  windowName : Option (List UInt8)
  style : UInt32
  x : Int32
  y : Int32
  width : Int32
  height : Int32

/-- The calls. A message is posted through the handle that some `CreateWindowEx` call returned, or
to the null handle; `GetMessage` and `DispatchMessage` get a `MSG` variable or the null pointer. -/
inductive DeskCall where
  | register (lpWndClass : Option WndClass)
  | create (args : CreateArgs)
  | destroy (hWnd : HWnd)
  | post (addressee : Option ℕ) (msg wParam lParam : UInt32)
  | get (lpMsg : Option ℕ)
  | dispatch (lpMsg : Option ℕ)

def Os.create (os : Os) (a : CreateArgs) : HWnd × Os :=
  createWindowEx os a.exStyle a.className a.windowName a.style a.x a.y a.width a.height

def Desk.create (d : Desk) (a : CreateArgs) : Desk :=
  let r := d.os.create a
  { d with
    os := r.2
    creation := match r.1 with
      | some i => Function.update d.creation i (some d.created)
      | none => d.creation
    handle := Function.update d.handle d.created r.1
    created := d.created + 1 }

def Desk.destroy (d : Desk) (hWnd : HWnd) : Desk :=
  let r := destroyWindow d.os hWnd
  { d with
    os := r.2
    creation := match hWnd with
      | some i => if r.1 then Function.update d.creation i none else d.creation
      | none => d.creation }

def Desk.post (d : Desk) (addressee : Option ℕ) (msg wParam lParam : UInt32) : Desk :=
  { d with
    os := (postMessage d.os (addressee.bind d.handle) msg wParam lParam).2
    addressee := addressee }

def Desk.get (d : Desk) (lpMsg : Option ℕ) : Desk :=
  let r := getMessage d.os lpMsg.isSome
  let addressee := if d.os.hasPendingMessage && !d.os.quitRequested then d.addressee else none
  { d with
    os := r.2.2
    held := match lpMsg with
      | some j => Function.update d.held j (r.2.1.map fun msg => ⟨msg, addressee⟩)
      | none => d.held }

def Desk.dispatch (d : Desk) (lpMsg : Option ℕ) : Desk :=
  match lpMsg.bind d.held with
  | none => d
  | some parcel =>
    match dispatchMessage d.os (some parcel.msg) with
    | none => d
    | some _ => { d with passed := d.passed ++ [(parcel.addressee, parcel.msg.hwnd.bind d.creation)] }

inductive DeskStep : Desk → DeskCall → Desk → Prop where
  | register {d : Desk} (lpWndClass : Option WndClass) :
    DeskStep d (.register lpWndClass) { d with os := (registerClass d.os lpWndClass).2 }
  | create {d : Desk} (args : CreateArgs) : DeskStep d (.create args) (d.create args)
  | destroy {d : Desk} (hWnd : HWnd) : DeskStep d (.destroy hWnd) (d.destroy hWnd)
  | post {d : Desk} (addressee : Option ℕ) (msg wParam lParam : UInt32)
    (h : ∀ k ∈ addressee, k < d.created) :
    DeskStep d (.post addressee msg wParam lParam) (d.post addressee msg wParam lParam)
  | get {d : Desk} (lpMsg : Option ℕ) : DeskStep d (.get lpMsg) (d.get lpMsg)
  | dispatch {d : Desk} (lpMsg : Option ℕ) : DeskStep d (.dispatch lpMsg) (d.dispatch lpMsg)

/-- Before any call. -/
def Desk.boot : Desk := ⟨.boot, fun _ => none, fun _ => none, 0, none, fun _ => none, []⟩

/-- A message posted to the window of one `CreateWindowEx` call was passed on for that window only. -/
def Delivered (d : Desk) : Prop := ∀ k c, (some k, c) ∈ d.passed → c = some k

/-- The slot that `CreateWindowEx` is going to use. -/
def freeSlot (os : Os) : Option (Fin 16) := (List.finRange 16).find? fun i => !(os.windows i).inUse

/-- No slot is used again while a message for it is pending or held, and no message is posted
through a handle whose slot has been used again. -/
def Undisturbed (d : Desk) : DeskCall → Prop
  | .create args => ∀ i, (findClassByName d.os args.className).isSome → freeSlot d.os = some i →
    (d.os.hasPendingMessage = true → d.os.pendingMessage.hwnd ≠ some i) ∧
      ∀ j parcel, d.held j = some parcel → parcel.msg.hwnd ≠ some i
  | .post (some k) _ _ _ => ∀ i, d.handle k = some i → d.creation i = some k ∨ d.creation i = none
  | _ => True

def UndisturbedStep (d : Desk) (c : DeskCall) (d' : Desk) : Prop := Undisturbed d c ∧ DeskStep d c d'

end Specification

variable {os : Os} {d d' : Desk} {i : Fin 16} {a : CreateArgs} {hWnd : HWnd}

section Calls

lemma drawWindow_same (os : Os) (i : Fin 16) : (drawWindow os i).windows = os.windows ∧
    (drawWindow os i).pendingMessage = os.pendingMessage ∧
    (drawWindow os i).hasPendingMessage = os.hasPendingMessage := by
  simp only [drawWindow]
  split <;> exact ⟨rfl, rfl, rfl⟩

lemma redrawDesktop_same (os : Os) : (redrawDesktop os).windows = os.windows ∧
    (redrawDesktop os).pendingMessage = os.pendingMessage ∧
    (redrawDesktop os).hasPendingMessage = os.hasPendingMessage := by
  rw [redrawDesktop]
  induction List.finRange 16 generalizing os with
  | nil => exact ⟨rfl, rfl, rfl⟩
  | cons i l ih =>
    obtain ⟨hw, hm, hp⟩ := ih (drawWindow os i)
    obtain ⟨hw', hm', hp'⟩ := drawWindow_same os i
    exact ⟨hw.trans hw', hm.trans hm', hp.trans hp'⟩

lemma registerClass_same (os : Os) (wc : Option WndClass) : (registerClass os wc).2.windows = os.windows ∧
    (registerClass os wc).2.pendingMessage = os.pendingMessage ∧
    (registerClass os wc).2.hasPendingMessage = os.hasPendingMessage := by
  unfold registerClass
  split
  · split
    · exact ⟨rfl, rfl, rfl⟩
    · split <;> exact ⟨rfl, rfl, rfl⟩
  · exact ⟨rfl, rfl, rfl⟩

/-- What `CreateWindowEx` does: nothing, or it fills the first free slot. -/
theorem create_cases (os : Os) (a : CreateArgs) : os.create a = (none, os) ∨
    ∃ i window os', os.create a = (some i, os') ∧ (findClassByName os a.className).isSome ∧
      freeSlot os = some i ∧ window.inUse = true ∧ os'.windows = Function.update os.windows i window ∧
      os'.pendingMessage = os.pendingMessage ∧ os'.hasPendingMessage = os.hasPendingMessage := by
  unfold Os.create createWindowEx
  cases hclass : findClassByName os a.className with
  | none => exact Or.inl rfl
  | some klass =>
    cases hfree : (List.finRange 16).find? fun i => !(os.windows i).inUse with
    | none => exact Or.inl rfl
    | some i =>
      right
      obtain ⟨window, hwindow⟩ : ∃ window, window = newWindow (os.windows i) a.exStyle klass a.windowName
        a.style a.x a.y a.width a.height := ⟨_, rfl⟩
      have huse : window.inUse = true := by
        rw [hwindow]
        rfl
      simp only [← hwindow]
      split
      · obtain ⟨hw, hm, hp⟩ := drawWindow_same { os with windows := Function.update os.windows i window } i
        exact ⟨i, window, _, rfl, rfl, hfree, huse, hw, hm, hp⟩
      · exact ⟨i, window, _, rfl, rfl, hfree, huse, rfl, rfl, rfl⟩

/-- What `DestroyWindow` does: nothing, or it clears the slot. -/
theorem destroy_cases (os : Os) (hWnd : HWnd) : destroyWindow os hWnd = (false, os) ∨
    ∃ i os', hWnd = some i ∧ destroyWindow os hWnd = (true, os') ∧
      os'.windows = Function.update os.windows i .zero ∧ os'.pendingMessage = os.pendingMessage ∧
      os'.hasPendingMessage = os.hasPendingMessage := by
  unfold destroyWindow
  cases hWnd with
  | none => exact Or.inl rfl
  | some i =>
    by_cases huse : (os.windows i).inUse = true
    · right
      obtain ⟨hw, hm, hp⟩ := redrawDesktop_same { os with windows := Function.update os.windows i .zero }
      exact ⟨i, _, rfl, if_pos huse, hw, hm, hp⟩
    · left
      exact if_neg huse

lemma dispatch_some {msg : Msg} (h : (dispatchMessage os (some msg)).isSome) :
    ∃ i, msg.hwnd = some i ∧ (os.windows i).inUse = true := by
  unfold dispatchMessage at h
  cases hhwnd : msg.hwnd with
  | none => simp [hhwnd] at h
  | some i =>
    refine ⟨i, rfl, ?_⟩
    by_contra huse
    simp [hhwnd, huse] at h

end Calls

section Runs

/-- The addressee of a message is the window of its slot, unless the slot is free. -/
def Current (d : Desk) (hWnd : HWnd) (addressee : Option ℕ) : Prop :=
  ∀ k i, addressee = some k → hWnd = some i → d.creation i = some k ∨ d.creation i = none

/-- What holds between any two calls. -/
structure DeskOk (d : Desk) : Prop where
  occupied : ∀ i, (d.os.windows i).inUse = (d.creation i).isSome
  pending : d.os.hasPendingMessage = true → Current d d.os.pendingMessage.hwnd d.addressee
  held : ∀ j parcel, d.held j = some parcel → Current d parcel.msg.hwnd parcel.addressee
  delivered : Delivered d

lemma DeskOk.boot : DeskOk Desk.boot where
  occupied _ := rfl
  pending h := by cases h
  held _ _ h := by cases h
  delivered _ _ h := by cases h

lemma DeskOk.register (h : DeskOk d) (wc : Option WndClass) :
    DeskOk { d with os := (registerClass d.os wc).2 } := by
  obtain ⟨hw, hm, hp⟩ := registerClass_same d.os wc
  refine ⟨?_, ?_, h.held, h.delivered⟩
  · simp only [hw]
    exact h.occupied
  · simp only [hm, hp]
    exact h.pending

lemma DeskOk.create (h : DeskOk d) (hu : Undisturbed d (.create a)) : DeskOk (d.create a) := by
  rcases create_cases d.os a with hcall | ⟨i, window, os', hcall, hclass, hfree, huse, hw, hm, hp⟩
  · have hsame : (d.create a).os = d.os ∧ (d.create a).creation = d.creation := by
      simp only [Desk.create, hcall]
      exact ⟨trivial, trivial⟩
    refine ⟨?_, ?_, ?_, h.delivered⟩
    · rw [hsame.1, hsame.2]
      exact h.occupied
    · rw [hsame.1, Current, hsame.2]
      exact h.pending
    · intro j parcel hj
      rw [Current, hsame.2]
      exact h.held j parcel hj
  · obtain ⟨hpending, hheld⟩ := hu i hclass hfree
    have hos : (d.create a).os = os' := by simp only [Desk.create, hcall]
    have hcreation : (d.create a).creation = Function.update d.creation i (some d.created) := by
      simp only [Desk.create, hcall]
    have hkeep : ∀ hWnd addressee, hWnd ≠ some i → Current d hWnd addressee →
        Current (d.create a) hWnd addressee := by
      intro hWnd addressee hne hcur k l hk hl
      have hli : l ≠ i := fun he => hne (he ▸ hl)
      rw [hcreation, Function.update_of_ne hli]
      exact hcur k l hk hl
    refine ⟨?_, ?_, ?_, h.delivered⟩
    · intro l
      rw [hos, hcreation, hw]
      by_cases hl : l = i
      · rw [hl, Function.update_self, Function.update_self, huse]
        rfl
      · rw [Function.update_of_ne hl, Function.update_of_ne hl]
        exact h.occupied l
    · rw [hos, hp, hm]
      exact fun hhas => hkeep _ _ (hpending hhas) (h.pending hhas)
    · exact fun j parcel hj => hkeep _ _ (hheld j parcel hj) (h.held j parcel hj)

lemma DeskOk.destroy (h : DeskOk d) (hWnd : HWnd) : DeskOk (d.destroy hWnd) := by
  rcases destroy_cases d.os hWnd with hcall | ⟨i, os', rfl, hcall, hw, hm, hp⟩
  · have hsame : d.destroy hWnd = d := by
      simp only [Desk.destroy, hcall]
      cases hWnd <;> rfl
    rwa [hsame]
  · have hos : (d.destroy (some i)).os = os' := by simp only [Desk.destroy, hcall]
    have hcreation : (d.destroy (some i)).creation = Function.update d.creation i none := by
      simp only [Desk.destroy, hcall, if_true]
    have hkeep : ∀ hWnd addressee, Current d hWnd addressee → Current (d.destroy (some i)) hWnd addressee := by
      intro hWnd addressee hcur k l hk hl
      rw [hcreation]
      by_cases hli : l = i
      · rw [hli, Function.update_self]
        exact Or.inr rfl
      · rw [Function.update_of_ne hli]
        exact hcur k l hk hl
    refine ⟨?_, ?_, fun j parcel hj => hkeep _ _ (h.held j parcel hj), h.delivered⟩
    · intro l
      rw [hos, hcreation, hw]
      by_cases hl : l = i
      · rw [hl, Function.update_self, Function.update_self]
        rfl
      · rw [Function.update_of_ne hl, Function.update_of_ne hl]
        exact h.occupied l
    · rw [hos, hp, hm]
      exact fun hhas => hkeep _ _ (h.pending hhas)

lemma DeskOk.post (h : DeskOk d) {addressee : Option ℕ} {msg w l : UInt32}
    (hu : Undisturbed d (.post addressee msg w l)) : DeskOk (d.post addressee msg w l) := by
  refine ⟨h.occupied, ?_, h.held, h.delivered⟩
  intro _ k i hk hi
  obtain rfl : addressee = some k := hk
  exact hu i hi

/-- What `GetMessage` does: it leaves the pending message alone, or retrieves it. -/
lemma get_cases (d : Desk) (j : ℕ) : ∃ parcel, (d.get (some j)).held = Function.update d.held j (some parcel) ∧
    (d.get (some j)).os.windows = d.os.windows ∧ (d.get (some j)).creation = d.creation ∧
    (d.get (some j)).passed = d.passed ∧
    ((d.get (some j)).os.hasPendingMessage = true → (d.get (some j)).os = d.os ∧
      (d.get (some j)).addressee = d.addressee) ∧
    (parcel.msg.hwnd = none ∨ d.os.hasPendingMessage = true ∧ parcel = ⟨d.os.pendingMessage, d.addressee⟩) := by
  cases hq : d.os.quitRequested with
  | true =>
    refine ⟨⟨⟨none, wmQuit, d.os.quitCode, 0⟩, none⟩, ?_⟩
    simp [Desk.get, getMessage, hq]
  | false =>
    cases hp : d.os.hasPendingMessage with
    | true =>
      refine ⟨⟨d.os.pendingMessage, d.addressee⟩, ?_⟩
      simp [Desk.get, getMessage, hq, hp]
    | false =>
      refine ⟨⟨⟨none, wmNull, 0, 0⟩, none⟩, ?_⟩
      simp [Desk.get, getMessage, hq, hp]

lemma DeskOk.get (h : DeskOk d) (lpMsg : Option ℕ) : DeskOk (d.get lpMsg) := by
  cases lpMsg with
  | none => exact ⟨h.occupied, h.pending, h.held, h.delivered⟩
  | some j =>
    obtain ⟨parcel, hheld, hw, hcreation, hpassed, hpending, hparcel⟩ := get_cases d j
    have hkeep : ∀ hWnd addressee, Current d hWnd addressee → Current (d.get (some j)) hWnd addressee := by
      intro hWnd addressee hcur k i hk hi
      rw [hcreation]
      exact hcur k i hk hi
    refine ⟨?_, ?_, ?_, ?_⟩
    · rw [hw, hcreation]
      exact h.occupied
    · intro hhas
      obtain ⟨hos, haddressee⟩ := hpending hhas
      rw [hos] at hhas ⊢
      rw [haddressee]
      exact hkeep _ _ (h.pending hhas)
    · intro l q hl
      rw [hheld, Function.update_apply] at hl
      by_cases hlj : l = j
      · rw [if_pos hlj, Option.some_inj] at hl
        rw [← hl]
        rcases hparcel with hnone | ⟨hhas, rfl⟩
        · intro k i _ hi
          rw [hnone] at hi
          cases hi
        · exact hkeep _ _ (h.pending hhas)
      · rw [if_neg hlj] at hl
        exact hkeep _ _ (h.held l q hl)
    · rw [Delivered, hpassed]
      exact h.delivered

lemma DeskOk.dispatch (h : DeskOk d) (lpMsg : Option ℕ) : DeskOk (d.dispatch lpMsg) := by
  unfold Desk.dispatch
  cases hparcel : lpMsg.bind d.held with
  | none => exact h
  | some parcel =>
    cases hcall : dispatchMessage d.os (some parcel.msg) with
    | none =>
      simp only [hcall]
      exact h
    | some call =>
      simp only [hcall]
      refine ⟨h.occupied, h.pending, h.held, ?_⟩
      intro k c hkc
      rcases List.mem_append.mp hkc with hkc | hkc
      · exact h.delivered k c hkc
      · obtain ⟨i, hi, huse⟩ := dispatch_some (Option.isSome_iff_exists.mpr ⟨call, hcall⟩)
        obtain ⟨j, -, hj⟩ := Option.bind_eq_some_iff.mp hparcel
        obtain ⟨hk, hc⟩ := Prod.mk.inj (List.mem_singleton.mp hkc)
        rw [hc, hi, Option.bind_some]
        rw [h.occupied] at huse
        rcases h.held j parcel hj k i hk.symm hi with hcur | hnone
        · exact hcur
        · rw [hnone] at huse
          cases huse

theorem DeskOk.step {c : DeskCall} (h : DeskOk d) (hs : UndisturbedStep d c d') : DeskOk d' := by
  obtain ⟨hu, hstep⟩ := hs
  cases hstep with
  | register wc => exact h.register wc
  | create a => exact h.create hu
  | destroy hWnd => exact h.destroy hWnd
  | post addressee msg w l _ => exact h.post hu
  | get lpMsg => exact h.get lpMsg
  | dispatch lpMsg => exact h.dispatch lpMsg

/-- In a run that never uses a slot again while a message for it is under way, nor an old handle
after that, every message reaches the window it was posted to or none. -/
theorem message_delivery {t : List DeskCall} (hrun : Trace UndisturbedStep Desk.boot t d) : Delivered d :=
  (hrun.invariant (I := DeskOk) (fun h hs => h.step hs) DeskOk.boot).delivered

/-- The class and the window of an application. -/
def appClass : Option WndClass := some ⟨some 7, some [0x41]⟩

def appWindow : CreateArgs := ⟨0, some [0x41], none, 0, 0, 0, 10, 10⟩

/-- A window is made and gets a message. -/
theorem message_delivery_one :
    Delivered (((((({ Desk.boot with os := (registerClass .boot appClass).2 } : Desk).create appWindow).post
      (some 0) 0x0100 0x1E 0).get (some 0)).dispatch (some 0))) :=
  message_delivery (t := [.register appClass, .create appWindow, .post (some 0) 0x0100 0x1E 0, .get (some 0),
    .dispatch (some 0)])
    ⟨_, ⟨trivial, DeskStep.register _⟩,
      _, ⟨fun _ _ _ => ⟨fun h => absurd h (by decide), fun _ _ h => absurd h (by simp [Desk.boot])⟩,
        DeskStep.create _⟩,
      _, ⟨fun i hi => Or.inl (Option.some.inj (show some (0 : Fin 16) = some i from hi) ▸ rfl),
        DeskStep.post _ _ _ _ (by decide)⟩,
      _, ⟨trivial, DeskStep.get _⟩, _, ⟨trivial, DeskStep.dispatch _⟩, rfl⟩

/-- A window is destroyed while a message for it is pending, and the next window takes its slot. -/
theorem message_delivery_reuse : ¬∀ (d : Desk) (t : List DeskCall), Trace DeskStep Desk.boot t d →
    Delivered d := by
  intro h
  have hdelivered := h _ [.register appClass, .create appWindow, .post (some 0) 0x0100 0x1E 0,
    .destroy (some 0), .create appWindow, .get (some 0), .dispatch (some 0)]
    ⟨_, DeskStep.register _, _, DeskStep.create _, _, DeskStep.post _ _ _ _ (by decide), _,
      DeskStep.destroy _, _, DeskStep.create _, _, DeskStep.get _, _, DeskStep.dispatch _, rfl⟩
  have hc := hdelivered 0 (some 1) (by decide)
  cases hc

end Runs

end SBoy28.Windows
