import SBoy28.Lib.Spinlock
import SBoy28.Lib.Stores
import SBoy28.Windows.Screen
import SBoy28.Windows.Containment

/-!
# Threads that draw

`vga_clear`, `vga_draw_char` and `vga_draw_string` write the backbuffer byte by byte while they hold `vga_lock`. Any
number of threads call them, and each may lose the processor between any two bytes.
-/

namespace SBoy28.Windows
open Lib

section Model

def vgaPutPixelStores (x y : UInt32) (color : UInt8) : List (ℕ × UInt8) :=
  if x < vgaWidth ∧ y < vgaHeight then [((y * vgaWidth + x).toNat, color)] else []

def vgaDrawCharStores (x y : UInt32) (ch color : UInt8) : List (ℕ × UInt8) :=
  if 127 < ch then []
  else
    (List.range 8).flatMap fun i => (List.range 8).flatMap fun j =>
      if lit ch i j then vgaPutPixelStores (x + UInt32.ofNat j) (y + UInt32.ofNat i) color else []

def vgaDrawStringStores (str : ℕ → UInt8) (color : UInt8) : ℕ → ℕ → UInt32 → UInt32 → List (ℕ × UInt8)
  | 0, _, _, _ => []
  | n + 1, k, x, y =>
    if str k = 0 then []
    else
      let stores := vgaDrawCharStores x y (str k) color
      let x := x + 8
      let wrap := x + 8 > vgaWidth
      let y := if wrap then y + 8 else y
      let x := if wrap then 0 else x
      if y + 8 > vgaHeight then stores else stores ++ vgaDrawStringStores str color n (k + 1) x y

/-- The calls that take `vga_lock`. A string does not change while it is drawn. -/
inductive DrawCall where
  | clear (color : UInt8)
  | char (x y : UInt32) (ch color : UInt8)
  | string (x y : UInt32) (str : CString) (color : UInt8)

/-- What a call stores while it holds the lock, byte by byte. -/
def DrawCall.stores : DrawCall → List (ℕ × UInt8)
  | clear color => row 0 vgaSize fun _ => color
  | char x y ch color => vgaDrawCharStores x y ch color
  | string x y str color => vgaDrawStringStores (fun k => str.1.getD k 0) color (str.1.length + 1) 0 x y

/-- What a call draws when nothing comes between. -/
def DrawCall.draw (backbuffer : Backbuffer) : DrawCall → Backbuffer
  | clear color => vgaClear backbuffer color
  | char x y ch color => vgaDrawChar backbuffer x y ch color
  | string x y str color => vgaDrawText backbuffer x y str color

def DrawCall.color : DrawCall → UInt8
  | clear color => color
  | char _ _ _ color => color
  | string _ _ _ color => color

def storeByte (backbuffer : Backbuffer) (s : ℕ × UInt8) : Backbuffer := Function.update backbuffer s.1 s.2

/-- The bytes of a region are the same. -/
def AgreeOn (region : ℕ → Prop) (buf buf' : Backbuffer) : Prop := ∀ p, region p → buf p = buf' p

/-- The threads with the backbuffer. Code that takes no lock, such as `vga_put_pixel`, may write outside of the
region whenever it likes. -/
abbrev Drawing.Run {τ : Type*} [DecidableEq τ] (region : ℕ → Prop) (backbuffer : Backbuffer) :
    List (SpinEvent τ DrawCall) → Shared Backbuffer τ DrawCall (ℕ × UInt8) → Prop :=
  Shared.Run DrawCall.stores storeByte (AgreeOn region) (Shared.idle backbuffer)

end Model

section Stores

variable {color : UInt8} {backbuffer : Backbuffer}

lemma storeAll_putPixel (x y : UInt32) (color : UInt8) :
    storeAll backbuffer (vgaPutPixelStores x y color) = vgaPutPixel backbuffer x y color := by
  unfold vgaPutPixelStores vgaPutPixel
  split
  · rfl
  · rfl

lemma storeAll_flatMap {β : Type*} (l : List β) (f : β → List (ℕ × UInt8)) (backbuffer : Backbuffer) :
    storeAll backbuffer (l.flatMap f) = l.foldl (fun buf x => storeAll buf (f x)) backbuffer := List.foldl_flatMap

lemma storeAll_char (x y : UInt32) (ch color : UInt8) :
    storeAll backbuffer (vgaDrawCharStores x y ch color) = vgaDrawCharLocked backbuffer x y ch color := by
  unfold vgaDrawCharStores vgaDrawCharLocked
  split
  · rfl
  · rw [storeAll_flatMap]
    congr 1
    funext buf i
    rw [storeAll_flatMap]
    congr 1
    funext buf j
    unfold lit
    split
    · exact storeAll_putPixel _ _ _
    · rfl

lemma storeAll_string (str : ℕ → UInt8) (color : UInt8) (n k : ℕ) (x y : UInt32) (backbuffer : Backbuffer) :
    storeAll backbuffer (vgaDrawStringStores str color n k x y) = vgaDrawStringLoop str color n k x y backbuffer := by
  induction n generalizing k x y backbuffer with
  | zero => rfl
  | succ n ih =>
    simp only [vgaDrawStringStores, vgaDrawStringLoop]
    by_cases hz : str k = 0
    · rw [if_pos hz, if_pos hz]
      rfl
    · rw [if_neg hz, if_neg hz]
      generalize (if x + 8 + 8 > vgaWidth then (0 : UInt32) else x + 8) = x'
      generalize (if x + 8 + 8 > vgaWidth then y + 8 else y) = y'
      by_cases hend : y' + 8 > vgaHeight
      · rw [if_pos hend, if_pos hend, storeAll_char]
      · rw [if_neg hend, if_neg hend, storeAll_append, storeAll_char, ih]

/-- The stores of a call, one after the other, are the call. -/
lemma storeAll_stores (c : DrawCall) (backbuffer : Backbuffer) :
    storeAll backbuffer c.stores = c.draw backbuffer := by
  cases c with
  | clear color =>
    funext p
    simp only [DrawCall.stores, DrawCall.draw, storeAll_row, vgaClear, Nat.zero_le, Nat.zero_add, true_and]
  | char x y ch color => exact storeAll_char x y ch color
  | string x y str color => exact storeAll_string _ color _ 0 x y backbuffer

/-- Everything that is stored has the colour, and goes into the backbuffer. -/
def Inks (color : UInt8) (l : List (ℕ × UInt8)) : Prop := ∀ s ∈ l, s.1 < vgaSize ∧ s.2 = color

lemma vgaIndex_lt {x y : UInt32} (hx : x < vgaWidth) (hy : y < vgaHeight) : (y * vgaWidth + x).toNat < vgaSize := by
  have h320 : vgaWidth.toNat = 320 := rfl
  have h200 : vgaHeight.toNat = 200 := rfl
  have hx' : x.toNat < 320 := h320 ▸ UInt32.lt_iff_toNat_lt.mp hx
  have hy' : y.toNat < 200 := h200 ▸ UInt32.lt_iff_toNat_lt.mp hy
  have hmul : (y * vgaWidth).toNat = y.toNat * 320 := by
    rw [toNat_mul_of_lt (by rw [h320]; omega), h320]
  rw [toNat_add_of_lt (by omega), hmul]
  unfold vgaSize
  omega

lemma inks_putPixel (x y : UInt32) (color : UInt8) : Inks color (vgaPutPixelStores x y color) := by
  unfold vgaPutPixelStores
  intro s hs
  split at hs
  · next hin =>
    rw [List.mem_singleton.mp hs]
    exact ⟨vgaIndex_lt hin.1 hin.2, rfl⟩
  · cases hs

lemma inks_char (x y : UInt32) (ch color : UInt8) : Inks color (vgaDrawCharStores x y ch color) := by
  unfold vgaDrawCharStores
  intro s hs
  split at hs
  · cases hs
  · obtain ⟨i, -, hs⟩ := List.mem_flatMap.mp hs
    obtain ⟨j, -, hs⟩ := List.mem_flatMap.mp hs
    split at hs
    · exact inks_putPixel _ _ _ s hs
    · cases hs

lemma inks_string (str : ℕ → UInt8) (color : UInt8) (n k : ℕ) (x y : UInt32) :
    Inks color (vgaDrawStringStores str color n k x y) := by
  induction n generalizing k x y with
  | zero => exact fun s hs => by cases hs
  | succ n ih =>
    simp only [vgaDrawStringStores]
    generalize (if x + 8 + 8 > vgaWidth then (0 : UInt32) else x + 8) = x'
    generalize (if x + 8 + 8 > vgaWidth then y + 8 else y) = y'
    intro s hs
    split at hs
    · cases hs
    · split at hs
      · exact inks_char _ _ _ _ s hs
      · cases List.mem_append.mp hs with
        | inl hs => exact inks_char _ _ _ _ s hs
        | inr hs => exact ih _ _ _ s hs

lemma DrawCall.inks (c : DrawCall) : Inks c.color c.stores := by
  cases c with
  | clear color =>
    intro s hs
    obtain ⟨i, hi, rfl⟩ := List.mem_map.mp hs
    exact ⟨by simpa using hi, rfl⟩
  | char x y ch color => exact inks_char x y ch color
  | string x y str color => exact inks_string _ color _ 0 x y

lemma Inks.storeAll {l : List (ℕ × UInt8)} (h : Inks color l) (backbuffer : Backbuffer) (p : ℕ) :
    storeAll backbuffer l p = if p ∈ l.map Prod.fst then color else backbuffer p := by
  induction l generalizing backbuffer with
  | nil => rfl
  | cons s l ih =>
    have hs : s.2 = color := (h s List.mem_cons_self).2
    rw [storeAll_cons, ih (fun s' hs' => h s' (List.mem_cons_of_mem _ hs')), List.map_cons]
    by_cases hl : p ∈ l.map Prod.fst
    · rw [if_pos hl, if_pos (List.mem_cons_of_mem _ hl)]
    · rw [if_neg hl]
      by_cases hp : p = s.1
      · rw [if_pos (by rw [hp]; exact List.mem_cons_self), hp, Function.update_self, hs]
      · rw [if_neg (List.not_mem_cons_of_ne_of_not_mem hp hl), Function.update_of_ne hp]

/-- In the middle of a call a byte is the one from before or the one from after. -/
lemma storeAll_midway {first rest : List (ℕ × UInt8)} (h : Inks color (first ++ rest)) (backbuffer : Backbuffer)
    (p : ℕ) :
    storeAll backbuffer first p = backbuffer p ∨
      storeAll backbuffer first p = storeAll backbuffer (first ++ rest) p := by
  have hfirst : Inks color first := fun s hs => h s (List.mem_append_left _ hs)
  rw [hfirst.storeAll, h.storeAll, List.map_append]
  by_cases hp : p ∈ first.map Prod.fst
  · exact Or.inr (by rw [if_pos hp, if_pos (List.mem_append_left _ hp)])
  · exact Or.inl (if_neg hp)

end Stores

section Turns

variable {τ : Type*} [DecidableEq τ] {region : ℕ → Prop} {backbuffer : Backbuffer}
  {m : Shared Backbuffer τ DrawCall (ℕ × UInt8)} {es : List (SpinEvent τ DrawCall)}

lemma unseen (region : ℕ → Prop) : Unseen storeByte (AgreeOn region) (AgreeOn region) where
  refl _ _ _ := rfl
  trans _ _ _ h h' p hp := (h p hp).trans (h' p hp)
  perform buf buf' s h p hp := by
    unfold storeByte
    by_cases hps : p = s.1
    · rw [hps, Function.update_self, Function.update_self]
    · rw [Function.update_of_ne hps, Function.update_of_ne hps, h p hp]
  other _ _ h p hp := (h p hp).symm

lemma sequential_draw (backbuffer : Backbuffer) (cs : List DrawCall) :
    sequential DrawCall.stores storeByte backbuffer cs = cs.foldl DrawCall.draw backbuffer := by
  unfold sequential
  congr 1
  funext buf c
  exact storeAll_stores c buf

/-- Threads that draw take turns. In every interleaving of their instructions at most one of them is behind the
lock, each makes its calls one after the other, and the region shows the picture of the calls in the order in which
they took the lock; while a call draws, each of its bytes is the one before this call or the one after it. Every
call can come to its end. -/
theorem draw_calls_take_turns (h : Drawing.Run region backbuffer es m) :
    (∀ t u c c' rest rest', m.phase t = .inside c rest → m.phase u = .inside c' rest' → t = u) ∧
      (∀ t, ∃ cs : List DrawCall, ofThread t es = cs.flatMap (whole t) ++ begun t (m.phase t)) ∧
      (m.locked = false → AgreeOn region m.data ((taken es).foldl DrawCall.draw backbuffer)) ∧
      (∀ t c rest, m.phase t = .inside c rest → ∃ prev, taken es = prev ++ [c] ∧ ∀ p, region p →
        m.data p = prev.foldl DrawCall.draw backbuffer p ∨
          m.data p = (taken es).foldl DrawCall.draw backbuffer p) ∧
      ∀ t, m.phase t ≠ .outside → ∃ fs m' c, Shared.Run DrawCall.stores storeByte (AgreeOn region) m fs m' ∧
        SpinEvent.ret t c ∈ fs := by
  have hinv := (Shared.Inv.idle (unseen region) backbuffer).run (unseen region) h
  rw [List.nil_append] at hinv
  refine ⟨hinv.alone, hinv.calls, ?_, ?_, fun t ht => hinv.returns ht⟩
  · intro hfree p hp
    rw [← sequential_draw]
    exact hinv.free hfree p hp
  · intro t c rest hin
    obtain ⟨first, prev, hacts, htaken, hdata⟩ := hinv.held t c rest hin
    refine ⟨prev, htaken, fun p hp => ?_⟩
    have hp' := hdata p hp
    have hmid := storeAll_midway (hacts ▸ c.inks) (prev.foldl DrawCall.draw backbuffer) p
    rw [htaken, List.foldl_append, hp', sequential_draw]
    rw [← hacts, storeAll_stores] at hmid
    exact hmid

/-- The screen is cleared to blue; a second thread waits meanwhile to draw a dot. -/
theorem draw_calls_take_turns_dot : ∃ (es : List (SpinEvent ℕ DrawCall))
    (m : Shared Backbuffer ℕ DrawCall (ℕ × UInt8)), Drawing.Run (fun _ => True) (fun _ => 0) es m ∧
      taken es = [.clear blue, .char 0 0 46 white] ∧ m.data 1603 = white ∧ m.data 0 = blue := by
  -- The second thread finds the lock taken.
  have hwaits : ∃ m : Shared Backbuffer ℕ DrawCall (ℕ × UInt8), Drawing.Run (fun _ => True) (fun _ => 0)
      [.call 0 (.clear blue), .take 0 (.clear blue), .call 1 (.char 0 0 46 white)] m ∧
      m.phase 0 = .inside (.clear blue) (DrawCall.clear blue).stores ∧
      m.phase 1 = .spinning (.char 0 0 46 white) := by
    have hrun : Drawing.Run (fun _ => True) (fun _ => 0) ([] : List (SpinEvent ℕ DrawCall))
      (Shared.idle fun _ => 0) := .start
    exact ⟨_, (((hrun.next (.call 0 (DrawCall.clear blue) rfl)).next (.exchange 0 (DrawCall.clear blue) rfl)).next
      (.call 1 (DrawCall.char 0 0 46 white) rfl)).next (.exchange 1 (DrawCall.char 0 0 46 white) rfl), rfl, rfl⟩
  obtain ⟨m, hrun, hclear, hspin⟩ := hwaits
  obtain ⟨m', hrun', hfree, hothers⟩ := Shared.finishes DrawCall.stores storeByte (AgreeOn fun _ => True) hclear
  -- The first thread has returned, and the second one goes on.
  have hphase : m'.phase 1 = .spinning (.char 0 0 46 white) := (hothers 1 (by decide)).trans hspin
  have hlook : m'.Step DrawCall.stores storeByte (AgreeOn fun _ => True) [] _ := .look 1 _ hphase
  rw [hfree, if_neg Bool.false_ne_true] at hlook
  have htake : Shared.Step DrawCall.stores storeByte (AgreeOn fun _ => True)
      (m'.goOn 1 (.trying (.char 0 0 46 white))) _ _ := .exchange 1 _ (Shared.goOn_phase_self _ _)
  rw [Shared.goOn_locked, hfree, if_neg Bool.false_ne_true, if_neg Bool.false_ne_true] at htake
  obtain ⟨m'', hrun'', hfree', -⟩ := Shared.finishes DrawCall.stores storeByte (AgreeOn fun _ => True)
    (m := { (m'.goOn 1 (.trying (.char 0 0 46 white))).goOn 1 (.inside (.char 0 0 46 white)
      (DrawCall.char 0 0 46 white).stores) with locked := true }) (Shared.goOn_phase_self _ _)
  have hall := ((hrun.trans hrun').trans (.single hlook)).trans ((Shared.Run.single htake).trans hrun'')
  have hdata := (draw_calls_take_turns hall).2.2.1 hfree'
  refine ⟨_, m'', hall, rfl, ?_, ?_⟩
  · rw [hdata 1603 trivial]
    decide
  · rw [hdata 0 trivial]
    decide

end Turns

end SBoy28.Windows
