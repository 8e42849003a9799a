import SBoy28.Windows.FrameBuffer
import SBoy28.Windows.Gdi

/-!
# Brushes

`CreateSolidBrush` takes a brush from the kernel heap and `DeleteObject` gives it back. The other drawing calls of
`windows.c` read brushes and draw into the backbuffer.
-/

namespace SBoy28.Windows
open Lib Kheap

section Model

/-- The brush has its colour in its first four bytes. -/
def createSolidBrush (v : Video) (crColor : UInt32) : Option (UInt32 × Video) :=
  (kmalloc v.heap 4).map fun (brush, h) =>
    let v : Video := { v with heap := h, objects := v.objects.step (.malloc 4 brush) }
    if brush = 0 then (0, v) else (brush, v.stores brush (row 0 4 (byteOf crColor)))

def deleteObject (v : Video) (hObject : UInt32) : Option (UInt32 × Video) :=
  if hObject = 0 then some (0, v)
  else
    (kfree v.heap hObject).map fun h => (1, { v with heap := h, objects := v.objects.step (.free hObject) })

/-- The corner and the size of a rectangle of four edges. -/
def sized (left top right bottom : Int32) : Rect := ⟨left, top, right - left, bottom - top⟩

def fillRect (v : Video) (lprc : Option Rect) (hbr : UInt32) : UInt32 × Video :=
  match lprc with
  | none => (0, v)
  | some r =>
    if hbr = 0 then (0, v)
    else
      let color := load32 v.heap.mem hbr.toNat
      (1, v.draw (.fillRect (sized r.left r.top r.right r.bottom) (color &&& 0xFF).toUInt8))

def rectangle (v : Video) (left top right bottom : Int32) : UInt32 × Video :=
  (1, v.draw (.rectOutline (sized left top right bottom) white))

/-- The string in the buffer after some characters and a zero are copied into it. -/
def copiedText (str : ℕ → UInt8) (count : Int32) : CString :=
  ⟨string str count.toNatClampNeg, zero_notMem_string str count.toNatClampNeg⟩

/-- `TextOutA` copies at most 255 characters. -/
def textOut (v : Video) (x y : Int32) (lpString : Option (ℕ → UInt8)) (c : Int32) : UInt32 × Video :=
  lpString.elim (0, v) fun str =>
    if c ≤ 0 then (0, v)
    else
      let count := if c < 255 then c else 255
      (1, v.draw (.locked (.string x.toUInt32 y.toUInt32 (copiedText str count) white)))

inductive GdiCall where
  | createSolidBrush (crColor : UInt32)
  | deleteObject (hObject : UInt32)
  | fillRect (lprc : Option Rect) (hbr : UInt32)
  | rectangle (left top right bottom : Int32)
  | textOut (x y : Int32) (lpString : Option (ℕ → UInt8)) (c : Int32)

def GdiCall.run (v : Video) : GdiCall → Option (UInt32 × Video)
  | createSolidBrush crColor => Windows.createSolidBrush v crColor
  | deleteObject hObject => Windows.deleteObject v hObject
  | fillRect lprc hbr => some (Windows.fillRect v lprc hbr)
  | rectangle left top right bottom => some (Windows.rectangle v left top right bottom)
  | textOut x y lpString c => some (Windows.textOut v x y lpString c)

end Model

section Specification

/-- The brushes that there are, each with its colour, and what has been drawn. -/
structure Gdi where
  brushes : UInt32 → Option UInt32
  display : Display

def Gdi.paint (g : Gdi) (f : Backbuffer → Backbuffer) : Gdi :=
  { g with display := { g.display with picture := f g.display.picture } }

/-- The call with its result. -/
def Gdi.step (g : Gdi) (r : UInt32) : GdiCall → Gdi
  | .createSolidBrush crColor => if r = 0 then g else { g with brushes := Function.update g.brushes r (some crColor) }
  | .deleteObject hObject => { g with brushes := Function.update g.brushes hObject none }
  | .fillRect lprc hbr =>
    match lprc, g.brushes hbr with
    | some r, some crColor =>
      g.paint fun picture => osGuiFillRect picture (sized r.left r.top r.right r.bottom) (crColor &&& 0xFF).toUInt8
    | _, _ => g
  | .rectangle left top right bottom =>
    g.paint fun picture => osGuiDrawRectOutline picture (sized left top right bottom) white
  | .textOut x y lpString c => g.paint fun picture => (textOutA picture x y lpString c).2

/-- What an application may ask for: the handle is the one of a brush, or none. -/
def Gdi.Allows (g : Gdi) : GdiCall → Prop
  | .deleteObject hObject => hObject = 0 ∨ (g.brushes hObject).isSome
  | .fillRect _ hbr => hbr = 0 ∨ (g.brushes hbr).isSome
  | _ => True

/-- The result: a new brush is none of those that there are. -/
def Gdi.Answers (g : Gdi) (r : UInt32) : GdiCall → Prop
  | .createSolidBrush _ => r = 0 ∨ g.brushes r = none
  | .deleteObject hObject => r = if hObject = 0 then 0 else 1
  | .fillRect lprc hbr => r = if lprc = none ∨ hbr = 0 then 0 else 1
  | .rectangle _ _ _ _ => r = 1
  | .textOut _ _ lpString c => r = if lpString.isNone ∨ c ≤ 0 then 0 else 1

structure Canvas where
  video : Video
  gdi : Gdi

/-- Applications draw, other code uses its own objects on the heap, and frames are shown. -/
inductive Canvas.Step (s : Canvas) : Canvas → Prop where
  | call {c : GdiCall} {r : UInt32} {v : Video} (ha : s.gdi.Allows c) (hc : c.run s.video = some (r, v)) :
    Canvas.Step s ⟨v, s.gdi.step r c⟩
  | other {e : HeapEvent} {h' : Heap} (hs : HeapStep s.video.objects s.video.heap e h')
      (hspares : Spares s.video.backbuffer e) (hbrushes : ∀ p, (s.gdi.brushes p).isSome → Spares p e) :
    Canvas.Step s ⟨{ s.video with heap := h', objects := s.video.objects.step e }, s.gdi⟩
  | render : Canvas.Step s ⟨s.video.render, { s.gdi with display := s.gdi.display.step .render }⟩

/-- The object of a brush. -/
def brushObject (crColor : UInt32) : Object := ⟨4, storeAll (fun _ => none) (known (row 0 4 (byteOf crColor)))⟩

/-- The heap holds the brushes and the backbuffer. -/
structure Serves (s : Canvas) : Prop where
  tracks : ∃ live bs, Tracks s.video.heap s.video.objects live bs
  allocated : s.video.backbuffer ≠ 0
  displays : Displays s.video s.gdi.display
  brushes : ∀ p crColor, s.gdi.brushes p = some crColor → s.video.objects p = some (brushObject crColor)

end Specification

section Steps

variable {v v' : Video} {s s' : Canvas} {d : Display} {live : Finset UInt32} {bs : List Blk} {p q : UInt32}
  {crColor : UInt32}

lemma stores_objects (v : Video) (l : List (ℕ × UInt8)) (hq : q ≠ p) : (v.stores p l).objects q = v.objects q := by
  induction l generalizing v with
  | nil => rfl
  | cons s l ih => exact (ih (v.store p s)).trans (Function.update_of_ne hq _ _)

lemma draw_objects (v : Video) (op : DrawOp) (hq : q ≠ v.backbuffer) : (v.draw op).objects q = v.objects q := by
  unfold Video.draw
  split
  · rfl
  · exact stores_objects v op.stores hq

/-- What is stored into another object is not seen. -/
lemma Displays.stores (ht : Tracks v.heap v.objects live bs) (hd : Displays v d) {object : Object}
    (hobject : v.objects p = some object) (hp : v.backbuffer ≠ p) {l : List (ℕ × UInt8)}
    (hl : ∀ s ∈ l, s.1 < object.size) : Displays (v.stores p l) d := by
  obtain ⟨-, -, hscreen⟩ := Video.stores_object ht hobject hl
  obtain ⟨buffer, hbuffer, hsize, hbytes⟩ := hd.picture
  refine ⟨⟨buffer, ?_, hsize, hbytes⟩, fun i hi => (hscreen i hi).trans (hd.screen i hi)⟩
  rw [stores_backbuffer, stores_objects v l hp]
  exact hbuffer

/-- A brush reads back as it was created. -/
lemma load_brush (ht : Tracks v.heap v.objects live bs) (hp : v.objects p = some (brushObject crColor)) :
    load32 v.heap.mem p.toNat = crColor := by
  have hbyte : ∀ k < 4, v.heap.mem (p.toNat + k) = byteOf crColor k := by
    intro k hk
    apply (ht.bytes p _ k (byteOf crColor k) hp ?_).2
    change storeAll (fun _ => none) (known (row 0 4 (byteOf crColor))) k = some (byteOf crColor k)
    rw [known_row, storeAll_row, if_pos ⟨Nat.zero_le k, by omega⟩, Nat.sub_zero]
  calc load32 v.heap.mem p.toNat = load32 (store32 v.heap.mem p.toNat crColor) p.toNat :=
        load32_congr fun k hk => by rw [hbyte k hk, store32_inside _ _ _ _ hk]
    _ = crColor := load32_store32 _ _ _

lemma Serves.ne_buffer (h : Serves s) (hp : s.video.objects p = some (brushObject crColor)) :
    p ≠ s.video.backbuffer := by
  obtain ⟨object, hobject, hsize, -⟩ := h.displays.picture
  rintro rfl
  rw [hp] at hobject
  rw [← Option.some.inj hobject] at hsize
  exact absurd (show 4 = vgaSize from hsize) (by decide)

/-- What is drawn leaves the brushes alone. -/
lemma Serves.draw (h : Serves s) (op : DrawOp) :
    Serves ⟨s.video.draw op, s.gdi.paint op.paint⟩ := by
  obtain ⟨live, bs, ht⟩ := h.tracks
  obtain ⟨ht', hd⟩ := h.displays.draw ht h.allocated op
  refine ⟨⟨live, bs, ht'⟩, ?_, hd, fun p crColor hp => ?_⟩
  · rw [draw_backbuffer]
    exact h.allocated
  · have hbrush := h.brushes p crColor hp
    rw [draw_objects _ _ (h.ne_buffer hbrush)]
    exact hbrush

lemma Serves.brush_ne_zero (h : Serves s) (hp : s.gdi.brushes p = some crColor) : p ≠ 0 := by
  obtain ⟨live, bs, ht⟩ := h.tracks
  rintro rfl
  have hin := ht.holds.inside 0 _ (h.brushes 0 crColor hp)
  exact absurd hin.1 (by decide)

lemma Serves.create (h : Serves s) {r : UInt32} (hc : createSolidBrush s.video crColor = some (r, v)) :
    Serves ⟨v, s.gdi.step r (.createSolidBrush crColor)⟩ ∧ s.gdi.Answers r (.createSolidBrush crColor) := by
  obtain ⟨live, bs, ht⟩ := h.tracks
  obtain ⟨⟨brush, h'⟩, hmalloc, hv⟩ := Option.map_eq_some_iff.mp hc
  dsimp only at hv
  obtain ⟨live', bs', ht'⟩ := ht.malloc hmalloc
  have hstep : HeapStep s.video.objects s.video.heap (.malloc 4 brush) h' := .malloc hmalloc
  have hd := h.displays.heap ht h.allocated hstep trivial
  have hfresh : brush = 0 ∨ s.video.objects brush = none := by
    obtain ⟨q, h₁, hc', hq⟩ := ht.serves.1 4
    rw [hmalloc] at hc'
    obtain ⟨rfl, -⟩ := Prod.mk.inj (Option.some.inj hc')
    exact hq
  by_cases hb : brush = 0
  · rw [if_pos hb] at hv
    obtain ⟨rfl, rfl⟩ := Prod.mk.inj hv
    refine ⟨⟨⟨live', bs', ht'⟩, h.allocated, hd, ?_⟩, Or.inl rfl⟩
    subst hb
    exact h.brushes
  · rw [if_neg hb] at hv
    obtain ⟨rfl, rfl⟩ := Prod.mk.inj hv
    have hnone := hfresh.resolve_left hb
    obtain ⟨buffer, hbuffer, -⟩ := h.displays.picture
    have hne : s.video.backbuffer ≠ brush := by
      intro heq
      rw [heq, hnone] at hbuffer
      cases hbuffer
    have husable : usable 4 = 4 := by decide
    have hobject : s.video.objects.step (.malloc 4 brush) brush = some ⟨4, fun _ => none⟩ := by
      rw [Objects.step, if_neg hb, Function.update_self, husable]
    have hin : ∀ w ∈ row 0 4 (byteOf crColor), w.1 < 4 := (below_row 0 4 4 _).mpr (Or.inr (by omega))
    obtain ⟨ht'', hafter, -⟩ := Video.stores_object (v := ⟨h', s.video.objects.step (.malloc 4 brush),
      s.video.backbuffer⟩) ht' hobject hin
    refine ⟨⟨⟨live', bs', ht''⟩, ?_, ?_, fun p c hp => ?_⟩, Or.inr ?_⟩
    · rw [stores_backbuffer]
      exact h.allocated
    · rw [Gdi.step, if_neg hb]
      exact hd.stores ht' hobject hne hin
    · simp only [Gdi.step, if_neg hb] at hp
      rw [hafter]
      by_cases hpb : p = brush
      · rw [hpb, Function.update_self] at hp ⊢
        rw [← Option.some.inj hp]
        rfl
      · rw [Function.update_of_ne hpb] at hp ⊢
        dsimp only
        rw [Objects.step, if_neg hb, Function.update_of_ne hpb]
        exact h.brushes p c hp
    · cases hbrush : s.gdi.brushes brush with
      | none => rfl
      | some c =>
        rw [h.brushes brush c hbrush] at hnone
        cases hnone

lemma Serves.delete (h : Serves s) {hObject r : UInt32} (ha : s.gdi.Allows (.deleteObject hObject))
    (hc : deleteObject s.video hObject = some (r, v)) :
    Serves ⟨v, s.gdi.step r (.deleteObject hObject)⟩ ∧ s.gdi.Answers r (.deleteObject hObject) := by
  unfold deleteObject at hc
  by_cases h0 : hObject = 0
  · rw [if_pos h0] at hc
    obtain ⟨rfl, rfl⟩ := Prod.mk.inj (Option.some.inj hc)
    refine ⟨⟨h.tracks, h.allocated, h.displays, fun p c hp => h.brushes p c ?_⟩, (if_pos h0).symm⟩
    simp only [Gdi.step] at hp
    by_cases hpo : p = hObject
    · rw [hpo, Function.update_self] at hp
      cases hp
    · rwa [Function.update_of_ne hpo] at hp
  · rw [if_neg h0] at hc
    obtain ⟨h', hfree, hv⟩ := Option.map_eq_some_iff.mp hc
    obtain ⟨rfl, rfl⟩ := Prod.mk.inj hv
    obtain ⟨c₀, hc₀⟩ := Option.isSome_iff_exists.mp (ha.resolve_left h0)
    have hobject := h.brushes hObject c₀ hc₀
    obtain ⟨live, bs, ht⟩ := h.tracks
    have hstep : HeapStep s.video.objects s.video.heap (.free hObject) h' :=
      .free (Or.inr (by rw [hobject]; rfl)) hfree
    refine ⟨⟨ht.step hstep, h.allocated, h.displays.heap ht h.allocated hstep (Or.inr (h.ne_buffer hobject)),
      fun p c hp => ?_⟩, (if_neg h0).symm⟩
    simp only [Gdi.step] at hp
    by_cases hpo : p = hObject
    · rw [hpo, Function.update_self] at hp
      cases hp
    · rw [Function.update_of_ne hpo] at hp
      exact (Function.update_of_ne hpo _ _).trans (h.brushes p c hp)

lemma Serves.fill (h : Serves s) {hbr : UInt32} (lprc : Option Rect) (ha : s.gdi.Allows (.fillRect lprc hbr)) :
    Serves ⟨(fillRect s.video lprc hbr).2, s.gdi.step (fillRect s.video lprc hbr).1 (.fillRect lprc hbr)⟩ ∧
      s.gdi.Answers (fillRect s.video lprc hbr).1 (.fillRect lprc hbr) := by
  cases lprc with
  | none => exact ⟨h, (if_pos (Or.inl rfl)).symm⟩
  | some rect =>
    by_cases h0 : hbr = 0
    · have hnone : s.gdi.brushes hbr = none := by
        cases hb : s.gdi.brushes hbr with
        | none => rfl
        | some c => exact absurd h0 (h.brush_ne_zero hb)
      simp only [fillRect, if_pos h0, Gdi.step, hnone, Gdi.Answers]
      exact ⟨h, (if_pos (Or.inr h0)).symm⟩
    · obtain ⟨c, hc⟩ := Option.isSome_iff_exists.mp (ha.resolve_left h0)
      obtain ⟨live, bs, ht⟩ := h.tracks
      simp only [fillRect, if_neg h0, Gdi.step, hc, Gdi.Answers, load_brush ht (h.brushes hbr c hc)]
      exact ⟨h.draw _, (if_neg (by simp [h0])).symm⟩

lemma Serves.text (h : Serves s) (x y : Int32) (lpString : Option (ℕ → UInt8)) (c : Int32) :
    Serves ⟨(textOut s.video x y lpString c).2,
        s.gdi.step (textOut s.video x y lpString c).1 (.textOut x y lpString c)⟩ ∧
      s.gdi.Answers (textOut s.video x y lpString c).1 (.textOut x y lpString c) := by
  cases lpString with
  | none => exact ⟨h, (if_pos (Or.inl rfl)).symm⟩
  | some str =>
    by_cases hc : c ≤ 0
    · have htext : textOut s.video x y (some str) c = (0, s.video) := if_pos hc
      have hpaint : ∀ picture, textOutA picture x y (some str) c = (false, picture) := fun _ => if_pos hc
      rw [htext]
      simp only [Gdi.step, Gdi.Answers, hpaint]
      exact ⟨h, (if_pos (Or.inr hc)).symm⟩
    · have htext : textOut s.video x y (some str) c = (1, s.video.draw _) := if_neg hc
      have hpaint : ∀ picture, textOutA picture x y (some str) c = (true, _) := fun _ => if_neg hc
      rw [htext]
      simp only [Gdi.step, Gdi.Answers, hpaint]
      exact ⟨h.draw _, (if_neg (by simpa using hc)).symm⟩

/-- One call. -/
lemma Serves.call (h : Serves s) {c : GdiCall} (ha : s.gdi.Allows c) {r : UInt32} (hc : c.run s.video = some (r, v)) :
    Serves ⟨v, s.gdi.step r c⟩ ∧ s.gdi.Answers r c := by
  cases c with
  | createSolidBrush crColor => exact h.create hc
  | deleteObject hObject => exact h.delete ha hc
  | fillRect lprc hbr =>
    have hall := h.fill lprc ha
    rw [show fillRect s.video lprc hbr = (r, v) from Option.some.inj hc] at hall
    exact hall
  | rectangle left top right bottom =>
    obtain ⟨rfl, rfl⟩ := Prod.mk.inj (Option.some.inj hc)
    exact ⟨h.draw _, rfl⟩
  | textOut x y lpString c =>
    have hall := h.text x y lpString c
    rw [show textOut s.video x y lpString c = (r, v) from Option.some.inj hc] at hall
    exact hall

lemma Serves.step (h : Serves s) (hs : s.Step s') : Serves s' := by
  cases hs with
  | call ha hc => exact (h.call ha hc).1
  | other hs hspares hbrushes =>
    obtain ⟨live, bs, ht⟩ := h.tracks
    refine ⟨ht.step hs, h.allocated, h.displays.heap ht h.allocated hs hspares, fun p c hp => ?_⟩
    have hobject := h.brushes p c hp
    rw [← hobject]
    exact heapStep_buffer ht hs (hbrushes p (by rw [hp]; rfl)) (by rw [hobject]; rfl) (h.brush_ne_zero hp)
  | render =>
    obtain ⟨live, bs, ht⟩ := h.tracks
    obtain ⟨ht', hd⟩ := h.displays.render ht h.allocated
    refine ⟨⟨live, bs, ht'⟩, ?_, hd, fun p c hp => ?_⟩
    · rw [render_backbuffer]
      exact h.allocated
    · rw [render_objects]
      exact h.brushes p c hp

/-- Every call returns. -/
lemma Serves.returns (h : Serves s) {c : GdiCall} (ha : s.gdi.Allows c) : ∃ r v, c.run s.video = some (r, v) := by
  obtain ⟨live, bs, ht⟩ := h.tracks
  cases c with
  | createSolidBrush crColor =>
    obtain ⟨p, h', hmalloc, -⟩ := ht.serves.1 4
    simp only [GdiCall.run, createSolidBrush, hmalloc, Option.map_some]
    exact ⟨_, _, rfl⟩
  | deleteObject hObject =>
    simp only [GdiCall.run, deleteObject]
    split
    · exact ⟨_, _, rfl⟩
    · next h0 =>
      obtain ⟨c, hc⟩ := Option.isSome_iff_exists.mp (ha.resolve_left h0)
      have hlive : (s.video.objects hObject).isSome := by
        rw [h.brushes hObject c hc]
        rfl
      obtain ⟨h', hfree⟩ := Option.isSome_iff_exists.mp (ht.serves.2 hObject (Or.inr hlive))
      rw [hfree]
      exact ⟨_, _, rfl⟩
  | fillRect lprc hbr => exact ⟨_, _, rfl⟩
  | rectangle left top right bottom => exact ⟨_, _, rfl⟩
  | textOut x y lpString c => exact ⟨_, _, rfl⟩

/-- The drawing calls of applications refine an abstract canvas. Brushes keep the colours that they were created with,
and the screen is the one that the calls lead to, whatever other code does with its own objects on the heap. -/
theorem gdi_refines_canvas {m : Memory} {session : Kheap.Session}
    (hrun : Relation.ReflTransGen Kheap.Session.Step ⟨kheapInit m, fun _ => none⟩ session)
    (hinit : vgaInit session = some v) (hbuffer : v.backbuffer ≠ 0)
    (hr : Relation.ReflTransGen Canvas.Step
      ⟨v, fun _ => none, fun _ => 0, fun i => session.heap.mem (vgaAddress + i)⟩ s) :
    (∀ i < vgaSize, s.video.heap.mem (s.video.backbuffer.toNat + i) = s.gdi.display.picture i ∧
        s.video.heap.mem (vgaAddress + i) = s.gdi.display.screen i) ∧
      (∀ p crColor, s.gdi.brushes p = some crColor → load32 s.video.heap.mem p.toNat = crColor) ∧
      ∀ c, s.gdi.Allows c → ∃ r v', c.run s.video = some (r, v') ∧ s.gdi.Answers r c := by
  obtain ⟨live, bs, ht⟩ := tracks_run hrun
  obtain ⟨⟨live₁, bs₁, ht₁, -⟩, hdisplays, -⟩ := displays_init ht hinit
  have hstart : Serves ⟨v, fun _ => none, fun _ => 0, fun i => session.heap.mem (vgaAddress + i)⟩ :=
    ⟨⟨live₁, bs₁, ht₁⟩, hbuffer, hdisplays hbuffer, fun _ _ hp => by cases hp⟩
  have hserves : Serves s := by
    clear hinit hbuffer ht₁ hdisplays
    induction hr with
    | refl => exact hstart
    | tail _ hs ih => exact ih.step hs
  obtain ⟨live', bs', ht'⟩ := hserves.tracks
  refine ⟨fun i hi => ?_, fun p c hp => load_brush ht' (hserves.brushes p c hp), fun c ha => ?_⟩
  · obtain ⟨object, hobject, hsize, hbytes⟩ := hserves.displays.picture
    exact ⟨(ht'.bytes _ object i _ hobject (hbytes i hi)).2, hserves.displays.screen i hi⟩
  · obtain ⟨r, v', hc⟩ := hserves.returns ha
    exact ⟨r, v', hc, (hserves.call ha hc).2⟩

/-- A heap with room for a brush gives one. -/
lemma createSolidBrush_some (ht : Tracks v.heap v.objects live bs) (hroom : HasRoom bs 4) (crColor : UInt32) :
    ∃ brush v', createSolidBrush v crColor = some (brush, v') ∧ brush ≠ 0 := by
  rcases ht.invariant.kmalloc_used (n := 4) (by decide) with ⟨hnone, -⟩ | ⟨p, h', -, -, -, hp, -, hmalloc, -⟩
  · exact absurd hroom hnone
  · obtain ⟨v', hcreate⟩ : ∃ v', createSolidBrush v crColor = some (p, v') := by
      simp only [createSolidBrush, hmalloc, Option.map_some, if_neg hp]
      exact ⟨_, rfl⟩
    exact ⟨p, v', hcreate, hp⟩

lemma Canvas.Step.create {g : Gdi} (hp : p ≠ 0) (hc : createSolidBrush v crColor = some (p, v')) :
    Canvas.Step ⟨v, g⟩ ⟨v', { g with brushes := Function.update g.brushes p (some crColor) }⟩ := by
  have hstep : Canvas.Step ⟨v, g⟩ ⟨v', g.step p (.createSolidBrush crColor)⟩ := .call trivial hc
  rwa [Gdi.step, if_neg hp] at hstep

lemma Canvas.Step.fill {g : Gdi} (hp : g.brushes p = some crColor) (r : Rect) :
    ∃ v', Canvas.Step ⟨v, g⟩ ⟨v', g.paint fun picture =>
      osGuiFillRect picture (sized r.left r.top r.right r.bottom) (crColor &&& 0xFF).toUInt8⟩ := by
  have hstep : Canvas.Step ⟨v, g⟩ ⟨_, g.step _ (.fillRect (some r) p)⟩ := .call (Or.inr (by rw [hp]; rfl)) rfl
  simp only [Gdi.step, hp] at hstep
  exact ⟨_, hstep⟩

/-- A brush is created, and a rectangle is filled with it and shown. -/
theorem gdi_refines_canvas_fill : ∃ (s : Canvas) (brush : UInt32), s.gdi.brushes brush = some 4 ∧
    load32 s.video.heap.mem brush.toNat = 4 ∧ s.video.heap.mem (vgaAddress + 323) = 4 := by
  obtain ⟨h, hmalloc⟩ : ∃ h, kmalloc (kheapInit fun _ => 0) 64000 = some (0xD0000010, h) := ⟨_, rfl⟩
  obtain ⟨v, hinit, hbuffer⟩ := vgaInit_eq (s := ⟨kheapInit fun _ => 0, fun _ => none⟩) hmalloc
  have hallocated : v.backbuffer ≠ 0 := by
    rw [hbuffer]
    decide
  obtain ⟨⟨live, bs, ht, hcarve⟩, -⟩ := displays_init (tracks_start _) hinit
  have hroom : HasRoom bs 4 := by
    obtain ⟨-, rfl⟩ := Prod.mk.inj (Option.some.inj (hcarve hallocated))
    unfold HasRoom
    decide
  obtain ⟨brush, v₁, hcreate, hbrush⟩ := createSolidBrush_some ht hroom 4
  have hcreated : Function.update (fun _ => none) brush (some (4 : UInt32)) brush = some 4 := Function.update_self ..
  obtain ⟨v₂, hfill⟩ := Canvas.Step.fill (v := v₁) (g := ⟨Function.update (fun _ => none) brush (some 4),
    fun _ => 0, fun i => (kheapInit fun _ => 0).mem (vgaAddress + i)⟩) hcreated ⟨3, 1, 6, 4⟩
  obtain ⟨hshown, hcolors, -⟩ := gdi_refines_canvas .refl hinit hallocated
    (.head (.create hbrush hcreate) (.head hfill (.head .render .refl)))
  refine ⟨_, brush, hcreated, hcolors brush 4 hcreated, ?_⟩
  rw [(hshown 323 (by decide)).2]
  change osGuiFillRect (fun _ => 0) (sized 3 1 6 4) 4 323 = 4
  decide

end Steps

end SBoy28.Windows
