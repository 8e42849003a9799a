import SBoy28.Kheap.Objects
import SBoy28.Windows.Locking

/-!
# The backbuffer on the kernel heap

`vga_init` takes the backbuffer from the kernel heap. All drawing goes into this object, while other code allocates,
frees and writes objects of its own, and `vga_render` copies the object into the video memory.
-/

namespace SBoy28.Windows
open Lib Kheap

section Model

def vgaAddress : ℕ := 0xA0000

def forInt32Stores (start stop : Int32) (body : Int32 → List (ℕ × UInt8)) : List (ℕ × UInt8) :=
  (List.range (stop.toInt - start.toInt).toNat).flatMap fun k => body (start + Int32.ofNat k)

def osGuiFillRectStores (rect : Rect) (color : UInt8) : List (ℕ × UInt8) :=
  forInt32Stores rect.y (rect.y + rect.h) fun y =>
    forInt32Stores rect.x (rect.x + rect.w) fun x => vgaPutPixelStores x.toUInt32 y.toUInt32 color

def osGuiDrawRectOutlineStores (rect : Rect) (color : UInt8) : List (ℕ × UInt8) :=
  (forInt32Stores rect.x (rect.x + rect.w) fun x =>
    vgaPutPixelStores x.toUInt32 rect.y.toUInt32 color ++
      vgaPutPixelStores x.toUInt32 (rect.y + rect.h - 1).toUInt32 color) ++
  forInt32Stores rect.y (rect.y + rect.h) fun y =>
    vgaPutPixelStores rect.x.toUInt32 y.toUInt32 color ++
      vgaPutPixelStores (rect.x + rect.w - 1).toUInt32 y.toUInt32 color

/-- The calls that write the backbuffer; the others of `gui.c` are made of these. -/
inductive DrawOp where
  | locked (c : DrawCall)
  | putPixel (x y : UInt32) (color : UInt8)
  | fillRect (rect : Rect) (color : UInt8)
  | rectOutline (rect : Rect) (color : UInt8)

def DrawOp.stores : DrawOp → List (ℕ × UInt8)
  | locked c => c.stores
  | putPixel x y color => vgaPutPixelStores x y color
  | fillRect rect color => osGuiFillRectStores rect color
  | rectOutline rect color => osGuiDrawRectOutlineStores rect color

/-- The heap with the objects of its clients, and `vga_backbuffer`. -/
structure Video where
  heap : Heap
  objects : Objects
  backbuffer : UInt32

/-- A byte is stored into the object at `p`. -/
def Video.store (p : UInt32) (v : Video) (s : ℕ × UInt8) : Video :=
  { v with
    heap := { v.heap with mem := store8 v.heap.mem (p.toNat + s.1) s.2 }
    objects := v.objects.step (.store p s.1 s.2) }

def Video.stores (v : Video) (p : UInt32) (l : List (ℕ × UInt8)) : Video := l.foldl (Video.store p) v

/-- Without a backbuffer nothing is drawn. -/
def Video.draw (v : Video) (op : DrawOp) : Video :=
  if v.backbuffer = 0 then v else v.stores v.backbuffer op.stores

/-- `memcpy`. -/
def copyBytes (dest src count : ℕ) (m : Memory) : Memory :=
  (List.range count).foldl (fun m i => store8 m (dest + i) (m (src + i))) m

def Video.render (v : Video) : Video :=
  if v.backbuffer = 0 then v
  else { v with heap := { v.heap with mem := copyBytes vgaAddress v.backbuffer.toNat vgaSize v.heap.mem } }

def vgaInit (s : Kheap.Session) : Option Video :=
  (kmalloc s.heap 64000).map fun (p, h) =>
    let v : Video := ⟨h, s.objects.step (.malloc 64000 p), p⟩
    if p = 0 then v else v.stores p (row 0 vgaSize fun _ => 0)

inductive VideoEvent where
  | heap (e : HeapEvent)
  | draw (op : DrawOp)
  | render

/-- The other clients of the heap leave the backbuffer alone. -/
def Spares (p : UInt32) : HeapEvent → Prop
  | .malloc _ _ => True
  | .free q => q = 0 ∨ q ≠ p
  | .store q _ _ => q ≠ p

inductive Video.Step (v : Video) : VideoEvent → Video → Prop where
  | heap {e : HeapEvent} {h' : Heap} (hs : HeapStep v.objects v.heap e h') (hspares : Spares v.backbuffer e) :
    Video.Step v (.heap e) { v with heap := h', objects := v.objects.step e }
  | draw (op : DrawOp) : Video.Step v (.draw op) (v.draw op)
  | render : Video.Step v .render v.render

inductive Video.Run (v : Video) : List VideoEvent → Video → Prop where
  | start : Video.Run v [] v
  | next {es : List VideoEvent} {e : VideoEvent} {v' v'' : Video} (h : Video.Run v es v') (hs : v'.Step e v'') :
    Video.Run v (es ++ [e]) v''

end Model

section Specification

/-- What has been drawn, and what the screen shows of it. -/
structure Display where
  picture : Backbuffer
  screen : Backbuffer

def DrawOp.paint (picture : Backbuffer) : DrawOp → Backbuffer
  | locked c => c.draw picture
  | putPixel x y color => vgaPutPixel picture x y color
  | fillRect rect color => osGuiFillRect picture rect color
  | rectOutline rect color => osGuiDrawRectOutline picture rect color

/-- The heap has no part in it. -/
def Display.step (d : Display) : VideoEvent → Display
  | .heap _ => d
  | .draw op => { d with picture := op.paint d.picture }
  | .render => { d with screen := d.picture }

/-- The bytes of the backbuffer are the picture, and those of the video memory are the screen. -/
structure Displays (v : Video) (d : Display) : Prop where
  picture : ∃ object, v.objects v.backbuffer = some object ∧ object.size = vgaSize ∧
    ∀ i < vgaSize, object.bytes i = some (d.picture i)
  screen : ∀ i < vgaSize, v.heap.mem (vgaAddress + i) = d.screen i

end Specification

section Steps

variable {v v' : Video} {d : Display} {live : Finset UInt32} {bs : List Blk} {e : HeapEvent} {h' : Heap}

lemma Inks.append {color : UInt8} {l l' : List (ℕ × UInt8)} (h : Inks color l) (h' : Inks color l') :
    Inks color (l ++ l') := by
  intro s hs
  cases List.mem_append.mp hs with
  | inl hs => exact h s hs
  | inr hs => exact h' s hs

lemma inks_forInt32 {color : UInt8} {body : Int32 → List (ℕ × UInt8)} (h : ∀ k, Inks color (body k))
    (start stop : Int32) : Inks color (forInt32Stores start stop body) := by
  intro s hs
  obtain ⟨k, -, hs⟩ := List.mem_flatMap.mp hs
  exact h _ s hs

lemma storeAll_forInt32 {body : Int32 → List (ℕ × UInt8)} {draw : Backbuffer → Int32 → Backbuffer}
    (h : ∀ buf k, storeAll buf (body k) = draw buf k) (start stop : Int32) (picture : Backbuffer) :
    storeAll picture (forInt32Stores start stop body) = forInt32 start stop draw picture := by
  unfold forInt32Stores forInt32
  rw [storeAll_flatMap]
  congr 1
  funext buf k
  exact h buf _

lemma inks_fillRect (rect : Rect) (color : UInt8) : Inks color (osGuiFillRectStores rect color) := by
  unfold osGuiFillRectStores
  apply inks_forInt32
  intro y
  apply inks_forInt32
  intro x
  exact inks_putPixel _ _ _

lemma inks_rectOutline (rect : Rect) (color : UInt8) : Inks color (osGuiDrawRectOutlineStores rect color) := by
  unfold osGuiDrawRectOutlineStores
  apply Inks.append
  · apply inks_forInt32
    intro x
    exact (inks_putPixel _ _ _).append (inks_putPixel _ _ _)
  · apply inks_forInt32
    intro y
    exact (inks_putPixel _ _ _).append (inks_putPixel _ _ _)

lemma storeAll_fillRect (rect : Rect) (color : UInt8) (picture : Backbuffer) :
    storeAll picture (osGuiFillRectStores rect color) = osGuiFillRect picture rect color := by
  unfold osGuiFillRectStores osGuiFillRect
  apply storeAll_forInt32
  intro buf y
  apply storeAll_forInt32
  intro buf x
  exact storeAll_putPixel _ _ _

lemma storeAll_rectOutline (rect : Rect) (color : UInt8) (picture : Backbuffer) :
    storeAll picture (osGuiDrawRectOutlineStores rect color) = osGuiDrawRectOutline picture rect color := by
  have hpair : ∀ (x y x' y' : UInt32) (buf : Backbuffer),
      storeAll buf (vgaPutPixelStores x y color ++ vgaPutPixelStores x' y' color) =
        vgaPutPixel (vgaPutPixel buf x y color) x' y' color := by
    intro x y x' y' buf
    rw [storeAll_append, storeAll_putPixel, storeAll_putPixel]
  unfold osGuiDrawRectOutlineStores osGuiDrawRectOutline
  rw [storeAll_append, storeAll_forInt32 fun buf y => hpair _ _ _ _ buf,
    storeAll_forInt32 fun buf x => hpair _ _ _ _ buf]

lemma DrawOp.inks (op : DrawOp) : ∃ color, Inks color op.stores := by
  cases op with
  | locked c => exact ⟨c.color, c.inks⟩
  | putPixel x y color => exact ⟨color, inks_putPixel x y color⟩
  | fillRect rect color => exact ⟨color, inks_fillRect rect color⟩
  | rectOutline rect color => exact ⟨color, inks_rectOutline rect color⟩

lemma DrawOp.storeAll_stores (op : DrawOp) (picture : Backbuffer) :
    storeAll picture op.stores = op.paint picture := by
  cases op with
  | locked c => exact Windows.storeAll_stores c picture
  | putPixel x y color => exact storeAll_putPixel x y color
  | fillRect rect color => exact storeAll_fillRect rect color picture
  | rectOutline rect color => exact storeAll_rectOutline rect color picture

/-- The video memory is below the heap. -/
lemma heapStep_screen (ht : Tracks v.heap v.objects live bs) (hs : HeapStep v.objects v.heap e h') {i : ℕ}
    (hi : i < vgaSize) : h'.mem (vgaAddress + i) = v.heap.mem (vgaAddress + i) := by
  have hbelow : vgaAddress + i < heapStart := by
    unfold vgaSize at hi
    unfold vgaAddress heapStart
    omega
  have hkept : Kheap.Kept bs (vgaAddress + i) := Or.inl (Or.inl hbelow)
  cases hs with
  | malloc hc => exact ht.invariant.kmalloc_kept hc hkept
  | @free p _ hp hc =>
    by_cases hlive : p ∈ live
    · exact ht.invariant.kfree_kept hlive hc hkept
    · have hzero : p = 0 := hp.resolve_right fun hsome => hlive ((ht.owned p).mpr hsome)
      rw [kfree, if_pos hzero] at hc
      rw [← Option.some.inj hc]
  | @store p j object b hp hj =>
    have hin := ht.holds.inside p object hp
    exact store8_other _ _ (by omega)

/-- The objects that the heap gives away and takes back are others. -/
lemma heapStep_buffer (ht : Tracks v.heap v.objects live bs) (hs : HeapStep v.objects v.heap e h') {p : UInt32}
    (hspares : Spares p e) (hp : (v.objects p).isSome) (hp0 : p ≠ 0) : v.objects.step e p = v.objects p := by
  cases hs with
  | @malloc n q _ hc =>
    rw [Objects.step]
    split
    · rfl
    · next hq =>
      obtain ⟨q', h₁, hc', hfresh⟩ := ht.serves.1 n
      rw [hc] at hc'
      obtain ⟨rfl, -⟩ := Prod.mk.inj (Option.some.inj hc')
      have hnone := hfresh.resolve_left hq
      refine Function.update_of_ne (fun hpq => ?_) _ _
      rw [hpq, hnone] at hp
      cases hp
  | @free q _ hq hc =>
    refine Function.update_of_ne (fun hpq => ?_) _ _
    subst hpq
    obtain hzero | hne := hspares
    · exact hp0 hzero
    · exact hne rfl
  | @store q j object b hq hj => exact Function.update_of_ne (Ne.symm hspares) _ _

lemma Displays.heap (ht : Tracks v.heap v.objects live bs) (hd : Displays v d) (hp0 : v.backbuffer ≠ 0)
    (hs : HeapStep v.objects v.heap e h') (hspares : Spares v.backbuffer e) :
    Displays { v with heap := h', objects := v.objects.step e } d := by
  obtain ⟨object, hobject, hsize, hbytes⟩ := hd.picture
  constructor
  · refine ⟨object, ?_, hsize, hbytes⟩
    rw [← hobject]
    exact heapStep_buffer ht hs hspares (by rw [hobject]; rfl) hp0
  · intro i hi
    rw [← hd.screen i hi]
    exact heapStep_screen ht hs hi

/-- The bytes of the stores. -/
def known (l : List (ℕ × UInt8)) : List (ℕ × Option UInt8) := l.map fun s => (s.1, some s.2)

lemma known_row (a n : ℕ) (b : ℕ → UInt8) : known (row a n b) = row a n fun i => some (b i) := by
  simp only [known, row, List.map_map, Function.comp_def]

lemma storeAll_known {bytes : ℕ → Option UInt8} {picture : Backbuffer} {i : ℕ} (h : bytes i = some (picture i))
    (l : List (ℕ × UInt8)) : storeAll bytes (known l) i = some (storeAll picture l i) := by
  induction l generalizing bytes picture with
  | nil => exact h
  | cons s l ih =>
    change storeAll (Function.update bytes s.1 (some s.2)) (known l) i =
      some (storeAll (Function.update picture s.1 s.2) l i)
    apply ih
    by_cases his : i = s.1
    · rw [his, Function.update_self, Function.update_self]
    · rw [Function.update_of_ne his, Function.update_of_ne his, h]

@[simp] lemma stores_backbuffer (v : Video) (p : UInt32) (l : List (ℕ × UInt8)) :
    (v.stores p l).backbuffer = v.backbuffer := by
  induction l generalizing v with
  | nil => rfl
  | cons s l ih => exact ih (v.store p s)

@[simp] lemma draw_backbuffer (v : Video) (op : DrawOp) : (v.draw op).backbuffer = v.backbuffer := by
  unfold Video.draw
  split
  · rfl
  · exact stores_backbuffer v v.backbuffer op.stores

@[simp] lemma render_backbuffer (v : Video) : v.render.backbuffer = v.backbuffer := by
  unfold Video.render
  split <;> rfl

@[simp] lemma render_objects (v : Video) : v.render.objects = v.objects := by
  unfold Video.render
  split <;> rfl

/-- Stores into an object change no other one, nor what is on the screen. -/
lemma Video.stores_object (ht : Tracks v.heap v.objects live bs) {p : UInt32} {object : Object}
    (hobject : v.objects p = some object) {l : List (ℕ × UInt8)} (hl : ∀ s ∈ l, s.1 < object.size) :
    Tracks (v.stores p l).heap (v.stores p l).objects live bs ∧
      (v.stores p l).objects = Function.update v.objects p (some ⟨object.size, storeAll object.bytes (known l)⟩) ∧
      ∀ i < vgaSize, (v.stores p l).heap.mem (vgaAddress + i) = v.heap.mem (vgaAddress + i) := by
  induction l generalizing v object with
  | nil => exact ⟨ht, (Function.update_eq_self_iff.mpr hobject.symm).symm, fun _ _ => rfl⟩
  | cons s l ih =>
    have hs : s.1 < object.size := hl s List.mem_cons_self
    have hstep : (v.store p s).objects = Function.update v.objects p (some (object.store s.1 s.2)) := by
      simp only [Video.store, Objects.step, hobject, Option.map_some]
    have hobject' : (v.store p s).objects p = some (object.store s.1 s.2) := by rw [hstep, Function.update_self]
    obtain ⟨ht', hafter, hscreen⟩ :=
      ih (v := v.store p s) (ht.store s.2 hobject hs) hobject' fun s' hs' => hl s' (List.mem_cons_of_mem _ hs')
    refine ⟨ht', ?_, fun i hi => ?_⟩
    · rw [hstep, Function.update_idem] at hafter
      exact hafter
    · exact (hscreen i hi).trans (heapStep_screen ht (.store s.2 hobject hs) hi)

lemma Displays.draw (ht : Tracks v.heap v.objects live bs) (hd : Displays v d) (hp0 : v.backbuffer ≠ 0)
    (op : DrawOp) :
    Tracks (v.draw op).heap (v.draw op).objects live bs ∧
      Displays (v.draw op) { d with picture := op.paint d.picture } := by
  obtain ⟨object, hobject, hsize, hbytes⟩ := hd.picture
  obtain ⟨color, hinks⟩ := op.inks
  obtain ⟨ht', hafter, hscreen⟩ := Video.stores_object ht hobject fun s hs => hsize ▸ (hinks s hs).1
  rw [Video.draw, if_neg hp0]
  refine ⟨ht', ⟨⟨object.size, storeAll object.bytes (known op.stores)⟩, ?_, hsize, fun i hi => ?_⟩, fun i hi => ?_⟩
  · rw [stores_backbuffer, hafter, Function.update_self]
  · rw [← op.storeAll_stores]
    exact storeAll_known (hbytes i hi) op.stores
  · exact (hscreen i hi).trans (hd.screen i hi)

/-- The loop copies the bytes as they were, when it does not write what it has still to read. -/
lemma copyBytes_eq {dest src count : ℕ} (hsep : dest + count ≤ src) (m : Memory) :
    copyBytes dest src count m = copyTo m dest (fun i => m (src + i)) count := by
  induction count with
  | zero =>
    rw [copyTo_zero]
    rfl
  | succ count ih =>
    have hstep : copyBytes dest src (count + 1) m = store8 (copyBytes dest src count m) (dest + count)
        (copyBytes dest src count m (src + count)) := by
      unfold copyBytes
      rw [List.range_succ, List.foldl_append]
      rfl
    rw [hstep, ih (by omega), copyTo_outside m _ (by omega)]
    funext a
    by_cases ha : a = dest + count
    · rw [ha, store8_same, copyTo_inside _ _ _ _ _ (Nat.lt_succ_self count)]
    · rw [store8_other _ _ ha]
      by_cases hin : dest ≤ a ∧ a < dest + count
      · obtain ⟨k, rfl⟩ := Nat.exists_eq_add_of_le hin.1
        rw [copyTo_inside _ _ _ _ _ (by omega), copyTo_inside _ _ _ _ _ (by omega)]
      · rw [copyTo_outside _ _ (by omega), copyTo_outside _ _ (by omega)]

/-- A frame is shown; the heap does not notice. -/
lemma Displays.render (ht : Tracks v.heap v.objects live bs) (hd : Displays v d) (hp0 : v.backbuffer ≠ 0) :
    Tracks v.render.heap v.render.objects live bs ∧ Displays v.render { d with screen := d.picture } := by
  obtain ⟨object, hobject, hsize, hbytes⟩ := hd.picture
  have hin := ht.holds.inside _ object hobject
  have hsep : vgaAddress + vgaSize ≤ v.backbuffer.toNat := by
    unfold heapStart at hin
    unfold vgaAddress vgaSize
    omega
  have hcopy : v.render.heap.mem =
      copyTo v.heap.mem vgaAddress (fun i => v.heap.mem (v.backbuffer.toNat + i)) vgaSize := by
    rw [Video.render, if_neg hp0, ← copyBytes_eq hsep]
  have hrender : v.render = ⟨⟨v.render.heap.mem, v.heap.heapHead⟩, v.objects, v.backbuffer⟩ := by
    rw [Video.render, if_neg hp0]
  rw [hrender]
  constructor
  · refine ht.congr fun i hlo _ => ?_
    rw [hcopy]
    refine copyTo_outside _ _ (Or.inr (le_trans ?_ hlo))
    unfold vgaAddress vgaSize heapStart
    omega
  · constructor
    · exact ⟨object, hobject, hsize, hbytes⟩
    · intro i hi
      have hbyte := ht.bytes _ object i (d.picture i) hobject (hbytes i hi)
      change v.render.heap.mem (vgaAddress + i) = d.picture i
      rw [hcopy, copyTo_inside _ _ _ _ _ hi]
      exact hbyte.2

/-- It returns, whatever it gets. -/
lemma vgaInit_eq {s : Kheap.Session} {p : UInt32} {h : Heap} (hmalloc : kmalloc s.heap 64000 = some (p, h)) :
    ∃ v, vgaInit s = some v ∧ v.backbuffer = p := by
  unfold vgaInit
  rw [hmalloc]
  refine ⟨_, rfl, ?_⟩
  dsimp only
  split
  · rfl
  · exact stores_backbuffer _ _ _

/-- `vga_init` gets the backbuffer, which is carved from the first free block with room, or goes without one. -/
lemma displays_init {s : Kheap.Session} (ht : Tracks s.heap s.objects live bs) (hinit : vgaInit s = some v) :
    (∃ live bs', Tracks v.heap v.objects live bs' ∧
        (v.backbuffer ≠ 0 → carve 16 4 vgaSize bs = some (v.backbuffer.toNat, bs'))) ∧
      (v.backbuffer ≠ 0 → Displays v ⟨fun _ => 0, fun i => s.heap.mem (vgaAddress + i)⟩) ∧
      ∀ i < vgaSize, v.heap.mem (vgaAddress + i) = s.heap.mem (vgaAddress + i) := by
  obtain ⟨⟨p, h⟩, hmalloc, hv⟩ := Option.map_eq_some_iff.mp hinit
  dsimp only at hv
  have hscreen := fun i (hi : i < vgaSize) =>
    heapStep_screen (v := ⟨s.heap, s.objects, p⟩) ht (.malloc hmalloc) hi
  obtain ⟨live', bs', ht', hcarve⟩ := ht.malloc_carves hmalloc
  by_cases hp : p = 0
  · rw [if_pos hp] at hv
    subst hv
    exact ⟨⟨live', bs', ht', fun h0 => absurd hp h0⟩, fun h0 => absurd hp h0, hscreen⟩
  · rw [if_neg hp] at hv
    have husable : usable 64000 = vgaSize := by decide
    have hobject : s.objects.step (.malloc 64000 p) p = some ⟨vgaSize, fun _ => none⟩ := by
      rw [Objects.step, if_neg hp, Function.update_self, husable]
    obtain ⟨ht'', hafter, hscreen'⟩ := Video.stores_object (v := ⟨h, s.objects.step (.malloc 64000 p), p⟩) ht' hobject
      (l := row 0 vgaSize fun _ => 0) ((below_row 0 vgaSize vgaSize _).mpr (Or.inr (by omega)))
    have hbuffer : v.backbuffer = p := by rw [← hv, stores_backbuffer]
    rw [hv] at ht'' hafter hscreen'
    have hblack : ∀ i < vgaSize, storeAll (fun _ => none) (known (row 0 vgaSize fun _ => 0)) i = some 0 := by
      intro i hi
      rw [known_row, storeAll_row, if_pos ⟨Nat.zero_le i, by omega⟩]
    have hscreen'' := fun i hi => (hscreen' i hi).trans (hscreen i hi)
    have hafter := congrFun hafter v.backbuffer
    rw [hbuffer, Function.update_self, ← hbuffer] at hafter
    refine ⟨⟨live', bs', ht'', fun _ => hbuffer ▸ hcarve hp⟩, fun _ => ⟨⟨_, hafter, rfl, ?_⟩, hscreen''⟩, hscreen''⟩
    dsimp only
    exact hblack

end Steps

section Runs

variable {v v' : Video} {es : List VideoEvent}

/-- What holds in a run: with a backbuffer the screen is the one that the drawing leads to, and without one it stays
as it is. -/
def Shows (start : Display) (es : List VideoEvent) (v : Video) : Prop :=
  (∃ live bs, Tracks v.heap v.objects live bs) ∧ (v.backbuffer ≠ 0 → Displays v (es.foldl Display.step start)) ∧
    (v.backbuffer = 0 → ∀ i < vgaSize, v.heap.mem (vgaAddress + i) = start.screen i)

lemma Shows.start {s : Kheap.Session} {live : Finset UInt32} {bs : List Blk} (ht : Tracks s.heap s.objects live bs)
    (hinit : vgaInit s = some v) : Shows ⟨fun _ => 0, fun i => s.heap.mem (vgaAddress + i)⟩ [] v := by
  obtain ⟨⟨live', bs', ht', -⟩, hbuffer, hscreen⟩ := displays_init ht hinit
  exact ⟨⟨live', bs', ht'⟩, hbuffer, fun _ => hscreen⟩

lemma Shows.step {start : Display} (h : Shows start es v) {e : VideoEvent} (hs : v.Step e v') :
    Shows start (es ++ [e]) v' := by
  obtain ⟨⟨live, bs, ht⟩, hbuffer, hnone⟩ := h
  unfold Shows
  rw [List.foldl_append]
  cases hs with
  | heap hs hspares =>
    refine ⟨ht.step hs, fun hp0 => (hbuffer hp0).heap ht hp0 hs hspares, fun hp0 i hi => ?_⟩
    exact (heapStep_screen ht hs hi).trans (hnone hp0 i hi)
  | draw op =>
    by_cases hp0 : v.backbuffer = 0
    · rw [Video.draw, if_pos hp0]
      exact ⟨⟨live, bs, ht⟩, fun h0 => absurd hp0 h0, hnone⟩
    · obtain ⟨ht', hd'⟩ := (hbuffer hp0).draw ht hp0 op
      exact ⟨⟨live, bs, ht'⟩, fun _ => hd', fun h0 => absurd (draw_backbuffer v op ▸ h0) hp0⟩
  | render =>
    by_cases hp0 : v.backbuffer = 0
    · rw [Video.render, if_pos hp0]
      exact ⟨⟨live, bs, ht⟩, fun h0 => absurd hp0 h0, hnone⟩
    · obtain ⟨ht', hd'⟩ := (hbuffer hp0).render ht hp0
      exact ⟨⟨live, bs, ht'⟩, fun _ => hd', fun h0 => absurd (render_backbuffer v ▸ h0) hp0⟩

lemma Shows.run {start : Display} (h : Shows start [] v) (hr : v.Run es v') : Shows start es v' := by
  induction hr with
  | start => exact h
  | next _ hs ih => exact ih.step hs

/-- What has been drawn is in the backbuffer, and what has been drawn before the last `vga_render` is on the screen,
whatever other code allocates, frees and writes. Nothing that is drawn gets into another object, and when `vga_init`
finds no room for the backbuffer the screen stays as it is. -/
theorem screen_survives_heap {m : Memory} {s : Kheap.Session} {v' : Video}
    (hrun : Relation.ReflTransGen Kheap.Session.Step ⟨kheapInit m, fun _ => none⟩ s) (hinit : vgaInit s = some v)
    (hr : v.Run es v') :
    let d := es.foldl Display.step ⟨fun _ => 0, fun i => s.heap.mem (vgaAddress + i)⟩
    Holds v'.heap v'.objects ∧
      (v'.backbuffer ≠ 0 → ∀ i < vgaSize, v'.heap.mem (v'.backbuffer.toNat + i) = d.picture i ∧
        v'.heap.mem (vgaAddress + i) = d.screen i) ∧
      (v'.backbuffer = 0 → ∀ i < vgaSize, v'.heap.mem (vgaAddress + i) = s.heap.mem (vgaAddress + i)) := by
  obtain ⟨live, bs, ht⟩ := tracks_run hrun
  obtain ⟨⟨live', bs', ht'⟩, hdisplays, hnone⟩ := (Shows.start ht hinit).run hr
  refine ⟨ht'.holds, fun hp0 i hi => ?_, hnone⟩
  have hd := hdisplays hp0
  obtain ⟨object, hobject, hsize, hbytes⟩ := hd.picture
  exact ⟨(ht'.bytes _ object i _ hobject (hbytes i hi)).2, hd.screen i hi⟩

/-- The heap serves other code next to the backbuffer. -/
lemma Shows.malloc {start : Display} (h : Shows start es v) (n : UInt32) :
    ∃ p v', v.Step (.heap (.malloc n p)) v' ∧ v'.backbuffer = v.backbuffer := by
  obtain ⟨⟨live, bs, ht⟩, -⟩ := h
  obtain ⟨p, h', hmalloc, -⟩ := ht.serves.1 n
  exact ⟨p, _, .heap (.malloc hmalloc) trivial, rfl⟩

/-- A pixel is drawn, 100 bytes are allocated, and a frame is shown. -/
theorem screen_survives_heap_pixel : ∃ (v v' : Video) (p : UInt32),
    v.Run [.draw (.putPixel 3 1 white), .heap (.malloc 100 p), .render] v' ∧ Holds v'.heap v'.objects ∧
      v'.backbuffer = 0xD0000010 ∧ v'.heap.mem (vgaAddress + 323) = white := by
  obtain ⟨h, hmalloc⟩ : ∃ h, kmalloc (kheapInit fun _ => 0) 64000 = some (0xD0000010, h) := ⟨_, rfl⟩
  obtain ⟨v, hinit, hbuffer⟩ := vgaInit_eq (s := ⟨kheapInit fun _ => 0, fun _ => none⟩) hmalloc
  have hdrawn : v.Step _ _ := .draw (.putPixel 3 1 white)
  obtain ⟨p, v₂, hmalloc', hbuffer₂⟩ := ((Shows.start (tracks_start _) hinit).step hdrawn).malloc 100
  have hrun := ((Video.Run.start.next hdrawn).next hmalloc').next .render
  have hsame : v₂.render.backbuffer = 0xD0000010 := by
    rw [render_backbuffer, hbuffer₂, draw_backbuffer, hbuffer]
  obtain ⟨hholds, hbytes, -⟩ := screen_survives_heap .refl hinit hrun
  refine ⟨v, _, p, hrun, hholds, hsame, ?_⟩
  rw [(hbytes (by rw [hsame]; decide) 323 (by decide)).2]
  change vgaPutPixel (fun _ => 0) 3 1 white 323 = white
  decide

end Runs

end SBoy28.Windows
