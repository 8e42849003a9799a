import Mathlib.Logic.Function.Basic
import Mathlib.Data.Set.Defs
import Mathlib.Tactic.Common

/-!
# Memory behind a translation

A program reads and writes at virtual addresses, and the processor looks up where they are. The tables it looks them
up in may stand in the same memory; addresses that share no place with each other and with the tables are as good as
memory of their own.
-/

namespace SBoy28.Lib

variable {σ V P B : Type*}

/-- A store of bytes at places of type `P`, with a translation of addresses. -/
structure Mmu (σ V P B : Type*) [DecidableEq P] where
  byte : σ → P → B
  put : σ → P → B → σ
  walk : σ → V → Option P
  byte_put : ∀ s a b, byte (put s a b) = Function.update (byte s) a b

namespace Mmu

variable [DecidableEq P] (M : Mmu σ V P B)

def load (s : σ) (v : V) : Option B := (M.walk s v).map (M.byte s)

/-- A store; there is no result if the address is not mapped. -/
def store (s : σ) (v : V) (b : B) : Option σ := (M.walk s v).map fun a => M.put s a b

def stores (s : σ) : List (V × B) → Option σ
  | [] => some s
  | (v, b) :: l => (M.store s v b).bind fun s => stores s l

/-- On `S` the program sees the memory `m`. -/
def Shows (S : Set V) (s : σ) (m : V → B) : Prop := ∀ v ∈ S, M.load s v = some (m v)

/-- While `I` holds, the addresses in `S` have places of their own, in which no table stands. -/
structure Isolates (S : Set V) (I : σ → Prop) : Prop where
  mapped : ∀ {s v}, I s → v ∈ S → ∃ a, M.walk s v = some a
  injective : ∀ {s v w}, I s → v ∈ S → w ∈ S → M.walk s v = M.walk s w → v = w
  put : ∀ {s v a} b, I s → v ∈ S → M.walk s v = some a → I (M.put s a b) ∧ M.walk (M.put s a b) = M.walk s

end Mmu

/-- The same stores in a flat memory. -/
def stored [DecidableEq V] (m : V → B) (l : List (V × B)) : V → B := l.foldl (fun m w => Function.update m w.1 w.2) m

/-- Stores at all places of a list lead from a memory to any other one that differs only there. -/
lemma stored_map [DecidableEq V] {m m' : V → B} {l : List V} (h : ∀ v, v ∉ l → m' v = m v) :
    stored m (l.map fun v => (v, m' v)) = m' := by
  induction l generalizing m with
  | nil =>
    funext v
    exact (h v List.not_mem_nil).symm
  | cons w l ih =>
    apply ih (m := Function.update m w (m' w))
    intro v hv
    by_cases hvw : v = w
    · rw [hvw, Function.update_self]
    · rw [Function.update_of_ne hvw]
      exact h v fun hmem => (List.mem_cons.mp hmem).elim hvw hv

namespace Mmu.Isolates

variable [DecidableEq P] [DecidableEq V] {M : Mmu σ V P B} {S : Set V} {I : σ → Prop} {s : σ} {m : V → B}

lemma store (h : M.Isolates S I) (hs : I s) {v : V} (hv : v ∈ S) (b : B) (hm : M.Shows S s m) :
    ∃ s', M.store s v b = some s' ∧ I s' ∧ M.walk s' = M.walk s ∧ M.Shows S s' (Function.update m v b) ∧
      ∀ a, M.walk s v ≠ some a → M.byte s' a = M.byte s a := by
  obtain ⟨a, ha⟩ := h.mapped hs hv
  obtain ⟨hput, hwalk⟩ := h.put b hs hv ha
  refine ⟨M.put s a b, by rw [Mmu.store, ha, Option.map_some], hput, hwalk, ?_, ?_⟩
  · intro w hw
    obtain ⟨c, hc⟩ := h.mapped hs hw
    have hmw := hm w hw
    unfold Mmu.load at hmw ⊢
    rw [hc, Option.map_some] at hmw
    rw [hwalk, hc, Option.map_some, M.byte_put]
    by_cases hwv : w = v
    · obtain rfl : c = a := by
        rw [hwv, ha] at hc
        exact (Option.some.inj hc).symm
      rw [hwv, Function.update_self, Function.update_self]
    · have hca : c ≠ a := by
        intro hca
        apply hwv
        apply h.injective hs hw hv
        rw [hc, ha, hca]
      rw [Function.update_of_ne hwv, Function.update_of_ne hca]
      exact hmw
  · intro c hc
    rw [M.byte_put, Function.update_of_ne]
    rintro rfl
    exact hc ha

/-- A run of stores meets no address that is not mapped, and what it leaves is the flat memory after the same stores;
places behind no address of `S` stay as they are. -/
theorem stores (h : M.Isolates S I) (hs : I s) (hm : M.Shows S s m) {l : List (V × B)} (hl : ∀ w ∈ l, w.1 ∈ S) :
    ∃ s', M.stores s l = some s' ∧ I s' ∧ M.walk s' = M.walk s ∧ M.Shows S s' (stored m l) ∧
      ∀ a, (∀ v ∈ S, M.walk s v ≠ some a) → M.byte s' a = M.byte s a := by
  induction l generalizing s m with
  | nil => exact ⟨s, rfl, hs, rfl, hm, fun a _ => rfl⟩
  | cons w l ih =>
    obtain ⟨hw, hl⟩ := List.forall_mem_cons.mp hl
    obtain ⟨s₁, hstore, hs₁, hwalk, hshows, hrest⟩ := h.store hs hw w.2 hm
    obtain ⟨s₂, hstores, hs₂, hwalk', hshows', hrest'⟩ := ih hs₁ hshows hl
    refine ⟨s₂, ?_, hs₂, hwalk'.trans hwalk, hshows', ?_⟩
    · rw [Mmu.stores, hstore]
      exact hstores
    · intro a ha
      rw [hrest' a (by rwa [hwalk]), hrest a (ha w.1 hw)]

end Mmu.Isolates

end SBoy28.Lib
