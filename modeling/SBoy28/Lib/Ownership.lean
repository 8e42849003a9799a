import Mathlib.Data.Set.Insert

/-!
# Ownership

Users hold resources of one pool, no two of them the same one, and everything held is marked as
taken.
-/

namespace SBoy28.Lib

variable {ι ρ : Type*} {U : Set ι} {f g : ι → Option ρ} {taken taken' : Set ρ} {u : ι} {r : ρ}

/-- The users in `U` hold different resources, all of them taken. -/
structure Owns (U : Set ι) (f : ι → Option ρ) (taken : Set ρ) : Prop where
  taken : ∀ u ∈ U, ∀ r, f u = some r → r ∈ taken
  distinct : ∀ u ∈ U, ∀ v ∈ U, ∀ r, f u = some r → f v = some r → u = v

namespace Owns

lemma ne_of_fresh (h : Owns U f taken) (hu : u ∈ U) (hr : r ∉ taken) : f u ≠ some r :=
  fun hf => hr (h.taken u hu r hf)

/-- What one user holds no other one does. -/
lemma ne_of_other {v : ι} (h : Owns U f taken) (hu : u ∈ U) (hv : v ∈ U) (hne : v ≠ u) (hf : f u = some r) :
    f v ≠ some r :=
  fun hf' => hne (h.distinct v hv u hu r hf' hf)

lemma mono (h : Owns U f taken) (hsub : taken ⊆ taken') : Owns U f taken' where
  taken u hu r hr := hsub (h.taken u hu r hr)
  distinct := h.distinct

lemma congr (h : Owns U f taken) (he : ∀ u ∈ U, g u = f u) : Owns U g taken where
  taken u hu r hr := h.taken u hu r (he u hu ▸ hr)
  distinct u hu v hv r hr hr' := h.distinct u hu v hv r (he u hu ▸ hr) (he v hv ▸ hr')

/-- Users may forget what they held. -/
lemma forget (h : Owns U f taken) (hg : ∀ u ∈ U, ∀ r, g u = some r → f u = some r) : Owns U g taken where
  taken u hu r hr := h.taken u hu r (hg u hu r hr)
  distinct u hu v hv r hr hr' := h.distinct u hu v hv r (hg u hu r hr) (hg v hv r hr')

/-- A user takes a fresh resource; what it held before stays taken. -/
theorem take (h : Owns U f taken) (hr : r ∉ taken) (hself : g u = some r)
    (hother : ∀ v ∈ U, v ≠ u → g v = f v) : Owns U g (insert r taken) where
  taken v hv s hs := by
    by_cases hvu : v = u
    · subst hvu
      rw [hself, Option.some_inj] at hs
      exact Or.inl hs.symm
    · exact Or.inr (h.taken v hv s (hother v hv hvu ▸ hs))
  distinct v hv w hw s hs hs' := by
    by_cases hvu : v = u
    · by_cases hwu : w = u
      · rw [hvu, hwu]
      · rw [hvu, hself, Option.some_inj] at hs
        rw [hother w hw hwu, ← hs] at hs'
        exact absurd hs' (h.ne_of_fresh hw hr)
    · rw [hother v hv hvu] at hs
      by_cases hwu : w = u
      · rw [hwu, hself, Option.some_inj] at hs'
        rw [← hs'] at hs
        exact absurd hs (h.ne_of_fresh hv hr)
      · rw [hother w hw hwu] at hs'
        exact h.distinct v hv w hw s hs hs'

/-- A user hands its resource over to another one. -/
theorem handOver {v : ι} (h : Owns U f taken) (hu : u ∈ U) (hself : g u = none) (hv : g v = f u)
    (hother : ∀ w ∈ U, w ≠ u → w ≠ v → g w = f w) : Owns U g taken := by
  have hfrom : ∀ w ∈ U, ∀ s, g w = some s → w = v ∧ f u = some s ∨ w ≠ u ∧ f w = some s := by
    intro w hw s hs
    have hwu : w ≠ u := by
      intro he
      rw [he, hself] at hs
      cases hs
    by_cases hwv : w = v
    · exact Or.inl ⟨hwv, hv ▸ hwv ▸ hs⟩
    · exact Or.inr ⟨hwu, hother w hw hwu hwv ▸ hs⟩
  refine ⟨fun w hw s hs => ?_, fun w hw x hx s hs hs' => ?_⟩
  · rcases hfrom w hw s hs with ⟨-, hf⟩ | ⟨-, hf⟩
    · exact h.taken u hu s hf
    · exact h.taken w hw s hf
  · rcases hfrom w hw s hs with ⟨hwv, hf⟩ | ⟨hwu, hf⟩
    · rcases hfrom x hx s hs' with ⟨hxv, -⟩ | ⟨hxu, hf'⟩
      · rw [hwv, hxv]
      · exact absurd (h.distinct x hx u hu s hf' hf) hxu
    · rcases hfrom x hx s hs' with ⟨-, hf'⟩ | ⟨-, hf'⟩
      · exact absurd (h.distinct w hw u hu s hf hf') hwu
      · exact h.distinct w hw x hx s hf hf'

/-- A user gives its resource back. -/
theorem give (h : Owns U f taken) (hu : u ∈ U) (hr : f u = some r) (hself : g u = none)
    (hother : ∀ v ∈ U, v ≠ u → g v = f v) : Owns U g (taken \ {r}) where
  taken v hv s hs := by
    have hvu : v ≠ u := by
      intro he
      rw [he, hself] at hs
      cases hs
    rw [hother v hv hvu] at hs
    refine ⟨h.taken v hv s hs, ?_⟩
    rintro rfl
    exact hvu (h.distinct v hv u hu s hs hr)
  distinct v hv w hw s hs hs' := by
    have hne : ∀ x, g x = some s → x ≠ u := by
      intro x hx he
      rw [he, hself] at hx
      cases hx
    rw [hother v hv (hne v hs)] at hs
    rw [hother w hw (hne w hs')] at hs'
    exact h.distinct v hv w hw s hs hs'

end Owns

end SBoy28.Lib
