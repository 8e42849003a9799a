import Mathlib.Order.Bounds.Basic
import Mathlib.Order.Monotone.Basic
import SBoy28.Rtc.Model

/-!
# Sleeping

`Sleep` takes the time that has passed from two readings of the seconds, so that it sees the time only up to
whole minutes. It never comes to 60 seconds, and a sleep of a minute or more does not end.
-/

namespace SBoy28.Rtc
open Lib

section Specification

variable (clock : Clock) (ports : Ports)

/-- What the clock shows at the `k`-th reading of the seconds. -/
def reading (k : ℕ) : ℕ := clock (ports.access + 2 * k + 1)

/-- A clock that is read at least once in every second. -/
structure Ticks : Prop where
  mono : Monotone (reading clock ports)
  step : ∀ k, reading clock ports (k + 1) ≤ reading clock ports k + 1
  unbounded : ∀ t, ∃ k, t ≤ reading clock ports k

/-- `Sleep` ends, with the first reading that the seconds have passed at since the first one. -/
def SleepsRight (n : ℤ) : Prop :=
  ∃ k ports', (∃ fuel, ∀ more, fuel ≤ more → sleep clock more n ports = some ports') ∧
    ports'.access = ports.access + 2 * (k + 1) ∧
      IsLeast {j | n ≤ (reading clock ports j : ℤ) - reading clock ports 0} k

end Specification

variable {clock : Clock} {ports : Ports} {n : ℤ}

section Readings

/-- The seconds that the loop believes to have passed at the `k`-th reading. -/
def seen (clock : Clock) (ports : Ports) (k : ℕ) : ℤ := (reading clock ports k - reading clock ports 0) % 60

/-- The state of the loop after the `k`-th reading. -/
def after (clock : Clock) (ports : Ports) (k : ℕ) : ℤ × Ports :=
  (seen clock ports k, ⟨0, ports.access + 2 * (k + 1)⟩)

lemma seen_zero : seen clock ports 0 = 0 := by
  rw [seen, Int.sub_self]
  rfl

lemma seen_lt (k : ℕ) : seen clock ports k < 60 := Int.emod_lt_of_pos _ (by omega)

lemma sleep_eq (fuel : ℕ) :
    sleep clock fuel n ports =
      loop (sleepStep clock n (seconds (reading clock ports 0))) fuel (after clock ports 0) := by
  unfold sleep after
  rw [getSeconds_eq, seen_zero]
  rfl

/-- The two cases of the loop are the difference up to whole minutes. -/
lemma elapsed_eq (a b : ℕ) :
    (if (seconds b : ℤ) < seconds a then 60 - (seconds a : ℤ) + seconds b else seconds b - seconds a) =
      ((b : ℤ) - a) % 60 := by
  unfold seconds
  split <;> omega

lemma sleepStep_goes {k : ℕ} (h : seen clock ports k < n) :
    sleepStep clock n (seconds (reading clock ports 0)) (after clock ports k) = .inl (after clock ports (k + 1)) := by
  have hread : clock ((after clock ports k).2.access + 1) = reading clock ports (k + 1) := rfl
  have hnext : (after clock ports k).2.access + 2 = ports.access + 2 * (k + 1 + 1) := by
    simp only [after]
    omega
  have helapsed := elapsed_eq (reading clock ports 0) (reading clock ports (k + 1))
  unfold sleepStep
  simp only [getSeconds_eq, hread, hnext]
  rw [if_pos (show (after clock ports k).1 < n from h)]
  by_cases hlt : (seconds (reading clock ports (k + 1)) : ℤ) < seconds (reading clock ports 0)
  · rw [if_pos hlt] at helapsed ⊢
    rw [helapsed]
    rfl
  · rw [if_neg hlt] at helapsed ⊢
    rw [helapsed]
    rfl

lemma sleepStep_leaves {k : ℕ} (h : ¬seen clock ports k < n) :
    sleepStep clock n (seconds (reading clock ports 0)) (after clock ports k) = .inr (after clock ports k).2 := by
  unfold sleepStep
  exact if_neg h

end Readings

section Results

/-- Up to the first reading at which less than a minute has passed, the loop sees the time as it is. -/
lemma seen_eq (h : Ticks clock ports) {k : ℕ} (hk : (reading clock ports k : ℤ) - reading clock ports 0 < 60) :
    seen clock ports k = (reading clock ports k : ℤ) - reading clock ports 0 := by
  have hmono := h.mono (Nat.zero_le k)
  unfold seen
  omega

lemma exists_first (h : Ticks clock ports) (n : ℤ) :
    ∃ k, IsLeast {j | n ≤ (reading clock ports j : ℤ) - reading clock ports 0} k := by
  have hsome : ∃ k, n ≤ (reading clock ports k : ℤ) - reading clock ports 0 := by
    obtain ⟨k, hk⟩ := h.unbounded (n.toNat + reading clock ports 0)
    exact ⟨k, by omega⟩
  classical
  exact ⟨Nat.find hsome, Nat.find_spec hsome, fun j hj => Nat.find_min' hsome hj⟩

/-- A sleep of less than a minute ends in time. The clock goes on by a second at most, so that exactly the
seconds have passed at the first reading. -/
lemma sleepsRight (h : Ticks clock ports) (hn : 0 ≤ n) (hlt : n ≤ 59) : SleepsRight clock ports n := by
  obtain ⟨k, hk⟩ := exists_first h n
  have hbefore : ∀ j < k, (reading clock ports j : ℤ) - reading clock ports 0 < n :=
    fun j hj => not_le.mp fun hle => absurd (hk.2 hle) (by omega)
  have hgoes : ∀ j < k, sleepStep clock n (seconds (reading clock ports 0)) (after clock ports j) =
      .inl (after clock ports (j + 1)) := by
    intro j hj
    have hj' := hbefore j hj
    apply sleepStep_goes
    rwa [seen_eq h (by omega)]
  have hexact : (reading clock ports k : ℤ) - reading clock ports 0 = n := by
    have hle : n ≤ (reading clock ports k : ℤ) - reading clock ports 0 := hk.1
    cases k with
    | zero => omega
    | succ k =>
      have hstep := h.step k
      have hj := hbefore k (by omega)
      omega
  have hleaves : ¬seen clock ports k < n := by
    rw [seen_eq h (by omega)]
    omega
  refine ⟨k, (after clock ports k).2, ⟨k + 1, ?_⟩, rfl, hk⟩
  intro more hmore
  obtain ⟨m, rfl⟩ : ∃ m, more = k + (m + 1) := ⟨more - (k + 1), by omega⟩
  rw [sleep_eq, loop_run hgoes, loop_succ_inr (sleepStep_leaves hleaves)]

/-- A minute is never seen to pass. -/
lemma sleep_endless (hn : 60 ≤ n) (fuel : ℕ) : sleep clock fuel n ports = none := by
  rw [sleep_eq]
  apply loop_endless
  intro k
  have hlt : seen clock ports k < 60 := seen_lt k
  exact sleepStep_goes (by omega)

lemma not_sleepsRight (hn : 60 ≤ n) : ¬SleepsRight clock ports n := by
  rintro ⟨k, ports', ⟨fuel, hruns⟩, -, -⟩
  have hends := hruns fuel le_rfl
  rw [sleep_endless hn] at hends
  cases hends

theorem sleep_right_iff (clock : Clock) (ports : Ports) (h : Ticks clock ports) (n : ℤ) (hn : 0 ≤ n) :
    SleepsRight clock ports n ↔ n ≤ 59 := by
  constructor
  · intro hright
    by_contra hlong
    exact not_sleepsRight (by omega) hright
  · exact sleepsRight h hn

/-- A clock that goes on by a second at every fourth access. -/
def steady : Clock := fun i => i / 4

lemma steady_ticks : Ticks steady ⟨0, 0⟩ where
  mono := by
    intro i j hij
    simp only [reading, steady]
    omega
  step k := by
    simp only [reading, steady]
    omega
  unbounded t := by
    refine ⟨2 * t, ?_⟩
    simp only [reading, steady]
    omega

theorem sleep_right_minute : SleepsRight steady ⟨0, 0⟩ 59 :=
  (sleep_right_iff steady ⟨0, 0⟩ steady_ticks 59 (by omega)).mpr le_rfl

theorem sleep_of_a_minute : Ticks steady ⟨0, 0⟩ ∧ ¬SleepsRight steady ⟨0, 0⟩ 60 :=
  ⟨steady_ticks, not_sleepsRight le_rfl⟩

end Results

end SBoy28.Rtc
