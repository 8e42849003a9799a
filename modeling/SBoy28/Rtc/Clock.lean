import Mathlib.Order.Monotone.Basic
import SBoy28.Rtc.Model

/-!
# The current time

`get_current_time` reads the seconds, then the minutes and then the hours, and does not look again whether the
clock has gone on. If the hour comes around after the minutes have been read, it is the new hour with the old
minutes.
-/

namespace SBoy28.Rtc

section Specification

/-- What a clock that shows `t` looks like. -/
def display (t : ℕ) : List UInt8 := timeStr (hours t) (minutes t) (seconds t)

variable (clock : Clock) (ports : Ports)

/-- What the clock shows at the `i`-th of the six accesses. -/
def shown (i : ℕ) : ℕ := clock (ports.access + i)

/-- The string is what the clock looked like between the first access and the last one. -/
def Consistent : Prop :=
  ∃ t, shown clock ports 0 ≤ t ∧ t ≤ shown clock ports 5 ∧ (getCurrentTime clock ports).1 = display t

/-- The seconds into the hour, with the seconds and the minutes as they have been read. -/
def intoHour : ℕ := 60 * minutes (shown clock ports 3) + seconds (shown clock ports 1)

end Specification

variable {clock : Clock} {ports : Ports}

section Strings

lemma ofNat_inj {a b : ℕ} (ha : a < 256) (hb : b < 256) (h : UInt8.ofNat a = UInt8.ofNat b) : a = b := by
  have hnat := congrArg UInt8.toNat h
  rwa [UInt8.toNat_ofNat', UInt8.toNat_ofNat', Nat.mod_eq_of_lt ha, Nat.mod_eq_of_lt hb] at hnat

lemma digits_inj {a b : ℕ} (ha : a < 100) (hb : b < 100)
    (htens : UInt8.ofNat (48 + a / 10) = UInt8.ofNat (48 + b / 10))
    (hones : UInt8.ofNat (48 + a % 10) = UInt8.ofNat (48 + b % 10)) : a = b := by
  have htens' := ofNat_inj (by omega) (by omega) htens
  have hones' := ofNat_inj (by omega) (by omega) hones
  omega

lemma timeStr_inj {h m s h' m' s' : ℕ} (hh : h < 100) (hm : m < 100) (hs : s < 100) (hh' : h' < 100) (hm' : m' < 100)
    (hs' : s' < 100) : timeStr h m s = timeStr h' m' s' ↔ h = h' ∧ m = m' ∧ s = s' := by
  constructor
  · intro heq
    simp only [timeStr, List.cons.injEq, true_and, and_true] at heq
    obtain ⟨hh₁, hh₂, hm₁, hm₂, hs₁, hs₂⟩ := heq
    exact ⟨digits_inj hh hh' hh₁ hh₂, digits_inj hm hm' hm₁ hm₂, digits_inj hs hs' hs₁ hs₂⟩
  · rintro ⟨rfl, rfl, rfl⟩
    rfl

/-- The seconds are those at the second access, the minutes those at the fourth and the hours at the last. -/
lemma getCurrentTime_eq (clock : Clock) (ports : Ports) : (getCurrentTime clock ports).1 =
    timeStr (hours (shown clock ports 5)) (minutes (shown clock ports 3)) (seconds (shown clock ports 1)) := by
  have hh := fromBcd_bcd (Nat.lt_trans (hours_lt (shown clock ports 5)) (by omega))
  have hm := fromBcd_bcd (Nat.lt_trans (minutes_lt (shown clock ports 3)) (by omega))
  have hs := fromBcd_bcd (Nat.lt_trans (seconds_lt (shown clock ports 1)) (by omega))
  rw [← hh, ← hm, ← hs]
  rfl

lemma getCurrentTime_eq_display (t : ℕ) : (getCurrentTime clock ports).1 = display t ↔
    hours (shown clock ports 5) = hours t ∧ minutes (shown clock ports 3) = minutes t ∧
      seconds (shown clock ports 1) = seconds t := by
  have hh := hours_lt
  have hm := minutes_lt
  have hs := seconds_lt
  rw [getCurrentTime_eq, display]
  apply timeStr_inj <;> exact Nat.lt_trans (by first | exact hh _ | exact hm _ | exact hs _) (by omega)

end Strings

section Results

/-- The time that was read, on the day of the last access. -/
def readTime (clock : Clock) (ports : Ports) : ℕ := 3600 * (shown clock ports 5 / 3600) + intoHour clock ports

lemma intoHour_lt (clock : Clock) (ports : Ports) : intoHour clock ports < 3600 := by
  have hm := minutes_lt (shown clock ports 3)
  have hs := seconds_lt (shown clock ports 1)
  unfold intoHour
  omega

lemma parts_iff {T t m s : ℕ} (hm : m < 60) (hs : s < 60) :
    (hours T = hours t ∧ m = minutes t ∧ s = seconds t) ↔
      t % 86400 = (3600 * (T / 3600) + (60 * m + s)) % 86400 := by
  unfold hours minutes seconds
  constructor
  · intro h
    omega
  · intro h
    refine ⟨?_, ?_, ?_⟩ <;> omega

lemma consistent_iff : Consistent clock ports ↔
    ∃ t, shown clock ports 0 ≤ t ∧ t ≤ shown clock ports 5 ∧ t % 86400 = readTime clock ports % 86400 := by
  unfold Consistent readTime intoHour
  simp only [getCurrentTime_eq_display, parts_iff (minutes_lt _) (seconds_lt _)]

/-- What was read is not before the second access: a part that was read later has only grown since. -/
lemma le_readTime (ports : Ports) (h : Monotone clock) : shown clock ports 0 ≤ readTime clock ports := by
  have h01 : shown clock ports 0 ≤ shown clock ports 1 := h (by omega)
  have h13 : shown clock ports 1 ≤ shown clock ports 3 := h (by omega)
  have h35 : shown clock ports 3 ≤ shown clock ports 5 := h (by omega)
  unfold readTime intoHour minutes seconds
  omega

theorem current_time_consistent_iff (clock : Clock) (ports : Ports) (h : Monotone clock) :
    Consistent clock ports ↔ intoHour clock ports ≤ shown clock ports 5 % 3600 ∨
      shown clock ports 0 + 86400 ≤ 3600 * (shown clock ports 5 / 3600) + intoHour clock ports := by
  have hle := le_readTime ports h
  have hlt := intoHour_lt clock ports
  rw [consistent_iff]
  unfold readTime at *
  constructor
  · rintro ⟨t, hfirst, hlast, hday⟩
    -- A time with the same parts is a whole number of days away.
    by_contra hnot
    push Not at hnot
    omega
  · rintro (hhour | hday)
    · exact ⟨_, hle, by omega, rfl⟩
    · exact ⟨3600 * (shown clock ports 5 / 3600) + intoHour clock ports - 86400, by omega, by omega, by omega⟩

/-- A minute before one at the first access, and a second later at every other one. -/
theorem current_time_consistent_ticking : Consistent (fun i => 46740 + i) ⟨0, 0⟩ :=
  (current_time_consistent_iff _ _ fun _ _ hij => Nat.add_le_add_left hij _).mpr (Or.inl (by decide))

/-- The clock strikes one after the minutes have been read. -/
def striking : Clock := fun i => if i < 4 then 46799 else 46800

lemma striking_mono : Monotone striking := by
  intro i j hij
  unfold striking
  split <;> split <;> omega

/-- It was 12:59:59 and then 13:00:00, and what is read is 13:59:59. -/
theorem current_time_struck : Monotone striking ∧ ¬Consistent striking ⟨0, 0⟩ := by
  refine ⟨striking_mono, ?_⟩
  rw [consistent_iff]
  rintro ⟨t, hfirst, hlast, hday⟩
  have hread : readTime striking ⟨0, 0⟩ = 50399 := by decide
  have hstart : shown striking ⟨0, 0⟩ 0 = 46799 := rfl
  have hend : shown striking ⟨0, 0⟩ 5 = 46800 := rfl
  omega

end Results

end SBoy28.Rtc
