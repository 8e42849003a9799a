import Mathlib.Tactic.IntervalCases
import SBoy28.Lib.Stores
import SBoy28.Lib.Strings

/-!
# The boot log

`draw_boot_log_line` formats a line into a buffer of 64 bytes. The status is copied as long as its characters
go to the buffer, so there may be no room left for the zero at the end.
-/

namespace SBoy28.Kmain
open Lib

section Format

/-- `while (i >= 0) buf[i--] = '0'`, with `i + 1` cells to go. -/
def zeroLoop (buf : ℕ) : ℕ → List (ℕ × UInt8)
  | 0 => []
  | i + 1 => (buf + i, 48) :: zeroLoop buf i

/-- `while (val > 0 && i >= 0)`, and the zeros in front of the digits. -/
def digitLoop (buf : ℕ) : ℕ → ℤ → List (ℕ × UInt8)
  | 0, _ => []
  | i + 1, val =>
    if val > 0 then (buf + i, UInt8.ofInt (48 + val.tmod 10)) :: digitLoop buf i (val.tdiv 10)
    else zeroLoop buf (i + 1)

/-- The stores of `int_to_str`; the width counts the zero at the end. -/
def intToStr (val : ℤ) (buf width : ℕ) : List (ℕ × UInt8) :=
  (buf + (width - 1), 0) ::
    if val = 0 then (buf + (width - 2), 48) :: zeroLoop buf (width - 2) else digitLoop buf (width - 1) val

/-- `while (status && status[i] && (i + 11) < 64)`, and the zero behind the last character. -/
def statusLoop (status : Option CString) : ℕ → ℕ → List (ℕ × UInt8)
  | 0, i => [(11 + i, 0)]
  | n + 1, i =>
    match status with
    | none => [(11 + i, 0)]
    | some s =>
      if s.1.getD i 0 ≠ 0 ∧ i + 11 < 64 then (11 + i, s.1.getD i 0) :: statusLoop status n (i + 1)
      else [(11 + i, 0)]

/-- The stores of `format_time_line` into `out`. -/
def formatTimeLine (hours minutes seconds : ℤ) (status : Option CString) : List (ℕ × UInt8) :=
  [(0, 91)] ++ intToStr hours 1 3 ++ [(3, 58)] ++ intToStr minutes 4 3 ++ [(6, 58)] ++ intToStr seconds 7 3 ++
    [(9, 93), (10, 32)] ++ statusLoop status 64 0

end Format

section Specification

def digit (n : ℕ) : UInt8 := UInt8.ofNat (48 + n % 10)

/-- `[hh:mm:ss]` and a blank. -/
def timeStamp (hours minutes seconds : ℕ) : List UInt8 :=
  [91, digit (hours / 10), digit hours, 58, digit (minutes / 10), digit minutes, 58, digit (seconds / 10),
    digit seconds, 93, 32]

/-- What `draw_boot_log_line` relies on: the line with the longest part of the status that fits. -/
structure FitsLine (hours minutes seconds : ℕ) (status : CString) : Prop where
  within : Below 64 (formatTimeLine hours minutes seconds (some status))
  ends : ∀ line, ∃ i < 64, storeAll line (formatTimeLine hours minutes seconds (some status)) i = 0
  text : ∀ line, string (storeAll line (formatTimeLine hours minutes seconds (some status))) 64 =
    timeStamp hours minutes seconds ++ status.1.take 52

end Specification

variable {status : CString} {buf k n : ℕ}

section Numbers

/-- The digits of a number from the last one on, and their places. -/
def digits (buf : ℕ) : ℕ → ℕ → List (ℕ × UInt8)
  | 0, _ => []
  | i + 1, n => (buf + i, digit n) :: digits buf i (n / 10)

lemma zeroLoop_eq (buf k : ℕ) : zeroLoop buf k = digits buf k 0 := by
  induction k with
  | zero => rfl
  | succ k ih =>
    rw [zeroLoop, digits, ih]
    rfl

lemma digitLoop_eq (buf k n : ℕ) : digitLoop buf k n = digits buf k n := by
  induction k generalizing n with
  | zero => rfl
  | succ k ih =>
    unfold digitLoop
    by_cases hn : (n : ℤ) > 0
    · have hmod : UInt8.ofInt (48 + (n : ℤ).tmod 10) = digit n := by
        have hcast : 48 + (n : ℤ).tmod 10 = ((48 + n % 10 : ℕ) : ℤ) := by
          rw [Int.tmod_eq_emod_of_nonneg (Int.natCast_nonneg n)]
          omega
        have hsmall : (((48 + n % 10 : ℕ) : ℤ) % 2 ^ 8).toNat = 48 + n % 10 := by omega
        rw [hcast, UInt8.ofInt, hsmall, digit]
      have hdiv : (n : ℤ).tdiv 10 = ((n / 10 : ℕ) : ℤ) := by
        rw [Int.tdiv_eq_ediv_of_nonneg (Int.natCast_nonneg n)]
        omega
      rw [if_pos hn, hmod, hdiv, ih, digits]
    · have hzero : n = 0 := by omega
      rw [if_neg hn, zeroLoop_eq, hzero]

/-- A number is written with as many of its low digits as there is room for. -/
lemma intToStr_eq (n buf k : ℕ) : intToStr n buf (k + 2) = (buf + (k + 1), 0) :: digits buf (k + 1) n := by
  unfold intToStr
  have h1 : k + 2 - 1 = k + 1 := rfl
  have h2 : k + 2 - 2 = k := rfl
  rw [h1, h2]
  by_cases hn : (n : ℤ) = 0
  · have hzero : n = 0 := by omega
    rw [if_pos hn, zeroLoop_eq, hzero, digits]
    rfl
  · rw [if_neg hn, digitLoop_eq]

end Numbers

section Lines

def copied (status : CString) : ℕ := min status.1.length 53

lemma statusLoop_eq (status : CString) {n i : ℕ} (hn : 53 < n + i) (hi : i ≤ copied status) :
    statusLoop (some status) n i =
      row (11 + i) (copied status - i) (fun j => status.1.getD (i + j) 0) ++ [(11 + copied status, 0)] := by
  have hcopied : copied status ≤ 53 := Nat.min_le_right _ _
  induction n generalizing i with
  | zero => omega
  | succ n ih =>
    unfold statusLoop
    rcases Nat.eq_or_lt_of_le hi with heq | hlt
    · have hstop : ¬(status.1.getD i 0 ≠ 0 ∧ i + 11 < 64) := by
        rintro ⟨hne, hlt⟩
        have hlen : status.1.length ≤ i := by
          unfold copied at heq
          omega
        exact hne (List.getD_eq_default _ _ hlen)
      simp only [if_neg hstop, ← heq, Nat.sub_self]
      rfl
    · have hlen : i < status.1.length := Nat.lt_of_lt_of_le hlt (Nat.min_le_left _ _)
      have hgo : status.1.getD i 0 ≠ 0 ∧ i + 11 < 64 := by
        exact ⟨getD_ne_zero status.2 hlen, by omega⟩
      obtain ⟨d, hd⟩ : ∃ d, copied status - i = d + 1 := ⟨copied status - i - 1, by omega⟩
      have hd' : copied status - (i + 1) = d := by omega
      simp only [if_pos hgo]
      rw [ih (by omega) hlt, hd, hd', row_cons]
      have hshift : (fun j => status.1.getD (i + (j + 1)) 0) = fun j => status.1.getD (i + 1 + j) 0 := by
        funext j
        congr 1
        omega
      rw [hshift]
      rfl

/-- The stores before the status: each `int_to_str` ends with a zero that is overwritten. -/
def timeStores (hours minutes seconds : ℕ) : List (ℕ × UInt8) :=
  [(0, 91), (3, 0), (2, digit hours), (1, digit (hours / 10)), (3, 58), (6, 0), (5, digit minutes),
    (4, digit (minutes / 10)), (6, 58), (9, 0), (8, digit seconds), (7, digit (seconds / 10)), (9, 93), (10, 32)]

lemma below_timeStores (hours minutes seconds : ℕ) : Below 11 (timeStores hours minutes seconds) := by
  simp [Below, timeStores]

lemma formatTimeLine_eq (hours minutes seconds : ℕ) (status : CString) :
    formatTimeLine hours minutes seconds (some status) = timeStores hours minutes seconds ++
      (row 11 (copied status) (fun j => status.1.getD j 0) ++ [(11 + copied status, 0)]) := by
  have hstatus := statusLoop_eq status (n := 64) (i := 0) (by omega) (Nat.zero_le _)
  simp only [Nat.zero_add, Nat.add_zero, Nat.sub_zero] at hstatus
  rw [formatTimeLine, hstatus, intToStr_eq hours 1 1, intToStr_eq minutes 4 1, intToStr_eq seconds 7 1]
  rfl

lemma line_eq (line : ℕ → UInt8) (hours minutes seconds : ℕ) (status : CString) (i : ℕ) :
    storeAll line (formatTimeLine hours minutes seconds (some status)) i =
      if i < 11 + copied status then (timeStamp hours minutes seconds ++ status.1).getD i 0
      else if i = 11 + copied status then 0 else line i := by
  have hlen : (timeStamp hours minutes seconds).length = 11 := rfl
  rw [formatTimeLine_eq, storeAll_append, storeAll_append, storeAll_cons, storeAll_nil]
  by_cases hend : i = 11 + copied status
  · rw [if_neg (by omega), if_pos hend, hend, Function.update_self]
  rw [if_neg hend, Function.update_of_ne hend, storeAll_row]
  rcases Nat.lt_or_ge i 11 with hi | hi
  · rw [if_neg (by omega), if_pos (by omega), List.getD_append _ _ _ _ (by rw [hlen]; exact hi)]
    interval_cases i <;> rfl
  · by_cases hin : i < 11 + copied status
    · rw [if_pos ⟨hi, hin⟩, if_pos hin, List.getD_append_right _ _ _ _ (by rw [hlen]; exact hi), hlen]
    · rw [if_neg (by omega), if_neg hin]
      exact storeAll_outside fun s hs =>
        Nat.ne_of_lt (Nat.lt_of_lt_of_le (below_timeStores hours minutes seconds s hs) hi)

lemma digit_ne_zero (n : ℕ) : digit n ≠ 0 := by
  intro hzero
  have hnat := congrArg UInt8.toNat hzero
  rw [digit, UInt8.toNat_ofNat', UInt8.toNat_zero] at hnat
  omega

lemma zero_notMem_timeStamp (hours minutes seconds : ℕ) : (0 : UInt8) ∉ timeStamp hours minutes seconds := by
  simp only [timeStamp, List.mem_cons, List.not_mem_nil, or_false, (digit_ne_zero _).symm, false_or]
  decide

/-- The last store is the zero at the end. -/
lemma below_line (hours minutes seconds : ℕ) (status : CString) :
    Below 64 (formatTimeLine hours minutes seconds (some status)) ↔ status.1.length ≤ 52 := by
  rw [formatTimeLine_eq, below_append, below_append, below_row]
  have hcopied : copied status = min status.1.length 53 := rfl
  constructor
  · rintro ⟨-, -, hend⟩
    have hlast := hend _ (List.mem_singleton_self _)
    omega
  · intro hlen
    refine ⟨fun s hs => ?_, by omega, fun s hs => ?_⟩
    · exact Nat.lt_trans (below_timeStores hours minutes seconds s hs) (by omega)
    · rw [List.mem_singleton.mp hs]
      omega

/-- The line stays in the buffer of 64 bytes just if the status has no more than 52 characters. -/
theorem boot_line_iff (hours minutes seconds : ℕ) (status : CString) :
    FitsLine hours minutes seconds status ↔ status.1.length ≤ 52 := by
  constructor
  · exact fun h => (below_line hours minutes seconds status).mp h.within
  · intro hlen
    have hcopied : copied status = status.1.length := Nat.min_eq_left (by omega)
    have hend : ∀ line, storeAll line (formatTimeLine hours minutes seconds (some status))
        (11 + status.1.length) = 0 := by
      intro line
      rw [line_eq, hcopied, if_neg (Nat.lt_irrefl _), if_pos rfl]
    refine ⟨(below_line hours minutes seconds status).mpr hlen, fun line => ⟨_, by omega, hend line⟩, fun line => ?_⟩
    have htext : (timeStamp hours minutes seconds ++ status.1).length = 11 + status.1.length := by
      rw [List.length_append]
      rfl
    rw [List.take_of_length_le hlen]
    refine string_eq ?_ (by omega) ?_ ?_
    · rw [List.mem_append]
      exact fun h => h.elim (zero_notMem_timeStamp hours minutes seconds) status.2
    · intro j hj
      rw [htext] at hj
      rw [line_eq, hcopied, if_pos hj]
    · intro _
      rw [htext]
      exact hend line

/-- A status of 53 characters leaves no room for the zero, which goes to the byte behind the buffer. -/
theorem boot_line_overrun : ¬FitsLine 12 30 0 ⟨List.replicate 53 97, by decide⟩ := by
  intro h
  exact absurd ((below_line 12 30 0 _).mp h.within) (by decide)

end Lines

end SBoy28.Kmain
