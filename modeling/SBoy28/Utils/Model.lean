import Mathlib.Data.UInt
import SBoy28.Lib.Loop
import SBoy28.Lib.Stores

/-!
# Numbers and text

The conversions of `utils.c`. Each of them puts the digits into a temporary, the lowest first, and copies
them back into the buffer of its caller. A character is its code.
-/

namespace SBoy28.Utils
open Lib

/-- What a conversion stores, into its temporary and into the buffer. -/
structure Stores where
  temp : List (ℕ × UInt8)
  buffer : List (ℕ × UInt8)
  deriving DecidableEq, Repr

section Conversions

variable {V : Type} [Zero V] [DecidableEq V] (digit : V → Option UInt8) (rest : V → V)

/-- `while (value > 0) { temp[i++] = digit; value = rest; }`, where a digit that cannot be had is a fault. -/
def digitStep : V × ℕ × List (ℕ × UInt8) → (V × ℕ × List (ℕ × UInt8)) ⊕ Option (ℕ × List (ℕ × UInt8))
  | (value, i, temp) =>
    if value = 0 then .inr (some (i, temp))
    else
      match digit value with
      | none => .inr none
      | some c => .inl (rest value, i + 1, temp ++ [(i, c)])

/-- `while (i > 0) buffer[j++] = temp[--i];` and `buffer[j] = 0;`. -/
def reverseLoop (temp : ℕ → UInt8) : ℕ → ℕ → List (ℕ × UInt8)
  | 0, j => [(j, 0)]
  | i + 1, j => (j, temp i) :: reverseLoop temp i (j + 1)

/-- The body of the three conversions; `temp` is what the temporary holds before. -/
def convert (fuel : ℕ) (temp : ℕ → UInt8) (value : V) : Option Stores :=
  if value = 0 then some ⟨[], [(0, 48), (1, 0)]⟩
  else
    match loop (digitStep digit rest) fuel (value, 0, []) with
    | some (some (i, stores)) => some ⟨stores, reverseLoop (storeAll temp stores) i 0⟩
    | _ => none

end Conversions

/-- `"0123456789ABCDEF"`, with the NUL. -/
def digits : List UInt8 := [48, 49, 50, 51, 52, 53, 54, 55, 56, 57, 65, 66, 67, 68, 69, 70, 0]

def itoa (fuel : ℕ) (temp : ℕ → UInt8) (num : UInt32) (base : Int32) : Option Stores :=
  convert (fun num => if base.toUInt32 = 0 then none else digits[(num % base.toUInt32).toNat]?)
    (fun num => num / base.toUInt32) fuel temp num

def uint32ToStr (fuel : ℕ) (temp : ℕ → UInt8) (value : UInt32) : Option Stores :=
  convert (fun value => some (48 + value % 10).toUInt8) (fun value => value / 10) fuel temp value

section Division

/-- `(r << 1) | ((n >> i) & 1)`. -/
def shiftedRest (n : UInt64) (i : ℕ) (r : UInt64) : UInt64 := (r <<< 1) ||| ((n >>> i.toUInt64) &&& 1)

def u64DivRound (n d : UInt64) (i : ℕ) : UInt64 × UInt64 → UInt64 × UInt64
  | (q, r) =>
    let r := shiftedRest n i r
    if d ≤ r then (q ||| ((1 : UInt64) <<< i.toUInt64), r - d) else (q, r)

def u64Div (n d : UInt64) : UInt64 := (forDown (u64DivRound n d) 64 (0, 0)).1

def u64ModRound (n d : UInt64) (i : ℕ) (r : UInt64) : UInt64 :=
  let r := shiftedRest n i r
  if d ≤ r then r - d else r

def u64Mod (n d : UInt64) : UInt64 := forDown (u64ModRound n d) 64 0

end Division

def uint64ToStr (fuel : ℕ) (temp : ℕ → UInt8) (value : UInt64) : Option Stores :=
  convert (fun value => some (48 + u64Mod value 10).toUInt8) (fun value => u64Div value 10) fuel temp value

section Printing

/-- `while (num > 0) { count++; num /= 10; }`. -/
def countStep : Int32 × UInt32 → (Int32 × UInt32) ⊕ UInt32
  | (num, count) => if 0 < num then .inl (num / 10, count + 1) else .inr count

def digitCount (fuel : ℕ) (num : Int32) : Option UInt32 :=
  if num = 0 then some 1
  else if num < 0 then loop countStep fuel (-num, 1)
  else loop countStep fuel (num, 0)

/-- The characters that `tty_putstring` hands on to `tty_putchar`. -/
def ttyPutstringStep (str : ℕ → UInt8) : ℕ × List UInt8 → (ℕ × List UInt8) ⊕ List UInt8
  | (i, sent) => if str i ≠ 0 then .inl (i + 1, sent ++ [str i]) else .inr sent

/-- What `print_int` sends to the terminal; the arrays are `temp` and `str_num` as they are before. -/
def printInt (fuel : ℕ) (temp strNum : ℕ → UInt8) (num : Int32) : Option (List UInt8) :=
  if num < 0 then do
    let stores ← uint32ToStr fuel temp (-num).toUInt32
    loop (ttyPutstringStep (storeAll strNum stores.buffer)) fuel (0, [45])
  else do
    let stores ← uint32ToStr fuel temp num.toUInt32
    loop (ttyPutstringStep (storeAll strNum stores.buffer)) fuel (0, [])

end Printing

end SBoy28.Utils
