import SBoy28.Lib.Loop

/-!
# The real-time clock

`rtc.c`: the clock is read through an index port and a data port, one register at a time. It goes on in between;
what it shows at every access to a port is given, counted in seconds.
-/

namespace SBoy28.Rtc
open Lib

/-- The seconds that a clock shows at the `n`-th access to its ports, from some midnight on. -/
abbrev Clock := ℕ → ℕ

/-- The register that is selected, and the accesses up to now. -/
structure Ports where
  index : UInt8
  access : ℕ
  deriving DecidableEq, Repr

section Registers

def bcd (n : ℕ) : UInt8 := UInt8.ofNat (n / 10 * 16 + n % 10)

def hours (t : ℕ) : ℕ := t / 3600 % 24

def minutes (t : ℕ) : ℕ := t / 60 % 60

def seconds (t : ℕ) : ℕ := t % 60

/-- The registers that the driver reads, in 24-hour mode. -/
def register (t : ℕ) (index : UInt8) : UInt8 :=
  if index = 0x00 then bcd (seconds t)
  else if index = 0x02 then bcd (minutes t)
  else if index = 0x04 then bcd (hours t)
  else 0

/-- `outb(0x70, index)`. -/
def outb (index : UInt8) (ports : Ports) : Ports := ⟨index, ports.access + 1⟩

/-- `inb(0x71)`. -/
def inb (clock : Clock) (ports : Ports) : UInt8 × Ports :=
  (register (clock ports.access) ports.index, ⟨ports.index, ports.access + 1⟩)

end Registers

section Driver

variable (clock : Clock)

def bcdToBinary (bcd : UInt8) : ℤ := ((bcd.toNat >>> 4) * 10 + (bcd.toNat &&& 0x0F) : ℕ)

def getRegister (index : UInt8) (ports : Ports) : ℤ × Ports :=
  let (byte, ports) := inb clock (outb index ports)
  (bcdToBinary byte, ports)

def getSeconds (ports : Ports) : ℤ × Ports := getRegister clock 0x00 ports

/-- `time_str`, with the NUL; the numbers are not negative. -/
def timeStr (hours minutes seconds : ℕ) : List UInt8 :=
  [.ofNat (48 + hours / 10), .ofNat (48 + hours % 10), 58, .ofNat (48 + minutes / 10), .ofNat (48 + minutes % 10),
    58, .ofNat (48 + seconds / 10), .ofNat (48 + seconds % 10), 0]

/-- `((x / 16) * 10) + (x & 0x0F)`. -/
def fromBcd (x : ℕ) : ℕ := x / 16 * 10 + (x &&& 0x0F)

def getCurrentTime (ports : Ports) : List UInt8 × Ports :=
  let (seconds, ports) := inb clock (outb 0x00 ports)
  let (minutes, ports) := inb clock (outb 0x02 ports)
  let (hours, ports) := inb clock (outb 0x04 ports)
  (timeStr (fromBcd hours.toNat) (fromBcd minutes.toNat) (fromBcd seconds.toNat), ports)

def sleepStep (seconds start : ℤ) : ℤ × Ports → (ℤ × Ports) ⊕ Ports
  | (elapsed, ports) =>
    if elapsed < seconds then
      let (current, ports) := getSeconds clock ports
      if current < start then .inl (60 - start + current, ports) else .inl (current - start, ports)
    else .inr ports

def sleep (fuel : ℕ) (seconds : ℤ) (ports : Ports) : Option Ports :=
  let (start, ports) := getSeconds clock ports
  loop (sleepStep clock seconds start) fuel (0, ports)

end Driver

section Conversion

lemma fromBcd_bcd {n : ℕ} (hn : n < 100) : fromBcd (bcd n).toNat = n := by
  have hall : ∀ m : Fin 100, fromBcd (bcd m).toNat = m := by decide
  exact hall ⟨n, hn⟩

lemma bcdToBinary_eq (byte : UInt8) : bcdToBinary byte = fromBcd byte.toNat := by
  rw [bcdToBinary, fromBcd, Nat.shiftRight_eq_div_pow]

lemma hours_lt (t : ℕ) : hours t < 24 := Nat.mod_lt _ (by omega)

lemma minutes_lt (t : ℕ) : minutes t < 60 := Nat.mod_lt _ (by omega)

lemma seconds_lt (t : ℕ) : seconds t < 60 := Nat.mod_lt _ (by omega)

variable (clock : Clock) (ports : Ports)

/-- A register is read at the second of two accesses. -/
lemma getRegister_eq {index : UInt8} {n : ℕ} (h : register (clock (ports.access + 1)) index = bcd n) (hn : n < 100) :
    getRegister clock index ports = ((n : ℤ), ⟨index, ports.access + 2⟩) := by
  have hval : bcdToBinary (register (clock (ports.access + 1)) index) = n := by
    rw [h, bcdToBinary_eq, fromBcd_bcd hn]
  exact Prod.ext hval rfl

lemma getSeconds_eq : getSeconds clock ports = ((seconds (clock (ports.access + 1)) : ℤ), ⟨0, ports.access + 2⟩) :=
  getRegister_eq clock ports rfl (Nat.lt_trans (seconds_lt _) (by omega))

end Conversion

end SBoy28.Rtc
