import Intcode.Json

/-!
# Intcode.Json.Magnitude

Which numbers are small enough to be held as a value.

* `JsonNumber.isFinite` — whether a number can be held: as a whole number of 64 bits, or else as
  a double that is no infinity.
* `nearestMultiple_near` — rounding moves a number by half a unit at most.

A double is not worked out from all digits of a number. Those that 64 bits hold are rounded to a
double, a power of ten is rounded to another, and the product of the two is rounded once more; so
a number just below the largest double may be refused, and one just above it be held.
-/

namespace Intcode

/-- The multiple of `unit` nearest to `n`; of two that are equally near, the even multiple. -/
def nearestMultiple (n unit : Nat) : Nat :=
  let q := n / unit
  let r := n % unit
  if 2 * r < unit then q * unit
  else if unit < 2 * r then (q + 1) * unit
  else (q + q % 2) * unit

/-- The double nearest to a whole number that is not too large for one: the nearest number of
at most 53 binary digits and zeros behind them. -/
def nearestDouble (n : Nat) : Nat := nearestMultiple n (Nat.pow 2 (n.log2 - 52))

/-- All from here on is rounded to infinity as a double: it is half a unit above the largest. -/
def doubleBound : Nat := Nat.pow 2 1024 - Nat.pow 2 970

theorem nearestMultiple_near {n unit : Nat} (positive : 0 < unit) :
    2 * nearestMultiple n unit ≤ 2 * n + unit ∧
      2 * n ≤ 2 * nearestMultiple n unit + unit := by
  have parts : n / unit * unit + n % unit = n := by
    rw [Nat.mul_comm]; exact Nat.div_add_mod n unit
  have small : n % unit < unit := Nat.mod_lt n positive
  unfold nearestMultiple
  rcases Nat.mod_two_eq_zero_or_one (n / unit) with even | odd
  · simp only [even, Nat.add_mul, Nat.one_mul]
    split
    · omega
    · split <;> omega
  · simp only [odd, Nat.add_mul, Nat.one_mul]
    split
    · omega
    · split <;> omega

namespace JsonNumber

/-- The leading digits of a mantissa that 64 bits hold, with the exponent that goes with them. -/
def leadingDigits (mantissa : Nat) (exponent : Int) : Nat × Int :=
  let dropped := (Nat.toDigits 10 mantissa).length - 20
  let kept := mantissa / Nat.pow 10 dropped
  if kept < UInt64.size then (kept, exponent + dropped) else (kept / 10, exponent + dropped + 1)

/-- Whether a mantissa times ten to the power of the exponent is no infinity. A negative power
only divides; no power above ten to the 308 is a double. -/
def scaledIsFinite (mantissa : Nat) (exponent : Int) : Bool :=
  let (digits, e) := leadingDigits mantissa exponent
  digits = 0 || e < 0 ||
    (e ≤ 308 && nearestDouble digits * nearestDouble (Nat.pow 10 e.toNat) < doubleBound)

def isFinite : JsonNumber → Bool
  | .integer _ n => n < UInt64.size || scaledIsFinite n 0
  | .scientific _ n e => scaledIsFinite n e

end JsonNumber
end Intcode
