/-!
# Intcode.Text.Numeral

Decimal numerals of bounded integers.

* `decimal`      — an integer written in decimal, with a minus sign when it is negative.
* `readSigned`   — the signed 64-bit integer that a text spells, or what is wrong with the text.
* `readUnsigned` — the same for the unsigned 64-bit integers.

A numeral is an optional sign and at least one ASCII digit; leading zeros are allowed. Of two
flaws the one further left is reported: a text is too large or too small from the digit that
leaves the range on, whatever follows it.
-/

namespace Intcode
namespace Text

def decimalChars (z : Int) : List Char :=
  if z < 0 then '-' :: Nat.toDigits 10 z.natAbs else Nat.toDigits 10 z.natAbs

def decimal (z : Int) : String :=
  String.ofList (decimalChars z)

/-- What keeps a text from being the numeral of an integer in range. -/
inductive NumeralFlaw where
  | empty
  /-- A character is no digit, or there is none after the sign. -/
  | badDigit
  | tooLarge
  | tooSmall
deriving Repr, DecidableEq

def NumeralFlaw.message : NumeralFlaw → String
  | .empty => "cannot parse integer from empty string"
  | .badDigit => "invalid digit found in string"
  | .tooLarge => "number too large to fit in target type"
  | .tooSmall => "number too small to fit in target type"

/-- Reads digits on from the value `value` of those already read. A value above `bound` is
the flaw `beyond`. -/
def readDigits (bound : Nat) (beyond : NumeralFlaw) (value : Nat) :
    List Char → Except NumeralFlaw Nat
  | [] => .ok value
  | c :: rest =>
    if c.isDigit then
      let value := value * 10 + (c.toNat - '0'.toNat)
      if bound < value then .error beyond else readDigits bound beyond value rest
    else .error .badDigit

/-- Reads the digits of a magnitude, of which there must be one. -/
def readMagnitude (bound : Nat) (beyond : NumeralFlaw) : List Char → Except NumeralFlaw Nat
  | [] => .error .badDigit
  | c :: rest => readDigits bound beyond 0 (c :: rest)

def readSigned : List Char → Except NumeralFlaw Int64
  | [] => .error .empty
  | '-' :: rest =>
    (readMagnitude (Int64.size / 2) .tooSmall rest).map fun n => Int64.ofInt (-(n : Int))
  | '+' :: rest => (readMagnitude (Int64.size / 2 - 1) .tooLarge rest).map Int64.ofNat
  | c :: rest => (readMagnitude (Int64.size / 2 - 1) .tooLarge (c :: rest)).map Int64.ofNat

/-- The unsigned 64-bit integer that a text spells; a minus sign is no part of one. -/
def readUnsigned : List Char → Except NumeralFlaw UInt64
  | [] => .error .empty
  | '+' :: rest => (readMagnitude (UInt64.size - 1) .tooLarge rest).map UInt64.ofNat
  | c :: rest => (readMagnitude (UInt64.size - 1) .tooLarge (c :: rest)).map UInt64.ofNat

end Text
end Intcode
