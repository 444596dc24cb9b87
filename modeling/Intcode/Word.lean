import Intcode.Text.Numeral

/-!
# Intcode.Word

Words and addresses. Words are signed, addresses unsigned; both are 64 bits wide. The sum and
the product of two words wrap, so that they are always words; an address is never wrapped
(`Word.exactSum?`).
-/

namespace Intcode

/-- What a cell holds. -/
abbrev Word := Int64

/-- What a cell is found by. -/
abbrev Address := UInt64

namespace Word

def text (w : Word) : String := Text.decimal w.toInt

/-- One for what holds, zero for what does not. -/
def ofBool (b : Bool) : Word := if b then 1 else 0

/-- The address a word names, if it is not negative. -/
def address? (w : Word) : Option Address :=
  if w.toInt < 0 then none else some w.toUInt64

/-- The sum of two words, if it is a word. -/
def exactSum? (a b : Word) : Option Word :=
  let sum := a.toInt + b.toInt
  if sum < Int64.minValue.toInt ∨ Int64.maxValue.toInt < sum then none
  else some (Int64.ofInt sum)

end Word

namespace Address

def top : Nat := UInt64.size - 1

/-- The address `n` cells further on, but no further than the highest. -/
def advance (a : Address) (n : Nat) : Address :=
  UInt64.ofNat (min (a.toNat + n) top)

end Address
end Intcode
