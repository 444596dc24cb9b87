import Intcode.Fault
import Intcode.Instruction.Opcode

/-!
# Intcode.Instruction

Instruction words. The two last decimal digits of a word are the opcode; the digits before
them, read from right to left, are the modes of the parameters, missing ones being zero:

    1002  is  multiply (02), with modes position (0), immediate (1), position (missing)

* `Instruction.decode` — the instruction a word stands for, or what is wrong with the word.
* `Instruction.encode` — the word that stands for an instruction.
-/

namespace Intcode

/-- The modes of the three parameters an instruction can have. -/
structure Modes where
  first : Mode
  second : Mode
  third : Mode
deriving Repr, DecidableEq

/-- An operation with the modes of its parameters. -/
structure Instruction where
  opcode : Opcode
  modes : Modes
deriving Repr, DecidableEq

def Modes.toList (m : Modes) : List Mode := [m.first, m.second, m.third]

def Modes.get (m : Modes) : Fin 3 → Mode
  | 0 => m.first
  | 1 => m.second
  | 2 => m.third

namespace Instruction

/-- How many cells an instruction takes up, its word included. -/
def width (i : Instruction) : Nat := i.opcode.arity + 1

/-- The mode of the parameter whose digit in `word` is worth `place`. -/
def modeAt (word : Word) (parameter : Nat) (place : Int) : Except Fault Mode :=
  let digit := word.toInt / place % 10
  match Mode.ofDigit? digit with
  | some mode => .ok mode
  | none => .error (.unknownMode word parameter digit)

/-- The instruction a word stands for. The opcode is looked at first, then the modes from
right to left; a word with a fourth mode digit is refused even if that digit is zero. -/
def decode (word : Word) : Except Fault Instruction :=
  if word.toInt ≤ 0 then .error (.unknownOpcode word)
  else
    match Opcode.ofCode? (word.toInt % 100) with
    | none => .error (.unknownOpcode word)
    | some opcode => do
      let first ← modeAt word 0 100
      let second ← modeAt word 1 1000
      let third ← modeAt word 2 10000
      if 100000 ≤ word.toInt then .error (.unknownMode word 3 (word.toInt / 100000 % 10))
      else .ok { opcode, modes := { first, second, third } }

def number (i : Instruction) : Int :=
  i.opcode.code + 100 * i.modes.first.digit + 1000 * i.modes.second.digit
    + 10000 * i.modes.third.digit

def encode (i : Instruction) : Word :=
  Int64.ofInt i.number

end Instruction
end Intcode
