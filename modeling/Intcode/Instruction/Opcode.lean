/-!
# Intcode.Instruction.Opcode

The ten operations of the machine and the three ways in which an instruction names a value.

* `Opcode.ofCode?` and `Opcode.code` — the numbers of the operations.
* `Opcode.arity` — how many parameters follow an instruction word.
* `Mode.ofDigit?` and `Mode.digit` — the digits of the parameter modes.
-/

namespace Intcode

/-- An operation of the machine. -/
inductive Opcode where
  | add
  | multiply
  /-- Stores the next input value; waits when there is none. -/
  | storeInput
  | output
  | jumpIfTrue
  | jumpIfFalse
  /-- Stores whether the first operand is less than the second. -/
  | lessThan
  | equals
  | adjustRelativeBase
  | halt
deriving Repr, DecidableEq

/-- How a parameter names a value or a destination. -/
inductive Mode where
  | position
  | immediate
  /-- The parameter is an address counted from the relative base. -/
  | relative
deriving Repr, DecidableEq

namespace Opcode

def all : List Opcode :=
  [add, multiply, storeInput, output, jumpIfTrue, jumpIfFalse, lessThan, equals,
   adjustRelativeBase, halt]

/-- The number of an operation, which is the last two digits of its instruction words. -/
def code : Opcode → Int
  | add => 1
  | multiply => 2
  | storeInput => 3
  | output => 4
  | jumpIfTrue => 5
  | jumpIfFalse => 6
  | lessThan => 7
  | equals => 8
  | adjustRelativeBase => 9
  | halt => 99

def ofCode? : Int → Option Opcode
  | 1 => some add
  | 2 => some multiply
  | 3 => some storeInput
  | 4 => some output
  | 5 => some jumpIfTrue
  | 6 => some jumpIfFalse
  | 7 => some lessThan
  | 8 => some equals
  | 9 => some adjustRelativeBase
  | 99 => some halt
  | _ => none

def mnemonic : Opcode → String
  | add => "ADD"
  | multiply => "MUL"
  | storeInput => "IN"
  | output => "OUT"
  | jumpIfTrue => "JNZ"
  | jumpIfFalse => "JZ"
  | lessThan => "LT"
  | equals => "EQ"
  | adjustRelativeBase => "ARB"
  | halt => "HALT"

/-- How many parameters follow the instruction word. -/
def arity : Opcode → Nat
  | add | multiply | lessThan | equals => 3
  | jumpIfTrue | jumpIfFalse => 2
  | storeInput | output | adjustRelativeBase => 1
  | halt => 0

theorem mem_all (op : Opcode) : op ∈ all := by
  cases op <;> decide

theorem ofCode?_code (op : Opcode) : ofCode? op.code = some op := by
  cases op <;> rfl

/-- A number names at most one operation, the one whose number it is. -/
theorem ofCode?_eq_some_iff {n : Int} {op : Opcode} : ofCode? n = some op ↔ n = op.code := by
  constructor
  · intro h
    unfold ofCode? at h
    split at h <;> first | (injection h with h; subst h; rfl) | contradiction
  · rintro rfl
    exact ofCode?_code op

end Opcode

namespace Mode

def all : List Mode :=
  [position, immediate, relative]

def digit : Mode → Int
  | position => 0
  | immediate => 1
  | relative => 2

def ofDigit? : Int → Option Mode
  | 0 => some position
  | 1 => some immediate
  | 2 => some relative
  | _ => none

theorem mem_all (m : Mode) : m ∈ all := by
  cases m <;> decide

theorem ofDigit?_digit (m : Mode) : ofDigit? m.digit = some m := by
  cases m <;> rfl

/-- A digit names at most one mode, the one whose digit it is. -/
theorem ofDigit?_eq_some_iff {n : Int} {m : Mode} : ofDigit? n = some m ↔ n = m.digit := by
  constructor
  · intro h
    unfold ofDigit? at h
    split at h <;> first | (injection h with h; subst h; rfl) | contradiction
  · rintro rfl
    exact ofDigit?_digit m

end Mode
end Intcode
