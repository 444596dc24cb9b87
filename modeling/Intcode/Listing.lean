import Intcode.Instruction
import Intcode.Memory

/-!
# Intcode.Listing

Listings of a memory: instructions where a word decodes, single words of data elsewhere.

* `Listing.sweep` — the lines from an address up to the extent of the memory.
* `Line.text`     — how a line is printed.

A line takes up at least one cell, and the next one begins where it ends. A word that decodes
but whose parameters would lie behind the extent is data.
-/

namespace Intcode

/-- A line of a listing. -/
inductive Line where
  /-- An instruction, with its word and its parameters. -/
  | code (address : Nat) (instruction : Instruction) (words : List Word)
  | data (address : Nat) (word : Word)
deriving Repr, DecidableEq

namespace Line

def address : Line → Nat
  | code a _ _ => a
  | data a _ => a

def words : Line → List Word
  | code _ _ ws => ws
  | data _ w => [w]

def cells : Line → Nat
  | code _ i _ => i.width
  | data _ _ => 1

theorem cells_pos (l : Line) : 0 < l.cells := by
  cases l <;> simp [cells, Instruction.width]

/-- The operation of the line, if it is an instruction. -/
def opcode? : Line → Option Opcode
  | code _ i _ => some i.opcode
  | data _ _ => none

/-- A text filled up with blanks on the left to five characters. -/
def padLeft (s : List Char) : List Char := List.replicate (5 - s.length) ' ' ++ s

/-- A text filled up with blanks on the right to five characters. -/
def padRight (s : List Char) : List Char := s ++ List.replicate (5 - s.length) ' '

/-- A parameter: an address in brackets, a value bare, and a relative address in brackets with
the sign between the base and the distance. -/
def parameterChars (mode : Mode) (w : Word) : List Char :=
  let value := Text.decimalChars w.toInt
  match mode with
  | .position => '[' :: value ++ [']']
  | .immediate => value
  | .relative =>
    let sign := if w.toInt < 0 then [] else ['+']
    ['[', 'r', 'b'] ++ sign ++ value ++ [']']

/-- The parameters of an instruction, with a comma and a blank between each two. -/
def parametersChars (modes : List Mode) (ws : List Word) : List Char :=
  [',', ' '].intercalate (List.zipWith parameterChars modes ws)

def chars : Line → List Char
  | code a i ws =>
    let operands := parametersChars i.modes.toList ws.tail
    padLeft (Nat.toDigits 10 a) ++ [' ', '|', ' '] ++ padRight i.opcode.mnemonic.toList
      ++ (if operands.isEmpty then [] else ' ' :: operands)
  | data a w =>
    padLeft (Nat.toDigits 10 a) ++ " | DATA  ".toList ++ Text.decimalChars w.toInt

def text (l : Line) : String := String.ofList l.chars

end Line

namespace Listing

def lineAt (m : Memory) (stop : Nat) (a : Nat) : Line :=
  let address := UInt64.ofNat a
  let word := m.get address
  match Instruction.decode word with
  | .ok i => if a + i.width ≤ stop then .code a i (m.slice address i.width) else .data a word
  | .error _ => .data a word

def upTo (m : Memory) (stop : Nat) (a : Nat) : List Line :=
  if a < stop then
    let line := lineAt m stop a
    line :: upTo m stop (a + line.cells)
  else []
termination_by stop - a
decreasing_by
  have := (lineAt m stop a).cells_pos
  omega

/-- The lines of a memory from an address up to its extent. -/
def sweep (m : Memory) (start : Address) : List Line := upTo m m.extent start.toNat

end Listing
end Intcode
