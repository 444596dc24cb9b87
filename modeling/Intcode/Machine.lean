import Intcode.Memory
import Intcode.Tape

/-!
# Intcode.Machine

A machine: its memory, its registers, where it reads and where it writes.

A machine reads from a source and writes to its output tape; both belong to the store of tapes
(`Intcode.Tape`) that it works with. How many words it has read is its own business
(`cursor`), so two machines can read the same tape without taking words from each other.
-/

namespace Intcode

/-- Whether a machine can still do something. -/
inductive RunState where
  /-- The machine can go on, if only after more input. -/
  | running
  | halted
deriving Repr, DecidableEq

/-- A machine. -/
structure Machine where
  memory : Memory
  source : Source
  /-- How many words of the source it has read. -/
  cursor : Nat := 0
  output : TapeId
  /-- The last word it wrote itself; others can write to its tape too. -/
  lastEmitted : Option Word := none
  pc : Word := 0
  /-- What relative addresses are counted from. -/
  relativeBase : Word := 0
  state : RunState := .running
  steps : Nat := 0

namespace Machine

/-- A machine that has done nothing yet, with an input of its own that is empty. -/
def start (memory : Memory) (output : TapeId) : Machine :=
  { memory, output, source := .empty }

/-- Whether the machine has come to a halt instruction. -/
def isHalted (m : Machine) : Bool := m.state = .halted

/-- The words of its source, those already read included. -/
def input (m : Machine) (tapes : Tapes) : Array Word := m.source.values tapes

def unread? (m : Machine) (tapes : Tapes) : Option Word := m.source.get? tapes m.cursor

def pending (m : Machine) (tapes : Tapes) : Nat := (m.input tapes).size - m.cursor

/-- The machine reading from another source, at the place it has come to in the old one. -/
def wire (m : Machine) (source : Source) : Machine := { m with source }

/-- The machine with a word stored in its memory from outside. -/
def poke (m : Machine) (address : Address) (word : Word) : Machine :=
  { m with memory := m.memory.set address word }

def feed (m : Machine) (tapes : Tapes) (words : List Word) : Tapes × Machine :=
  let (tapes, source) := m.source.extend tapes words
  (tapes, { m with source })

/-- A second machine like this one. Its output tape is a new one that holds what was written
so far; it reads the same tape, or words of its own as they are now. -/
def fork (m : Machine) (tapes : Tapes) : Tapes × Machine :=
  (tapes.create (tapes.values m.output), { m with output := tapes.fresh })

end Machine
end Intcode
