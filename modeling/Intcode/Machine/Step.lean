import Intcode.Instruction
import Intcode.Machine

/-!
# Intcode.Machine.Step

One instruction of a machine, cell by cell.

* `Work`         — what a machine does with its tapes; it can break off at a fault.
* `Work.fetch`   — reads the cell at the program counter and moves the counter on.
* `Machine.step` — carries out the instruction at the program counter.

Work that breaks off leaves behind what it has done so far. An instruction has read all its
parameters before it changes anything, so all that it leaves behind is a moved program counter,
which whoever runs the machine puts back (`Intcode.Machine.Execute`).
-/

namespace Intcode

/-- The address of a word that must not be negative. -/
def Word.address (w : Word) : Except Fault Address :=
  match w.address? with
  | some a => .ok a
  | none => .error (.negativeAddress w)

namespace Machine

def cell (m : Machine) (place : Word) : Except Fault Word := do
  return m.memory.get (← Word.address place)

/-- The address a relative parameter stands for. -/
def relativeAddress (m : Machine) (parameter : Word) : Except Fault Address :=
  match parameter.exactSum? m.relativeBase with
  | some sum => Word.address sum
  | none => .error (.addressOverflow parameter m.relativeBase)

/-- The machine with its program counter at another cell. -/
def goto (m : Machine) (pc : Word) : Machine := { m with pc }

end Machine

/-- What a machine does with its tapes. A fault breaks it off and leaves what was done. -/
abbrev Work := EStateM Fault (Tapes × Machine)

/-- What an instruction comes to. -/
inductive Progress where
  | done
  | waiting
  | halting
deriving Repr, DecidableEq

namespace Work

def machine : Work Machine := return (← get).2

/-- Goes on with what was found, or breaks off at the fault. -/
def check {α : Type} (found : Except Fault α) : Work α := fun s =>
  match found with
  | .ok a => .ok a s
  | .error fault => .error fault s

def change (f : Machine → Machine) : Work Unit :=
  modify fun (tapes, m) => (tapes, f m)

/-- Reads the cell at the program counter and moves on to the next one. -/
def fetch : Work Word := do
  let m ← machine
  let word ← check (m.cell m.pc)
  change fun m => m.goto (m.pc + 1)
  return word

/-- Fetches a parameter and gives the value it stands for. -/
def operand (mode : Mode) : Work Word := do
  let p ← fetch
  let m ← machine
  match mode with
  | .position => check (m.cell p)
  | .immediate => return p
  | .relative => return m.memory.get (← check (m.relativeAddress p))

/-- Fetches a parameter and gives the address it stands for as the destination of the
instruction `word`. -/
def destination (word : Word) (mode : Mode) : Work Address := do
  let p ← fetch
  let m ← machine
  match mode with
  | .position => check (Word.address p)
  | .immediate => check (.error (.immediateWrite word))
  | .relative => check (m.relativeAddress p)

def store (address : Address) (word : Word) : Work Unit :=
  change fun m => { m with memory := m.memory.set address word }

def emit (word : Word) : Work Unit :=
  modify fun (tapes, m) => (tapes.push m.output word, { m with lastEmitted := some word })

/-- The instruction `word`, which stores what it makes of two operands. -/
def combine (word : Word) (modes : Modes) (f : Word → Word → Word) : Work Progress := do
  let a ← operand modes.first
  let b ← operand modes.second
  let address ← destination word modes.third
  store address (f a b)
  return .done

/-- An instruction that goes on at its second operand if the first one passes a test. -/
def jump (modes : Modes) (test : Word → Bool) : Work Progress := do
  let a ← operand modes.first
  let target ← operand modes.second
  if test a then change fun m => m.goto target
  return .done

def unread : Work (Option Word) := do
  let (tapes, m) ← get
  return m.unread? tapes

/-- The instruction `word`, which takes an input word if there is one. -/
def take (word : Word) (modes : Modes) : Work Progress := do
  match ← unread with
  | none => return .waiting
  | some value =>
    let address ← destination word modes.first
    change fun m => { m with cursor := m.cursor + 1 }
    store address value
    return .done

end Work

/-- Carries out the instruction at the program counter. -/
def Machine.step : Work Progress := do
  let word ← Work.fetch
  let i ← Work.check (Instruction.decode word)
  match i.opcode with
  | .add => Work.combine word i.modes (· + ·)
  | .multiply => Work.combine word i.modes (· * ·)
  | .lessThan => Work.combine word i.modes fun a b => Word.ofBool (a < b)
  | .equals => Work.combine word i.modes fun a b => Word.ofBool (a = b)
  | .storeInput => Work.take word i.modes
  | .output =>
    Work.emit (← Work.operand i.modes.first)
    return .done
  | .jumpIfTrue => Work.jump i.modes (· != 0)
  | .jumpIfFalse => Work.jump i.modes (· == 0)
  | .adjustRelativeBase =>
    let amount ← Work.operand i.modes.first
    Work.change fun m => { m with relativeBase := m.relativeBase + amount }
    return .done
  | .halt => return .halting

end Intcode
