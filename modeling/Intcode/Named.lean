import Intcode.Instruction.Opcode
import Intcode.Machine.Execute
import Intcode.Pipeline.Report

/-!
# Intcode.Named

Types of a few values with names. Every value has a tag, by which documents refer to it, and a
title, which is its name in the record form.

* `Named`     — such a type.
* `ofTag?`    — the value with a given tag; `ofTag?_tag` says that it finds every value.
-/

namespace Intcode

/-- A type of a few values that have names. -/
class Named (α : Type) where
  all : List α
  /-- The name of a value in documents: small letters, words joined by underscores. -/
  tag : α → String
  /-- The name of a value in the record form: words joined, each with a capital. -/
  title : α → String
  /-- No two values share a tag, and none is left out. -/
  find_tag : ∀ a, all.find? (fun b => tag b = tag a) = some a := by intro a; cases a <;> rfl

namespace Named

def ofTag? [Named α] (s : String) : Option α := all.find? fun (a : α) => tag a = s

theorem ofTag?_tag [Named α] (a : α) : ofTag? (tag a) = some a := find_tag a

end Named

instance : Named Opcode where
  all := Opcode.all
  tag
    | .add => "add"
    | .multiply => "multiply"
    | .storeInput => "store_input"
    | .output => "output"
    | .jumpIfTrue => "jump_if_true"
    | .jumpIfFalse => "jump_if_false"
    | .lessThan => "less_than"
    | .equals => "equals"
    | .adjustRelativeBase => "adjust_relative_base"
    | .halt => "halt"
  title
    | .add => "Add"
    | .multiply => "Multiply"
    | .storeInput => "StoreInput"
    | .output => "Output"
    | .jumpIfTrue => "JumpIfTrue"
    | .jumpIfFalse => "JumpIfFalse"
    | .lessThan => "LessThan"
    | .equals => "Equals"
    | .adjustRelativeBase => "AdjustRelativeBase"
    | .halt => "Halt"

instance : Named Mode where
  all := Mode.all
  tag
    | .position => "position"
    | .immediate => "immediate"
    | .relative => "relative"
  title
    | .position => "Position"
    | .immediate => "Immediate"
    | .relative => "Relative"

instance : Named HaltReason where
  all := [.waitingForInput, .haltInstruction]
  tag
    | .waitingForInput => "waiting_for_input"
    | .haltInstruction => "halt_instruction"
  title
    | .waitingForInput => "WaitingForInput"
    | .haltInstruction => "HaltInstruction"

instance : Named RunState where
  all := [.running, .halted]
  tag
    | .running => "running"
    | .halted => "halted"
  title
    | .running => "Running"
    | .halted => "Halted"

instance : Named Topology where
  all := [.chain, .ring]
  tag
    | .chain => "chain"
    | .ring => "ring"
  title
    | .chain => "Chain"
    | .ring => "Ring"

end Intcode
