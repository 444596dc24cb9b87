import Intcode.Error
import Intcode.Word

/-!
# Intcode.Fault

What can be wrong with an instruction: the causes (`Fault`) and the error each one is reported
as (`Fault.error`).
-/

namespace Intcode

/-- What is wrong with an instruction. -/
inductive Fault where
  /-- The instruction word is not positive or has no known opcode. -/
  | unknownOpcode (word : Word)
  /-- Digit `mode` is no mode, or belongs to no parameter. Parameters count from zero. -/
  | unknownMode (word : Word) (parameter : Nat) (mode : Int)
  | negativeAddress (address : Word)
  /-- A parameter and the relative base add up to no word. -/
  | addressOverflow (parameter relativeBase : Word)
  | immediateWrite (word : Word)
deriving Repr, DecidableEq

def Fault.error : Fault → Error
  | .unknownOpcode word =>
    { kind := .invalidOpcode, message := "unknown opcode in word " ++ Word.text word
      context := [("word", Word.text word)] }
  | .unknownMode word parameter mode =>
    let position := Text.decimal (parameter + 1)
    let mode := Text.decimal mode
    { kind := .invalidMode
      message := "invalid mode " ++ mode ++ " for parameter " ++ position ++ " in word "
        ++ Word.text word
      context := [("word", Word.text word), ("parameter", position), ("mode", mode)] }
  | .negativeAddress address =>
    { kind := .invalidAddress, message := "negative address " ++ Word.text address
      context := [("address", Word.text address)] }
  | .addressOverflow parameter relativeBase =>
    { kind := .invalidAddress, message := "negative address " ++ Word.text parameter
      context := [("address", Word.text parameter),
        ("relative_base", Word.text relativeBase)] }
  | .immediateWrite word =>
    { kind := .invalidWrite, message := "write destination in immediate mode"
      context := [("word", Word.text word)] }

/-- Every fault blames the program. -/
theorem Fault.isMalformedProgram_error (f : Fault) : f.error.isMalformedProgram = true := by
  cases f <;> rfl

end Intcode
