import Intcode.Text.Blank
import Intcode.Word

/-!
# Intcode.Command.Poke

Patches of memory as they are written on the command line, such as `2=-3`: an address, the first
equals sign, and the word to store there. Blanks around the two numbers are allowed.
-/

namespace Intcode
namespace Command

/-- A word to be stored before a program runs. -/
structure Poke where
  address : Address
  word : Word
deriving Repr, DecidableEq

/-- What is wrong with the text of a patch. The parts are given as they were written. -/
inductive PokeFlaw where
  | noEquals (text : List Char)
  | badAddress (text : List Char) (flaw : Text.NumeralFlaw)
  | badWord (text : List Char) (flaw : Text.NumeralFlaw)
deriving Repr, DecidableEq

def PokeFlaw.message : PokeFlaw → String
  | .noEquals text => "expected ADDR=VALUE, got '" ++ String.ofList text ++ "'"
  | .badAddress text flaw =>
    "invalid address '" ++ String.ofList text ++ "': " ++ flaw.message
  | .badWord text flaw => "invalid value '" ++ String.ofList text ++ "': " ++ flaw.message

/-- The patch that a text stands for. The address is looked at first. -/
def Poke.parse (text : List Char) : Except PokeFlaw Poke :=
  match Text.cut '=' text with
  | (_, none) => .error (.noEquals text)
  | (front, some back) =>
    match Text.readUnsigned (Text.trim front) with
    | .error flaw => .error (.badAddress front flaw)
    | .ok address =>
      match Text.readSigned (Text.trim back) with
      | .error flaw => .error (.badWord back flaw)
      | .ok word => .ok { address, word }

end Command
end Intcode
