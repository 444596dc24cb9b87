import Intcode.Command.Line
import Intcode.Text.Visible

/-!
# Intcode.Command

The program as a whole: from the words of the command line and the files to what is printed
and the exit code.

* `respond` — what is printed, and where.

Standard output is only written to when all went well.
-/

namespace Intcode
namespace Command

/-- What the program leaves behind. -/
structure Response where
  exit : Nat
  stdout : String := ""
  stderr : String := ""
deriving Repr, DecidableEq

/-- What is written about a command line that is not carried out. Its parts are set off for a
terminal; standard error is taken for none, so no control sequence is left in it, be it one of
these or one that the command line brought along. -/
def refusal (message : List Char) : String :=
  String.ofList <| Text.visible <|
    Text.emphasized "error:".toList ++ ' ' :: message
      ++ "\n\nFor more information, try '".toList ++ Text.emphasized "--help".toList
      ++ "'.\n".toList

/-- The response to a command line that is not carried out. -/
def Stop.response : Stop → Response
  | .badValue value argument reason =>
    { exit := 2
      stderr := refusal <|
        "invalid value '".toList ++ Text.emphasized value ++ "' for '".toList
          ++ Text.emphasized argument.toList ++ "': ".toList ++ reason.toList }
  | .misuse message => { exit := 2, stderr := refusal message.toList }
  | .show text => { exit := 0, stdout := text }

def failed (exit : Nat) (e : Error) : Response :=
  { exit, stderr := "Error: " ++ e.display ++ "\n" }

def Request.perform (fuel : Nat) (r : Request) (files : String → Except FileError ByteArray) :
    Option Response :=
  match Memory.checkLimit r.denseLimit with
  | .error e => some (failed 2 e)
  | .ok limit =>
    (r.task.perform fuel limit (files r.task.file)).map fun
      | .ok text => { exit := 0, stdout := String.ofList text }
      | .error e => failed 1 e

def respond (fuel : Nat) (words : List String) (files : String → Except FileError ByteArray) :
    Option Response :=
  match Request.parse (words.map String.toList) with
  | .error stop => some stop.response
  | .ok request => request.perform fuel files

def requestedFile? (words : List String) : Option String :=
  match Request.parse (words.map String.toList) with
  | .error _ => none
  | .ok request => some request.task.file

end Command
end Intcode
