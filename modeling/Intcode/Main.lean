import Intcode.Command

/-!
# Intcode.Main

The program: reads the file that the command line asks for, and prints the response.
-/

open Intcode.Command

/-- The number of a system error; some of them come negated. -/
def systemCode (code : UInt32) : UInt32 := if code < 4096 then code else 0 - code

def fileError : IO.Error → FileError
  | .noFileOrDirectory .. => .notFound
  | .permissionDenied .. => .permissionDenied
  | .inappropriateType _ code _ =>
    if systemCode code = 20 then .notDirectory else .isDirectory
  | .invalidArgument _ code details =>
    if systemCode code = 36 then .nameTooLong else .other details
  | e => .other (toString e)

def readFile (path : String) : IO (Except FileError ByteArray) := do
  try
    return .ok (← IO.FS.readBinFile path)
  catch e => return .error (fileError e)

/-- Runs the command line. A program that does not end is run for as long as anyone can wait. -/
def main (args : List String) : IO UInt32 := do
  let contents ←
    match requestedFile? args with
    | some path => readFile path
    | none => pure (.error .notFound)
  match respond 4611686018427387904 args fun _ => contents with
  | some r =>
    (← IO.getStdout).putStr r.stdout
    (← IO.getStderr).putStr r.stderr
    return r.exit.toUInt32
  | none => return 1
