import Intcode.Error.Kind
import Intcode.Text.Record

/-!
# Intcode.Error

An error: its kind, a message, and where it came from.

* `within`, `noting`, `causedBy` — what the callers that an error passes through add to it.
* `display`  — the error on one line, for people.
* `describe` — the error in record form, with all its parts.

The status of an error is a function of its kind, which no caller can change.
-/

namespace Intcode

/-- What is known about a failure. -/
structure Error where
  kind : Error.Kind
  message : String
  /-- The operations the error passed through, innermost first. -/
  trail : List String := []
  context : List (String × String) := []
  /-- The text of the failure that lies behind this one. -/
  source : Option String := none
deriving Repr, DecidableEq

/-- How reading a file can fail, as far as it matters to the kind of error. -/
inductive FileFailure where
  | notFound
  | permissionDenied
  | other
deriving Repr, DecidableEq

namespace Error

def within (e : Error) (operation : String) : Error :=
  { e with trail := e.trail ++ [operation] }

def noting (e : Error) (key value : String) : Error :=
  { e with context := e.context ++ [(key, value)] }

/-- The error with the failure that lies behind it. -/
def causedBy (e : Error) (source : String) : Error :=
  { e with source := some source }

def invalidArgument (message : String) : Error :=
  { kind := .invalidArgument, message }

def configInvalid (message : String) : Error :=
  { kind := .configInvalid, message }

def parseFailed (message : String) : Error :=
  { kind := .parseFailed, message }

/-- A file cannot be read; `text` is what the system says about it. -/
def ofFile (failure : FileFailure) (text : String) : Error :=
  let kind : Kind :=
    match failure with
    | .notFound => .fileNotFound
    | .permissionDenied => .permissionDenied
    | .other => .ioFailed
  { kind, message := text, trail := ["io"], source := some text }

def status (e : Error) : Status := e.kind.status

def isRetryable (e : Error) : Bool := e.status.isRetryable

def isMalformedProgram (e : Error) : Bool := e.kind.isMalformedProgram

/-- The outermost operation the error passed through; empty if there is none. -/
def operation (e : Error) : String := e.trail.getLastD ""

def value? (e : Error) (key : String) : Option String :=
  (e.context.find? fun pair => pair.1 = key).map (·.2)

/-- The error on one line: operation, kind, message, facts and status. Parts that are missing
leave no trace. -/
def display (e : Error) : String :=
  let operation := if e.trail.isEmpty then "" else e.operation ++ ": "
  let message := if e.message.isEmpty then "" else ": " ++ e.message
  let context :=
    if e.context.isEmpty then ""
    else " [" ++ " ".intercalate (e.context.map fun (key, value) => key ++ "=" ++ value) ++ "]"
  operation ++ e.kind.name ++ message ++ context ++ " (" ++ e.status.word ++ ")"

/-- The error in record form. The source, if there is one, stands as it is. -/
def describe (e : Error) : String :=
  let source :=
    match e.source with
    | none => []
    | some text => [("source", text)]
  Text.record "Error" <|
    [("kind", e.kind.name), ("status", e.status.name), ("message", Text.quoted e.message),
     ("trail", Text.bracketed (e.trail.map Text.quoted)),
     ("context", Text.bracketed (e.context.map fun (key, value) =>
        Text.paired (Text.quoted key) (Text.quoted value)))] ++ source

@[simp] theorem kind_within (e : Error) (o : String) : (e.within o).kind = e.kind := rfl

@[simp] theorem kind_noting (e : Error) (k v : String) : (e.noting k v).kind = e.kind := rfl

@[simp] theorem kind_causedBy (e : Error) (s : String) : (e.causedBy s).kind = e.kind := rfl

/-- The last operation added is the outermost. -/
@[simp] theorem operation_within (e : Error) (o : String) : (e.within o).operation = o := by
  simp [operation, within]

end Error
end Intcode
