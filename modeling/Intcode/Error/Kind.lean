/-!
# Intcode.Error.Kind

What went wrong, and whether trying again can help.

* `Error.Kind`   — the kinds of error, from a bad setting to a starved machine.
* `Error.Status` — permanent or temporary; it follows from the kind (`Kind.status`).
-/

namespace Intcode
namespace Error

/-- The kind of an error. -/
inductive Kind where
  | configInvalid
  | invalidArgument
  | parseFailed
  | invalidOpcode
  /-- An instruction word has a mode digit that names no mode. -/
  | invalidMode
  | invalidAddress
  | invalidWrite
  | inputExhausted
  /-- Machines wait for each other and none can go on. -/
  | pipelineStalled
  | fileNotFound
  | permissionDenied
  | ioFailed
  | serializationFailed
deriving Repr, DecidableEq

/-- Whether trying again can help. -/
inductive Status where
  /-- The program or an argument is wrong and stays wrong. -/
  | permanent
  /-- A machine is starved; with more input it may go on. -/
  | temporary
deriving Repr, DecidableEq

namespace Kind

def all : List Kind :=
  [configInvalid, invalidArgument, parseFailed, invalidOpcode, invalidMode, invalidAddress,
   invalidWrite, inputExhausted, pipelineStalled, fileNotFound, permissionDenied, ioFailed,
   serializationFailed]

def name : Kind → String
  | configInvalid => "ConfigInvalid"
  | invalidArgument => "InvalidArgument"
  | parseFailed => "ParseFailed"
  | invalidOpcode => "InvalidOpcode"
  | invalidMode => "InvalidMode"
  | invalidAddress => "InvalidAddress"
  | invalidWrite => "InvalidWrite"
  | inputExhausted => "InputExhausted"
  | pipelineStalled => "PipelineStalled"
  | fileNotFound => "FileNotFound"
  | permissionDenied => "PermissionDenied"
  | ioFailed => "IoFailed"
  | serializationFailed => "SerializationFailed"

def ofName? (s : String) : Option Kind :=
  all.find? fun k => k.name = s

def status : Kind → Status
  | inputExhausted | pipelineStalled => .temporary
  | _ => .permanent

/-- Whether trying again can help against an error of this kind. -/
def isRetryable : Kind → Bool
  | inputExhausted | pipelineStalled => true
  | _ => false

def isMalformedProgram : Kind → Bool
  | invalidOpcode | invalidMode | invalidAddress | invalidWrite => true
  | _ => false

theorem mem_all (k : Kind) : k ∈ all := by
  cases k <;> decide

theorem ofName?_name (k : Kind) : ofName? k.name = some k := by
  cases k <;> rfl

end Kind

namespace Status

def word : Status → String
  | permanent => "permanent"
  | temporary => "temporary"

/-- The name of a status in the record form of an error. -/
def name : Status → String
  | permanent => "Permanent"
  | temporary => "Temporary"

def isRetryable : Status → Bool
  | permanent => false
  | temporary => true

end Status

theorem Kind.isRetryable_status (k : Kind) : k.status.isRetryable = k.isRetryable := by
  cases k <;> rfl

end Error
end Intcode
