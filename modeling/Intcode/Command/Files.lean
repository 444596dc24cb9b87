import Intcode.Error

/-!
# Intcode.Command.Files

Reading the file that holds a program.

* `FileError` — why a file cannot be read, with what the system says about it.
* `Directory` — folders and files by their paths, and how a path is followed in them.
-/

namespace Intcode
namespace Command

/-- Why a file cannot be read. -/
inductive FileError where
  | notFound
  | permissionDenied
  | notDirectory
  | isDirectory
  | nameTooLong
  | notText
  | other (text : String)
deriving Repr, DecidableEq

namespace FileError

def text : FileError → String
  | notFound => "No such file or directory (os error 2)"
  | permissionDenied => "Permission denied (os error 13)"
  | notDirectory => "Not a directory (os error 20)"
  | isDirectory => "Is a directory (os error 21)"
  | nameTooLong => "File name too long (os error 36)"
  | notText => "stream did not contain valid UTF-8"
  | other text => text

def failure : FileError → FileFailure
  | notFound => .notFound
  | permissionDenied => .permissionDenied
  | _ => .other

def error (e : FileError) (path : String) : Error :=
  ((Error.ofFile e.failure e.text).within "cli::load_program").noting "path" path

end FileError

/-- What a path of a directory leads to. -/
inductive Entry where
  | folder
  | file (contents : ByteArray)

/-- A directory: its entries by the names that lead to them, outermost first. -/
structure Directory where
  entries : List (List String × Entry) := []

/-- Where a path has led to so far. -/
inductive Place where
  /-- A folder inside the directory, or the directory itself, which has no names. -/
  | inside (names : List String)
  | outside
  | file (contents : ByteArray)

namespace Directory

def maxName : Nat := 255

def maxPath : Nat := 4095

/-- What the given names lead to. Names that lead on to an entry lead to a folder. -/
def entry? (d : Directory) (names : List String) : Option Entry :=
  match d.entries.find? fun e => e.1 = names with
  | some (_, e) => some e
  | none => if d.entries.any fun e => names.isPrefixOf e.1 then some .folder else none

def step (d : Directory) (place : Place) (name : String) : Except FileError Place :=
  match place with
  | .file _ => .error .notDirectory
  | .outside =>
    if name = "" ∨ name = "." ∨ name = ".." then .ok .outside
    else if maxName < name.utf8ByteSize then .error .nameTooLong
    else .error .notFound
  | .inside names =>
    if name = "" ∨ name = "." then .ok place
    else if name = ".." then
      if names.isEmpty then .ok .outside else .ok (.inside names.dropLast)
    else if maxName < name.utf8ByteSize then .error .nameTooLong
    else
      match d.entry? (names ++ [name]) with
      | none => .error .notFound
      | some .folder => .ok (.inside (names ++ [name]))
      | some (.file contents) => .ok (.file contents)

/-- The names between the slashes of a path; some of them may be empty. -/
def pathNames (path : String) : List String :=
  (path.toList.splitOn '/').map String.ofList

def read (d : Directory) (path : String) : Except FileError ByteArray :=
  if path.isEmpty then .error .notFound
  else if maxPath < path.utf8ByteSize then .error .nameTooLong
  else do
    let start : Place := if path.toList.head? = some '/' then .outside else .inside []
    match ← (pathNames path).foldlM d.step start with
    | .file contents => return contents
    | _ => .error .isDirectory

end Directory
end Command
end Intcode
