import Intcode.Json.Magnitude

/-!
# Intcode.Json.Access

What a document stands for: numbers, texts, and the members of objects by their names.

* `Json.natural?`, `Json.string?`, `Json.members?`, `Json.field?` — the parts of a document.
* `Json.isPlain` — whether a document can be held as a value of any kind.
-/

namespace Intcode
namespace Json

mutual

/-- Whether all strings of a document are texts and all its numbers finite. -/
def isPlain : Json → Bool
  | number n => n.isFinite
  | string s => (TextUnit.chars? s).isSome
  | array items => isPlainItems items
  | object members => isPlainMembers members
  | _ => true

def isPlainItems : List Json → Bool
  | [] => true
  | item :: rest => isPlain item && isPlainItems rest

def isPlainMembers : List (List TextUnit × Json) → Bool
  | [] => true
  | (key, value) :: rest =>
    (TextUnit.chars? key).isSome && isPlain value && isPlainMembers rest

end

/-- How many arrays and objects may lie in each other where a document is read as a value. -/
def maxDepth : Nat := 127

/-- The unsigned 64-bit integer that a document stands for. -/
def natural? : Json → Option Nat
  | number (.integer false n) => if n < UInt64.size then some n else none
  | _ => none

def naturals? : Json → Option (List Nat)
  | array items => items.mapM natural?
  | _ => none

def string? : Json → Option String
  | string s => TextUnit.string? s
  | _ => none

/-- The members of an object, if all their names are texts. -/
def members? : Json → Option (List (String × Json))
  | object members =>
    members.mapM fun (key, value) => (TextUnit.string? key).map fun key => (key, value)
  | _ => none

/-- The value of the member with the given name, of which there must be one only. -/
def field? (members : List (String × Json)) (key : String) : Option Json :=
  match members.filter fun member => member.1 = key with
  | [(_, value)] => some value
  | _ => none

end Json
end Intcode
