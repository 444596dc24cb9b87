import Intcode.Text.Numeral

/-!
# Intcode.Json

JSON documents and how they are printed.

* `Json`         — a document. Objects keep the order of their members, and all of them, even
  those of the same name; strings may hold halves of surrogate pairs, which are no characters.
* `Json.compact` — a document without any blanks.
* `Json.pretty`  — a document with one item or member per line.
-/

namespace Intcode

/-- An element of a JSON string: a character, or half of a surrogate pair. -/
inductive TextUnit where
  | char (c : Char)
  | half (code : Nat)
deriving Repr, DecidableEq

/-- A JSON number. One that is written without fraction and exponent is an integer; minus zero
is kept apart from zero. -/
inductive JsonNumber where
  | integer (negative : Bool) (magnitude : Nat)
  /-- The mantissa times ten to the power of the exponent. -/
  | scientific (negative : Bool) (mantissa : Nat) (exponent : Int)
deriving Repr, DecidableEq

/-- A JSON document. -/
inductive Json where
  | null
  | bool (b : Bool)
  | number (n : JsonNumber)
  | string (s : List TextUnit)
  | array (items : List Json)
  | object (members : List (List TextUnit × Json))
deriving Inhabited

namespace TextUnit

def ofString (s : String) : List TextUnit := s.toList.map .char

/-- The text of a string, if its elements are characters. -/
def chars? : List TextUnit → Option (List Char)
  | [] => some []
  | char c :: rest => (chars? rest).map (c :: ·)
  | half _ :: _ => none

/-- The text of a string, if its elements are characters. -/
def string? (s : List TextUnit) : Option String := (chars? s).map String.ofList

def fourDigits (code : Nat) : List Char :=
  [code / 4096, code / 256 % 16, code / 16 % 16, code % 16].map Nat.digitChar

/-- How an element is written between quotation marks. -/
def print : TextUnit → List Char
  | char '"' => ['\\', '"']
  | char '\\' => ['\\', '\\']
  | char '\x08' => ['\\', 'b']
  | char '\x0c' => ['\\', 'f']
  | char '\n' => ['\\', 'n']
  | char '\r' => ['\\', 'r']
  | char '\t' => ['\\', 't']
  | char c => if c.toNat < 32 then ['\\', 'u'] ++ fourDigits c.toNat else [c]
  | half code => ['\\', 'u'] ++ fourDigits code

def printString (s : List TextUnit) : List Char := '"' :: s.flatMap print ++ ['"']

theorem string?_ofString (s : String) : string? (ofString s) = some s := by
  have : ∀ cs : List Char, chars? (cs.map .char) = some cs := by
    intro cs
    induction cs with
    | nil => rfl
    | cons c rest ih => simp [chars?, ih]
  simp [string?, ofString, this]

end TextUnit

def JsonNumber.print : JsonNumber → List Char
  | .integer negative n => (if negative then ['-'] else []) ++ Nat.toDigits 10 n
  | .scientific negative n e =>
    (if negative then ['-'] else []) ++ Nat.toDigits 10 n ++ 'e' :: Text.decimalChars e

namespace Json

def text (s : String) : Json := .string (TextUnit.ofString s)

def int (z : Int) : Json := .number (.integer (z < 0) z.natAbs)

def ofOption (f : α → Json) : Option α → Json
  | none => .null
  | some a => f a

def ofFields (fields : List (String × Json)) : Json :=
  .object (fields.map fun (key, value) => (TextUnit.ofString key, value))

mutual

def compact : Json → List Char
  | null => "null".toList
  | bool true => "true".toList
  | bool false => "false".toList
  | number n => n.print
  | string s => TextUnit.printString s
  | array items => '[' :: compactItems items ++ [']']
  | object members => '\x7b' :: compactMembers members ++ ['\x7d']

def compactItems : List Json → List Char
  | [] => []
  | [item] => compact item
  | item :: rest => compact item ++ ',' :: compactItems rest

def compactMembers : List (List TextUnit × Json) → List Char
  | [] => []
  | [(key, value)] => TextUnit.printString key ++ ':' :: compact value
  | (key, value) :: rest =>
    TextUnit.printString key ++ ':' :: compact value ++ ',' :: compactMembers rest

end

/-- The start of a line in a document that is printed `depth` levels deep. -/
def newLine (depth : Nat) : List Char := '\n' :: List.replicate (2 * depth) ' '

mutual

/-- A document with one item or member per line, two blanks further in than what it is part of.
An empty array or object stays on one line. -/
def prettyAt (depth : Nat) : Json → List Char
  | array [] => ['[', ']']
  | object [] => ['\x7b', '\x7d']
  | array (item :: rest) =>
    '[' :: prettyItems (depth + 1) (item :: rest) ++ newLine depth ++ [']']
  | object (member :: rest) =>
    '\x7b' :: prettyMembers (depth + 1) (member :: rest) ++ newLine depth ++ ['\x7d']
  | null => "null".toList
  | bool true => "true".toList
  | bool false => "false".toList
  | number n => n.print
  | string s => TextUnit.printString s

/-- Items, each on a line of its own, with a comma between each two. -/
def prettyItems (depth : Nat) : List Json → List Char
  | [] => []
  | [item] => newLine depth ++ prettyAt depth item
  | item :: rest => newLine depth ++ prettyAt depth item ++ ',' :: prettyItems depth rest

/-- Members, each on a line of its own, with a comma between each two. -/
def prettyMembers (depth : Nat) : List (List TextUnit × Json) → List Char
  | [] => []
  | [(key, value)] =>
    newLine depth ++ TextUnit.printString key ++ [':', ' '] ++ prettyAt depth value
  | (key, value) :: rest =>
    newLine depth ++ TextUnit.printString key ++ [':', ' '] ++ prettyAt depth value
      ++ ',' :: prettyMembers depth rest

end

def pretty (j : Json) : List Char := prettyAt 0 j

mutual

/-- How many arrays and objects of a document lie in each other. -/
def depth : Json → Nat
  | array items => 1 + depthItems items
  | object members => 1 + depthMembers members
  | _ => 0

def depthItems : List Json → Nat
  | [] => 0
  | item :: rest => max (depth item) (depthItems rest)

def depthMembers : List (List TextUnit × Json) → Nat
  | [] => 0
  | (_, value) :: rest => max (depth value) (depthMembers rest)

end

end Json
end Intcode
