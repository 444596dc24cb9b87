import Intcode.Json

/-!
# Intcode.Json.Reader

Reading JSON documents.

* `Json.parse?` — the document that a text holds, if it holds one and nothing else.

The grammar is the strict one: no trailing commas, no leading zeros, no control characters in
strings. Only what is read tells how deep a document may be.
-/

namespace Intcode
namespace Json

/-- A blank of the grammar. -/
def isSpace (c : Char) : Bool := c = ' ' || c = '\n' || c = '\t' || c = '\r'

def skipSpaces (s : List Char) : List Char := s.dropWhile isSpace

/-- The number that a hexadecimal digit stands for. -/
def hexValue? (c : Char) : Option Nat :=
  if 48 ≤ c.toNat ∧ c.toNat ≤ 57 then some (c.toNat - 48)
  else if 65 ≤ c.toNat ∧ c.toNat ≤ 70 then some (c.toNat - 55)
  else if 97 ≤ c.toNat ∧ c.toNat ≤ 102 then some (c.toNat - 87)
  else none

def code? (a b c d : Char) : Option Nat := do
  let a ← hexValue? a
  let b ← hexValue? b
  let c ← hexValue? c
  let d ← hexValue? d
  return ((a * 16 + b) * 16 + c) * 16 + d

/-- The character that a letter stands for behind a backslash. -/
def unescape? : Char → Option Char
  | '"' => some '"'
  | '\\' => some '\\'
  | '/' => some '/'
  | 'b' => some '\x08'
  | 'f' => some '\x0c'
  | 'n' => some '\n'
  | 'r' => some '\r'
  | 't' => some '\t'
  | _ => none

/-- The element with the given code in front of others. Two halves that fit are one character. -/
def consCode (code : Nat) (rest : List TextUnit) : List TextUnit :=
  if 0xD800 ≤ code ∧ code < 0xE000 then
    match rest with
    | .half low :: others =>
      if code < 0xDC00 ∧ 0xDC00 ≤ low then
        .char (Char.ofNat (0x10000 + (code - 0xD800) * 0x400 + (low - 0xDC00))) :: others
      else .half code :: rest
    | _ => .half code :: rest
  else .char (Char.ofNat code) :: rest

/-- Reads a string up to its closing quotation mark; gives what comes behind it as well. -/
def readString : List Char → Option (List TextUnit × List Char)
  | [] => none
  | '"' :: rest => some ([], rest)
  | '\\' :: 'u' :: a :: b :: c :: d :: rest => do
    let code ← code? a b c d
    let (units, rest) ← readString rest
    return (consCode code units, rest)
  | '\\' :: c :: rest => do
    let c ← unescape? c
    let (units, rest) ← readString rest
    return (.char c :: units, rest)
  | c :: rest =>
    if c.toNat < 32 then none
    else do
      let (units, rest) ← readString rest
      return (.char c :: units, rest)

def readDigits (s : List Char) : Option (List Char × List Char) :=
  match s.takeWhile Char.isDigit with
  | [] => none
  | d :: ds => some (d :: ds, s.dropWhile Char.isDigit)

/-- Reads the digits of a whole number; only zero begins with a zero. -/
def readWhole (s : List Char) : Option (List Char × List Char) := do
  let (ds, rest) ← readDigits s
  if ds.head? = some '0' ∧ 1 < ds.length then none else return (ds, rest)

def readFraction : List Char → Option (Option (List Char) × List Char)
  | '.' :: rest => (readDigits rest).map fun (ds, rest) => (some ds, rest)
  | s => some (none, s)

def readExponentValue : List Char → Option (Int × List Char)
  | '+' :: rest => (readDigits rest).map fun (ds, rest) => ((Nat.ofDigitChars 10 ds 0 : Int), rest)
  | '-' :: rest => (readDigits rest).map fun (ds, rest) => (-(Nat.ofDigitChars 10 ds 0 : Int), rest)
  | s => (readDigits s).map fun (ds, rest) => ((Nat.ofDigitChars 10 ds 0 : Int), rest)

def readExponent : List Char → Option (Option Int × List Char)
  | 'e' :: rest | 'E' :: rest => (readExponentValue rest).map fun (e, rest) => (some e, rest)
  | s => some (none, s)

def readMagnitude (negative : Bool) (s : List Char) : Option (JsonNumber × List Char) := do
  let (whole, rest) ← readWhole s
  let (fraction, rest) ← readFraction rest
  let (exponent, rest) ← readExponent rest
  let number : JsonNumber :=
    match fraction, exponent with
    | none, none => .integer negative (Nat.ofDigitChars 10 whole 0)
    | fraction, exponent =>
      let places := fraction.getD []
      .scientific negative (Nat.ofDigitChars 10 (whole ++ places) 0) (exponent.getD 0 - places.length)
  return (number, rest)

def readNumber : List Char → Option (JsonNumber × List Char)
  | '-' :: rest => readMagnitude true rest
  | s => readMagnitude false s

mutual

/-- Reads a document; gives what comes behind it as well. -/
def readValue : Nat → List Char → Option (Json × List Char)
  | 0, _ => none
  | fuel + 1, s =>
    match skipSpaces s with
    | 'n' :: 'u' :: 'l' :: 'l' :: rest => some (.null, rest)
    | 't' :: 'r' :: 'u' :: 'e' :: rest => some (.bool true, rest)
    | 'f' :: 'a' :: 'l' :: 's' :: 'e' :: rest => some (.bool false, rest)
    | '"' :: rest => (readString rest).map fun (units, rest) => (.string units, rest)
    | '[' :: rest =>
      match skipSpaces rest with
      | ']' :: rest => some (.array [], rest)
      | rest => (readItems fuel rest).map fun (items, rest) => (.array items, rest)
    | '\x7b' :: rest =>
      match skipSpaces rest with
      | '\x7d' :: rest => some (.object [], rest)
      | rest => (readMembers fuel rest).map fun (members, rest) => (.object members, rest)
    | rest => (readNumber rest).map fun (n, rest) => (.number n, rest)

/-- Reads the items of an array, of which there must be one, and the closing bracket. -/
def readItems : Nat → List Char → Option (List Json × List Char)
  | 0, _ => none
  | fuel + 1, s => do
    let (item, rest) ← readValue fuel s
    match skipSpaces rest with
    | ']' :: rest => return ([item], rest)
    | ',' :: rest =>
      let (items, rest) ← readItems fuel rest
      return (item :: items, rest)
    | _ => none

/-- Reads the members of an object, of which there must be one, and the closing brace. -/
def readMembers : Nat → List Char → Option (List (List TextUnit × Json) × List Char)
  | 0, _ => none
  | fuel + 1, s =>
    match skipSpaces s with
    | '"' :: rest => do
      let (key, rest) ← readString rest
      match skipSpaces rest with
      | ':' :: rest =>
        let (value, rest) ← readValue fuel rest
        match skipSpaces rest with
        | '\x7d' :: rest => return ([(key, value)], rest)
        | ',' :: rest =>
          let (members, rest) ← readMembers fuel rest
          return ((key, value) :: members, rest)
        | _ => none
      | _ => none
    | _ => none

end

/-- The document that a text holds, if it holds one and nothing else. Every two levels of the
reading take up a character. -/
def parse? (s : List Char) : Option Json :=
  match readValue (2 * s.length + 2) s with
  | some (j, rest) => if (skipSpaces rest).isEmpty then some j else none
  | none => none

end Json
end Intcode
