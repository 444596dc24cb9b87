import Intcode.Text.Unprintable

/-!
# Intcode.Text.Record

The record form of a value: the name of its kind followed by its named parts, as in
`Point { x: 1, y: 2 }`. A text stands between quotation marks, with everything escaped that could
not be read off the page; lists and pairs stand in brackets.

* `escape`    — how one character is written inside quotation marks.
* `quoted`    — a whole text, marks included.
* `bracketed` — a list of values in their own forms.
* `record`    — a value with its named parts.
-/

namespace Intcode
namespace Text

/-- How a character is written inside quotation marks. The quotation mark and the backslash
get a backslash, the common controls a letter, other unprintable characters their code point;
all else stands for itself. -/
def escape (c : Char) : List Char :=
  match c with
  | '"' => ['\\', '"']
  | '\\' => ['\\', '\\']
  | '\n' => ['\\', 'n']
  | '\t' => ['\\', 't']
  | '\r' => ['\\', 'r']
  | '\x00' => ['\\', '0']
  | c =>
    if isUnprintable c then ['\\', 'u', '\x7b'] ++ Nat.toDigits 16 c.toNat ++ ['\x7d'] else [c]

def quotedChars (s : List Char) : List Char :=
  '"' :: s.flatMap escape ++ ['"']

def quoted (s : String) : String :=
  String.ofList (quotedChars s.toList)

/-- Items in brackets, with a comma and a space between each two. -/
def bracketed (items : List String) : String :=
  "[" ++ ", ".intercalate items ++ "]"

def paired (first second : String) : String :=
  "(" ++ first ++ ", " ++ second ++ ")"

/-- A value named `name` with the given named parts, in order. -/
def record (name : String) (fields : List (String × String)) : String :=
  name ++ " \x7b " ++ ", ".intercalate (fields.map fun (key, value) => key ++ ": " ++ value)
    ++ " \x7d"

end Text
end Intcode
