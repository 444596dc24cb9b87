import Intcode.Memory
import Intcode.Text.Blank

/-!
# Intcode.ProgramText

Programs as text: words in decimal, with commas between the words of a line.

* `tokens`     — the places of a text where a word has to stand, in order.
* `parseChars` — the words of a text, or the first token that is no word.
* `load`       — the memory that starts with the words of a text.

Blanks around tokens, blank lines, and one comma at the end of a line are allowed. A carriage
return in front of a line feed is a blank like any other.
-/

namespace Intcode

/-- A token that is no word. -/
structure BadToken where
  index : Nat
  token : List Char
  flaw : Text.NumeralFlaw
deriving Repr, DecidableEq

/-- The error for a token that is no word, without the reason. -/
def Error.invalidToken (token : String) (index : Nat) : Error :=
  let index := Text.decimal index
  ((((Error.parseFailed
    ("token " ++ index ++ " is not a signed 64-bit integer: '" ++ token ++ "'")).within
      "loader::parse").noting "index" index).noting "token" token)

def BadToken.error (b : BadToken) : Error :=
  (Error.invalidToken (String.ofList b.token) b.index).causedBy b.flaw.message

namespace ProgramText

/-- The tokens of a line whose outer blanks are gone. A comma at its end is no separator. -/
def lineTokens (line : List Char) : List (List Char) :=
  if line.isEmpty then []
  else
    let body := if line.getLast? = some ',' then line.dropLast else line
    (body.splitOn ',').map Text.trim

def tokens (text : List Char) : List (List Char) :=
  (text.splitOn '\n').flatMap fun line => lineTokens (Text.trim line)

/-- The words that tokens spell; `index` words come before them. -/
def readTokens (index : Nat) : List (List Char) → Except BadToken (List Word)
  | [] => .ok []
  | token :: rest =>
    match Text.readSigned token with
    | .error flaw => .error { index, token, flaw }
    | .ok word =>
      match readTokens (index + 1) rest with
      | .error bad => .error bad
      | .ok words => .ok (word :: words)

def parseChars (text : List Char) : Except BadToken (List Word) :=
  readTokens 0 (tokens text)

def parse (text : String) : Except Error (List Word) :=
  (parseChars text.toList).mapError BadToken.error

/-- The memory that starts with the words of a text. The limit is checked before the text is
read. -/
def load (limit : Nat) (text : String) : Except Error Memory := do
  let limit ← Memory.checkLimit limit
  let words ← parse text
  return Memory.ofWords words.toArray limit

end ProgramText
end Intcode
