import Intcode.Text.Blank

/-!
# Intcode.Command.Options

Command lines: options, each with its value, among plain words.

* `Grammar` — the options that there are and what each of them does to the settings.
* `scan`    — goes through a command line from left to right.

An option is written `--name` or, if it has a letter, `-n`; its value is the next word or is
attached, as in `--name=5`, `-n5` or `-n=5`. Letters can share a dash. Behind `--` all words are
plain.

An attached value is looked at on the spot. A value that is a word of its own is held until
the next option or plain word takes effect, so a word that is out of place is reported before
a held value that is no good.
-/

namespace Intcode
namespace Command

/-- Why a command line is not carried out. -/
inductive Stop where
  /-- A value is no good for the argument it is given for. -/
  | badValue (value : List Char) (argument : String) (reason : String)
  | misuse (message : String)
  | show (text : String)
deriving Repr, DecidableEq

/-- What an option does to the settings. -/
inductive Effect (σ : Type) where
  | flag (apply : σ → Except Stop σ)
  /-- The option has a value, which may be a negative number in a word of its own if
  `negative` says so. -/
  | value (negative : Bool) (apply : List Char → σ → Except Stop σ)

/-- An option. -/
structure Opt (σ : Type) where
  name : List Char
  letter : Option Char := none
  effect : Effect σ

/-- What a command line can hold. A word can be one of several things: the name of a
subcommand, which ends the scan, or a plain word, if there is room for it. -/
structure Grammar (σ κ : Type) where
  options : List (Opt σ)
  subcommand? : List Char → Option κ := fun _ => none
  plain? : List Char → σ → Option σ := fun _ _ => none

/-- A value of an option that is not yet looked at. -/
inductive Pending (σ : Type) where
  | none
  | awaited (negative : Bool) (apply : List Char → σ → Except Stop σ)
  | held (apply : List Char → σ → Except Stop σ) (value : List Char)

/-- A scan that has come to some point of a command line. -/
structure Scan (σ : Type) where
  settings : σ
  pending : Pending σ := .none

namespace Scan

def settle (s : Scan σ) : Except Stop σ :=
  match s.pending with
  | .none => .ok s.settings
  | .awaited _ _ => .error (.misuse "a value is required")
  | .held apply value => apply value s.settings

/-- The scan behind an option that takes effect at once. -/
def apply (s : Scan σ) (f : σ → Except Stop σ) : Except Stop (Scan σ) := do
  return { settings := ← f (← s.settle) }

/-- The scan behind an option with its attached value, or that its value is to follow. -/
def takeValue (s : Scan σ) (negative : Bool) (f : List Char → σ → Except Stop σ)
    (attached : Option (List Char)) : Except Stop (Scan σ) :=
  match attached with
  | some value => s.apply (f value)
  | none => do return { settings := ← s.settle, pending := .awaited negative f }

end Scan

/-- Whether the characters from place `i` on go on with a number. A dot may come once and
before the exponent, an `e` of either case once, and neither of them first. -/
def isNumberFrom (i : Nat) (dot : Bool) (exponent : Bool) : List Char → Bool
  | [] => true
  | c :: rest =>
    if '0' ≤ c ∧ c ≤ '9' then isNumberFrom (i + 1) dot exponent rest
    else if c = '.' ∧ dot = false ∧ exponent = false ∧ 0 < i then
      isNumberFrom (i + 1) true exponent rest
    else if (c = 'e' ∨ c = 'E') ∧ exponent = false ∧ 0 < i ∧ rest ≠ [] then
      isNumberFrom (i + 1) dot true rest
    else false

/-- Whether what follows a minus sign makes the word a negative number. -/
def isNumber (s : List Char) : Bool := isNumberFrom 0 false false s

def unexpected (word : List Char) : Stop :=
  .misuse ("unexpected argument '" ++ String.ofList word ++ "' found")

namespace Grammar

/-- The scan behind a word `--name` or `--name=value`, given without its dashes. -/
def scanName (g : Grammar σ κ) (s : Scan σ) (word : List Char) : Except Stop (Scan σ) :=
  let (name, attached) := Text.cut '=' word
  match g.options.find? fun o => o.name = name with
  | none => .error (unexpected ('-' :: '-' :: name))
  | some o =>
    match o.effect, attached with
    | .flag _, some _ => .error (unexpected ('-' :: '-' :: word))
    | .flag f, none => s.apply f
    | .value negative f, attached => s.takeValue negative f attached

/-- The scan behind letters that share a dash. The first one with a value takes the rest of
the word as its value, if there is any; an `=` in front of the value is left out. -/
def scanLetters (g : Grammar σ κ) (s : Scan σ) : List Char → Except Stop (Scan σ)
  | [] => .ok s
  | c :: rest =>
    match g.options.find? fun o => o.letter = some c with
    | none => .error (unexpected ['-', c])
    | some o =>
      match o.effect with
      | .flag f => do scanLetters g (← s.apply f) rest
      | .value negative f =>
        let attached :=
          match rest with
          | [] => none
          | '=' :: value => some value
          | value => some value
        s.takeValue negative f attached

def scanPlain (g : Grammar σ κ) (s : Scan σ) (word : List Char) : Except Stop (Scan σ) :=
  match g.plain? word s.settings with
  | none => .error (unexpected word)
  | some _ => do
    match g.plain? word (← s.settle) with
    | none => .error (unexpected word)
    | some settings => return { settings }

/-- The scan behind a word that is no option, unless it is the value that was awaited. -/
def scanWord (g : Grammar σ κ) (s : Scan σ) (word : List Char) : Except Stop (Scan σ) :=
  match s.pending with
  | .awaited _ f => .ok { s with pending := .held f word }
  | _ => g.scanPlain s word

def scanTrailing (g : Grammar σ κ) (s : Scan σ) : List (List Char) → Except Stop (Scan σ)
  | [] => .ok s
  | word :: rest => do g.scanTrailing (← g.scanPlain s word) rest

/-- The scan behind the words of a command line, or at the name of a subcommand, which comes
with the words behind it. -/
def scan (g : Grammar σ κ) (s : Scan σ) :
    List (List Char) → Except Stop (Scan σ × Option (κ × List (List Char)))
  | [] => .ok (s, none)
  | word :: rest =>
    let named :=
      match s.pending with
      | .awaited _ _ => none
      | _ => g.subcommand? word
    match named with
    | some k => .ok (s, some (k, rest))
    | none =>
      match word with
      | ['-', '-'] => (g.scanTrailing s rest).map fun s => (s, none)
      | '-' :: '-' :: name => do g.scan (← g.scanName s name) rest
      | '-' :: c :: letters =>
        match s.pending with
        | .awaited true _ =>
          if isNumber (c :: letters) then do g.scan (← g.scanWord s word) rest
          else do g.scan (← g.scanLetters s (c :: letters)) rest
        | _ => do g.scan (← g.scanLetters s (c :: letters)) rest
      | _ => do g.scan (← g.scanWord s word) rest

end Grammar
end Command
end Intcode
