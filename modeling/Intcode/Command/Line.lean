import Intcode.Command.Options
import Intcode.Command.Task

/-!
# Intcode.Command.Line

The command line: its options and subcommands, and the task that it asks for.

    intcode run <FILE> [-i N]... [--poke ADDR=VALUE]... [--json]
    intcode disasm <FILE> [--start ADDR]
    intcode pipeline <FILE> --seeds a,b,c [--initial N] [--chain] [--json]

The options `--dense-limit` and `--verbose` can stand on either side of the subcommand.
-/

namespace Intcode
namespace Command

/-- What the options on one side of a command line say. -/
structure Settings where
  file : Option (List Char) := none
  denseLimit : Option Nat := none
  inputs : List Word := []
  pokes : List Poke := []
  start : Option Address := none
  seeds : List Word := []
  initial : Option Word := none
  chain : Bool := false
  json : Bool := false

/-- The subcommands that have a task. -/
inductive Verb where
  | run
  | disasm
  | pipeline
deriving Repr, DecidableEq

/-- A command line that was understood. -/
structure Request where
  task : Task
  denseLimit : Nat
deriving Repr, DecidableEq

def usage : String :=
  "Run, inspect and chain Intcode programs\n\n" ++
  "Usage:\n" ++
  "  intcode run <FILE> [-i N]... [--poke ADDR=VALUE]... [--json]\n" ++
  "  intcode disasm <FILE> [--start ADDR]\n" ++
  "  intcode pipeline <FILE> --seeds a,b,c [--initial N] [--chain] [--json]\n"

def version : String := "intcode 0.1.0\n"

def readWord (argument : String) (value : List Char) : Except Stop Word :=
  (Text.readSigned value).mapError fun flaw => .badValue value argument flaw.message

def readAddress (argument : String) (value : List Char) : Except Stop Address :=
  (Text.readUnsigned value).mapError fun flaw => .badValue value argument flaw.message

/-- An option that may be given once only; that it was given before is noticed before its value
is looked at. -/
def once (negative : Bool) (given : Settings → Bool)
    (put : List Char → Settings → Except Stop Settings) : Effect Settings :=
  .value negative fun value s =>
    if given s then .error (.misuse "an argument cannot be used multiple times")
    else put value s

def switch (given : Settings → Bool) (put : Settings → Settings) : Effect Settings :=
  .flag fun s =>
    if given s then .error (.misuse "an argument cannot be used multiple times")
    else .ok (put s)

namespace Opt

/-- More messages on what is going on; there are none to be had, but it may be asked for. -/
def verbose : Opt Settings :=
  { name := "verbose".toList, letter := some 'v', effect := .flag .ok }

def denseLimit : Opt Settings where
  name := "dense-limit".toList
  effect := once false (·.denseLimit.isSome) fun value s => do
    let n ← readAddress "--dense-limit <DENSE_LIMIT>" value
    return { s with denseLimit := some n.toNat }

def help : Opt Settings where
  name := "help".toList
  letter := some 'h'
  effect := .flag fun _ => .error (.show usage)

def version : Opt Settings where
  name := "version".toList
  letter := some 'V'
  effect := .flag fun _ => .error (.show Command.version)

def input : Opt Settings where
  name := "input".toList
  letter := some 'i'
  effect := .value true fun value s => do
    return { s with inputs := s.inputs ++ [← readWord "--input <INPUTS>" value] }

def poke : Opt Settings where
  name := "poke".toList
  effect := .value false fun value s =>
    match Poke.parse value with
    | .ok poke => .ok { s with pokes := s.pokes ++ [poke] }
    | .error flaw => .error (.badValue value "--poke <POKES>" flaw.message)

def json : Opt Settings where
  name := "json".toList
  effect := switch (·.json) fun s => { s with json := true }

def start : Opt Settings where
  name := "start".toList
  effect := once false (·.start.isSome) fun value s => do
    return { s with start := some (← readAddress "--start <START>" value) }

/-- The seeds of the machines, with commas between them. -/
def seeds : Opt Settings where
  name := "seeds".toList
  effect := .value true fun value s => do
    let words ← (value.splitOn ',').mapM (readWord "--seeds <SEEDS>")
    return { s with seeds := s.seeds ++ words }

/-- The word that the first machine is given behind its seed. -/
def initial : Opt Settings where
  name := "initial".toList
  effect := once true (·.initial.isSome) fun value s => do
    return { s with initial := some (← readWord "--initial <INITIAL>" value) }

def chain : Opt Settings where
  name := "chain".toList
  effect := switch (·.chain) fun s => { s with chain := true }

end Opt

def Verb.ofWord? (word : List Char) : Option Verb :=
  match String.ofList word with
  | "run" => some .run
  | "disasm" => some .disasm
  | "pipeline" => some .pipeline
  | _ => none

/-- What stands in front of the subcommand, which may also be `help`, without a task. -/
def outerGrammar : Grammar Settings (Option Verb) where
  options := [.verbose, .denseLimit, .help, .version]
  subcommand? := fun word =>
    if word = "help".toList then some none else (Verb.ofWord? word).map some

def Verb.options : Verb → List (Opt Settings)
  | .run => [.input, .poke, .json]
  | .disasm => [.start]
  | .pipeline => [.seeds, .initial, .chain, .json]

/-- What stands behind a subcommand: its options, those of the whole program, and a file. -/
def Verb.grammar (v : Verb) : Grammar Settings Verb where
  options := v.options ++ [.verbose, .denseLimit, .help]
  plain? := fun word s =>
    if s.file.isSome then none else some { s with file := some word }

/-- The task of a subcommand, if all that it needs is there. -/
def Verb.task? (v : Verb) (s : Settings) : Except Stop Task :=
  match v, s.file with
  | .run, some file => .ok (.run (String.ofList file) s.inputs s.pokes s.json)
  | .disasm, some file => .ok (.list (String.ofList file) (s.start.getD 0))
  | .pipeline, some file =>
    if s.seeds.isEmpty then .error (.misuse "required arguments were not provided: --seeds")
    else .ok (.pipeline (String.ofList file) s.seeds (s.initial.getD 0) s.chain s.json)
  | _, none => .error (.misuse "required arguments were not provided: <FILE>")

/-- The answer to the words behind `help`: at most the name of one subcommand. -/
def helpOn : List (List Char) → Stop
  | [] => .show usage
  | [word] => if (Verb.ofWord? word).isSome then .show usage else unexpected word
  | _ :: word :: _ => unexpected word

def Verb.read (v : Verb) (words : List (List Char)) : Except Stop (Task × Settings) := do
  let (scan, _) ← v.grammar.scan { settings := {} } words
  let settings ← scan.settle
  return (← v.task? settings, settings)

/-- What a command line asks for. A value in front of the subcommand that is still held is
looked at last. -/
def Request.parse (words : List (List Char)) : Except Stop Request := do
  let (outer, found) ← outerGrammar.scan { settings := {} } words
  match found with
  | none =>
    let _ ← outer.settle
    throw (.misuse "a subcommand is required")
  | some (none, rest) => throw (helpOn rest)
  | some (some verb, rest) =>
    let (task, inner) ← verb.read rest
    let settings ← outer.settle
    let limit := inner.denseLimit.orElse fun _ => settings.denseLimit
    return { task, denseLimit := limit.getD Memory.defaultLimit }

end Command
end Intcode
