import Intcode.Command.Files
import Intcode.Command.Poke
import Intcode.Listing
import Intcode.Pipeline
import Intcode.Pipeline.Form
import Intcode.ProgramText

/-!
# Intcode.Command.Task

What the command line can be asked to do.

* `Task`         — run a program, list it, or run copies of it as a pipeline.
* `Task.perform` — carries out a task on the contents of its file and gives what is printed.

A task that fails prints nothing, even if its machines wrote something before they failed.
-/

namespace Intcode
namespace Command

/-- A task on the program in a file. -/
inductive Task where
  | run (file : String) (inputs : List Word) (pokes : List Poke) (json : Bool)
  | list (file : String) (start : Address)
  | pipeline (file : String) (seeds : List Word) (initial : Word) (chain json : Bool)
deriving Repr, DecidableEq

def Task.file : Task → String
  | .run file .. => file
  | .list file .. => file
  | .pipeline file .. => file

/-- What is known about a machine that came to rest. -/
structure RunReport where
  halt : HaltReason
  output : List Word
  pc : Word
  steps : Nat
deriving Repr, DecidableEq

/-- What is known about a pipeline that came to an end. -/
structure Summary where
  topology : Topology
  lastOutput : Option Word
  report : Report
deriving Repr, DecidableEq

def RunReport.toJson (r : RunReport) : Json :=
  Json.ofFields
    [("halt", Named.toJson r.halt), ("output", .array (r.output.map fun w => Json.int w.toInt)),
     ("pc", Json.int r.pc.toInt), ("steps", Json.int r.steps)]

/-- The document for a pipeline: the fields of its report come last. -/
def Summary.toJson (s : Summary) : Json :=
  Json.ofFields <|
    [("topology", Named.toJson s.topology),
     ("last_output", Json.ofOption (fun (w : Word) => Json.int w.toInt) s.lastOutput)]
      ++ s.report.fields

/-- The memory with patches applied, first one first. -/
def applyPokes (m : Memory) (pokes : List Poke) : Memory :=
  pokes.foldl (fun m poke => m.set poke.address poke.word) m

/-- Runs a machine on a memory until it rests. That it waits for input is no failure. -/
def runMemory (fuel : Nat) (memory : Memory) (inputs : List Word) :
    Option (Except Error RunReport) := do
  let (tapes, m) := (Machine.start memory 0).feed {} inputs
  let (tapes, m, result) ← m.execute fuel tapes
  return result.map fun halt =>
    { halt, output := (tapes.values m.output).toList, pc := m.pc, steps := m.steps }

/-- Runs a pipeline of as many machines as there are seeds until none waits. The first machine
is given `initial` behind its seed. -/
def runPipeline (fuel : Nat) (memory : Memory) (seeds : List Word) (initial : Word)
    (topology : Topology) : Option (Except Error Summary) :=
  let seeded : Except Error Pipeline := do
    let p ← Pipeline.create memory seeds.length topology
    let p ← p.seedAll seeds
    p.seed 0 initial
  match seeded with
  | .error e => some (.error e)
  | .ok p =>
    (p.runToHalt fuel).map fun (p, result) =>
      result.map fun report => { topology, lastOutput := p.lastOutput, report }

def printLines (texts : List (List Char)) : List Char :=
  texts.flatMap fun text => text ++ ['\n']

def RunReport.print (r : RunReport) (json : Bool) : List Char :=
  if json then printLines [r.toJson.pretty]
  else printLines (r.output.map fun w => Text.decimalChars w.toInt)

def Summary.print (s : Summary) (json : Bool) : List Char :=
  if json then printLines [s.toJson.pretty]
  else
    match s.lastOutput with
    | some w => printLines [Text.decimalChars w.toInt]
    | none => printLines ["(no output)".toList]

/-- The memory that starts with the program in a file. -/
def loadFile (limit : Nat) (file : String) (contents : Except FileError ByteArray) :
    Except Error Memory :=
  match contents with
  | .error e => .error (e.error file)
  | .ok bytes =>
    match String.fromUTF8? bytes with
    | none => .error (FileError.notText.error file)
    | some text => (ProgramText.load limit text).mapError (·.noting "path" file)

def Task.performOn (fuel : Nat) (memory : Memory) :
    Task → Option (Except Error (List Char))
  | .run _ inputs pokes json =>
    (runMemory fuel (applyPokes memory pokes) inputs).map fun r => r.map (·.print json)
  | .list _ start => some (.ok (printLines ((Listing.sweep memory start).map Line.chars)))
  | .pipeline _ seeds initial chain json =>
    (runPipeline fuel memory seeds initial (if chain then .chain else .ring)).map fun r =>
      r.map (·.print json)

/-- Carries out a task on the contents of its file, and gives what is printed. -/
def Task.perform (fuel limit : Nat) (task : Task) (contents : Except FileError ByteArray) :
    Option (Except Error (List Char)) :=
  match loadFile limit task.file contents with
  | .error e => some (.error e)
  | .ok memory => task.performOn fuel memory

end Command
end Intcode
