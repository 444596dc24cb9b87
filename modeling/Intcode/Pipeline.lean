import Intcode.Network
import Intcode.Pipeline.Report

/-!
# Intcode.Pipeline

Machines in a row, each reading what the one before it writes.

* `Pipeline.ofNetwork`, `Pipeline.create` — wire machines to a chain or a ring.
* `Pipeline.seed`, `Pipeline.seedAll` — give words to machines.
* `Pipeline.run` — executes the machines in turn until none waits, or none can go on.

Words only flow through tapes that grow and that each reader reads at its own place, so what
comes out does not hang on whose turn it is.
-/

namespace Intcode

/-- Machines wired to a chain or a ring. -/
structure Pipeline where
  network : Network
  topology : Topology

namespace Pipeline

/-- Every machine reads what the one before it writes, the first one the tape `feed`. -/
def link (feed : TapeId) : List Machine → List Machine
  | [] => []
  | m :: rest => m.wire (.tape feed) :: link m.output rest

/-- Machines wired to a chain or a ring. In a chain the first one reads what it read before. -/
def wire (topology : Topology) : List Machine → List Machine
  | [] => []
  | first :: rest =>
    let last := (first :: rest).getLast (by simp)
    let head :=
      match topology with
      | .chain => first
      | .ring => first.wire (.tape last.output)
    head :: link first.output rest

/-- The machines of a network as a pipeline; there must be one. -/
def ofNetwork (network : Network) (topology : Topology) : Except Error Pipeline :=
  if network.machines.isEmpty then
    .error ((Error.invalidArgument "pipeline needs at least one machine").within
      "pipeline::new")
  else
    .ok { network := { network with machines := wire topology network.machines }, topology }

/-- A pipeline of `count` machines on copies of the same memory. -/
def create (memory : Memory) (count : Nat) (topology : Topology) : Except Error Pipeline :=
  ofNetwork (Network.addCopies {} memory count) topology

def size (p : Pipeline) : Nat := p.network.size

/-- The pipeline with a word added to what machine `i` reads. -/
def seed (p : Pipeline) (i : Nat) (word : Word) : Except Error Pipeline :=
  if i < p.size then .ok { p with network := p.network.feed i [word] }
  else
    let index := Text.decimal i
    .error (((Error.invalidArgument
      ("no machine " ++ index ++ " in pipeline of " ++ Text.decimal p.size)).within
        "pipeline::seed").noting "index" index)

/-- The network with one word added to what each machine reads, from machine `i` on. -/
def feedEach (network : Network) (i : Nat) : List Word → Network
  | [] => network
  | w :: rest => feedEach (network.feed i [w]) (i + 1) rest

/-- The pipeline with one word added to what each machine reads; there must be as many words
as machines. -/
def seedAll (p : Pipeline) (words : List Word) : Except Error Pipeline :=
  if words.length = p.size then .ok { p with network := feedEach p.network 0 words }
  else
    .error ((Error.invalidArgument
      ("expected " ++ Text.decimal p.size ++ " seed values, got "
        ++ Text.decimal words.length)).within "pipeline::seed_all")

/-- Executes the machines in turn until none waits or none can go on, after `passes` turns,
for at most `limit` more. -/
def runFrom (fuel : Nat) (passes : Nat) (network : Network) :
    Nat → Option (Network × Except Error Report)
  | 0 => none
  | limit + 1 => do
    let before := network.totalSteps
    let (network, result) ← network.pass fuel
    match result with
    | .error e => return (network, .error e)
    | .ok reasons =>
      let report (outcome : Outcome) : Report := { passes := passes + 1, reasons, outcome }
      let waiting := HaltReason.waitingFrom 0 reasons
      if waiting.isEmpty then return (network, .ok (report .halted))
      else if network.totalSteps = before then
        return (network, .ok (report (.stalled waiting)))
      else runFrom fuel (passes + 1) network limit

/-- Executes the machines in turn until none waits or none can go on. -/
def run (fuel : Nat) (p : Pipeline) : Option (Pipeline × Except Error Report) :=
  (runFrom fuel 0 p.network fuel).map fun (network, result) => ({ p with network }, result)

/-- Executes the machines in turn until none waits; that none can go on is an error. -/
def runToHalt (fuel : Nat) (p : Pipeline) : Option (Pipeline × Except Error Report) :=
  (p.run fuel).map fun (p, result) =>
    (p, result.bind fun report =>
      match report.outcome with
      | .halted => .ok report
      | .stalled waiting =>
        .error (((Error.pipelineStalled waiting).within "pipeline::run_to_halt").noting
          "passes" (Text.decimal report.passes)))

/-- The last word that the last machine wrote itself. -/
def lastOutput (p : Pipeline) : Option Word :=
  p.network.machines.getLast?.bind Machine.lastEmitted

end Pipeline
end Intcode
