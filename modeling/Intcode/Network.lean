import Intcode.Machine.Execute

/-!
# Intcode.Network

Machines that work with the same tapes.

* `Network.add`, `Network.fork` — new machines, each with an output tape of its own.
* `Operation`, `Network.perform` — all that can be done to a network from outside.
* `Network.pass` — one execution of every machine, in order.

Machines are known by their place in the list, beginning with zero. An operation on a machine
that is not there changes nothing.
-/

namespace Intcode

/-- Machines and the tapes they work with. -/
structure Network where
  tapes : Tapes := {}
  machines : List Machine := []

namespace Network

def size (net : Network) : Nat := net.machines.length

def machine? (net : Network) (i : Nat) : Option Machine := net.machines[i]?

/-- The network with one more machine on the given memory. -/
def add (net : Network) (memory : Memory) : Network :=
  { tapes := net.tapes.create #[]
    machines := net.machines ++ [Machine.start memory net.tapes.fresh] }

/-- The network with `count` more machines, each on a copy of the same memory. -/
def addCopies (net : Network) (memory : Memory) : Nat → Network
  | 0 => net
  | count + 1 => (net.add memory).addCopies memory count

/-- The network with one more machine that is like machine `i`. -/
def fork (net : Network) (i : Nat) : Network :=
  match net.machine? i with
  | none => net
  | some m =>
    let (tapes, copy) := m.fork net.tapes
    { tapes, machines := net.machines ++ [copy] }

/-- The network with one more tape, whose number is `net.tapes.fresh`. -/
def addTape (net : Network) (words : Array Word) : Network :=
  { net with tapes := net.tapes.create words }

def write (net : Network) (t : TapeId) (words : List Word) : Network :=
  { net with tapes := net.tapes.extend t words }

/-- The network with words added to what machine `i` reads. -/
def feed (net : Network) (i : Nat) (words : List Word) : Network :=
  match net.machine? i with
  | none => net
  | some m =>
    let (tapes, m) := m.feed net.tapes words
    { tapes, machines := net.machines.set i m }

def wire (net : Network) (i : Nat) (t : TapeId) : Network :=
  { net with machines := net.machines.modify i fun m => m.wire (.tape t) }

/-- The network with a word stored in the memory of machine `i`. -/
def poke (net : Network) (i : Nat) (address : Address) (word : Word) : Network :=
  { net with machines := net.machines.modify i fun m => m.poke address word }

/-- The network without machine `i`; its output tape stays. -/
def remove (net : Network) (i : Nat) : Network :=
  { net with machines := net.machines.eraseIdx i }

/-- The network with its machines in reverse order. -/
def reverse (net : Network) : Network :=
  { net with machines := net.machines.reverse }

/-- The network after machine `i` was executed, and why the machine rests. -/
def execute (fuel : Nat) (net : Network) (i : Nat) :
    Option (Network × Option (Except Error HaltReason)) :=
  match net.machine? i with
  | none => some (net, none)
  | some m =>
    (m.execute fuel net.tapes).map fun (tapes, m, result) =>
      ({ tapes, machines := net.machines.set i m }, some result)

/-- How many instructions the machines have completed. -/
def totalSteps (net : Network) : Nat :=
  net.machines.foldr (fun m total => m.steps + total) 0

/-- Executes machines one after the other; the first of them has number `index`. The machines
behind one that faults are left as they are. -/
def passFrom (fuel : Nat) (index : Nat) (tapes : Tapes) :
    List Machine → Option (Tapes × List Machine × Except Error (List HaltReason))
  | [] => some (tapes, [], .ok [])
  | m :: rest => do
    let (tapes, m, result) ← m.execute fuel tapes
    match result with
    | .error e =>
      let e := (e.within "pipeline::run").noting "machine" (Text.decimal index)
      return (tapes, m :: rest, .error e)
    | .ok reason =>
      let (tapes, rest, reasons) ← passFrom fuel (index + 1) tapes rest
      return (tapes, m :: rest, reasons.map (reason :: ·))

/-- Executes every machine once, in order, and says why each of them rests. -/
def pass (fuel : Nat) (net : Network) :
    Option (Network × Except Error (List HaltReason)) := do
  let (tapes, machines, reasons) ← passFrom fuel 0 net.tapes net.machines
  return ({ tapes, machines }, reasons)

end Network

/-- What can be done to a network from outside. -/
inductive Operation where
  | add (memory : Memory)
  | fork (machine : Nat)
  | addTape (words : Array Word)
  | write (tape : TapeId) (words : List Word)
  | feed (machine : Nat) (words : List Word)
  | wire (machine : Nat) (tape : TapeId)
  | poke (machine : Nat) (address : Address) (word : Word)
  | execute (machine : Nat)

/-- The network after an operation, and why the machine rests that was executed, if one was. -/
def Network.perform (fuel : Nat) (net : Network) :
    Operation → Option (Network × Option (Except Error HaltReason))
  | .add memory => some (net.add memory, none)
  | .fork i => some (net.fork i, none)
  | .addTape words => some (net.addTape words, none)
  | .write t words => some (net.write t words, none)
  | .feed i words => some (net.feed i words, none)
  | .wire i t => some (net.wire i t, none)
  | .poke i a w => some (net.poke i a w, none)
  | .execute i => net.execute fuel i

end Intcode
