import Intcode.Machine.Execute

/-!
# Intcode.Pipeline.Report

How a run of a pipeline ended: `Outcome` for the whole, `Report` with the machines one by one.
-/

namespace Intcode

/-- How the machines of a pipeline are wired. -/
inductive Topology where
  /-- Every machine but the first reads what the one before it writes. -/
  | chain
  /-- A chain whose first machine reads what the last one writes. -/
  | ring
deriving Repr, DecidableEq

/-- How a run ended. -/
inductive Outcome where
  | halted
  | stalled (waiting : List Nat)
deriving Repr, DecidableEq

/-- What is known about a run that ended. -/
structure Report where
  passes : Nat
  reasons : List HaltReason
  outcome : Outcome
deriving Repr, DecidableEq

def Report.isHalted (r : Report) : Bool := r.outcome = .halted

/-- The places at which a machine waits, when `index` machines come before. -/
def HaltReason.waitingFrom (index : Nat) : List HaltReason → List Nat
  | [] => []
  | .waitingForInput :: rest => index :: waitingFrom (index + 1) rest
  | .haltInstruction :: rest => waitingFrom (index + 1) rest

/-- The error for machines that wait while none can go on. -/
def Error.pipelineStalled (waiting : List Nat) : Error :=
  let list := ",".intercalate (waiting.map fun (i : Nat) => Text.decimal i)
  { kind := .pipelineStalled
    message := "no machine made progress, waiting: [" ++ list ++ "]"
    context := [("waiting", list)] }

end Intcode
