import Intcode.Machine.Step

/-!
# Intcode.Machine.Execute

Running a machine until it rests.

* `Machine.turn`       — one instruction, or what keeps the machine from carrying it out.
* `Machine.execute`    — runs until the machine halts, waits for input, or comes to a fault.
* `Machine.runProgram` — runs a program on a given input to its end.

A program need not come to rest, so the last two take a number of instructions after which they
give up (`none`); a larger number gives the same answer (`execute_mono`).
-/

namespace Intcode

/-- Why a machine rests. -/
inductive HaltReason where
  /-- The machine needs a word that is not there yet. -/
  | waitingForInput
  | haltInstruction
deriving Repr, DecidableEq

/-- The error for a machine that waits at `pc` for input that never arrived. -/
def Error.inputExhausted (pc : Word) : Error :=
  { kind := .inputExhausted, message := "waiting for input at pc " ++ pc.text
    context := [("pc", pc.text)] }

/-- The error for a fault of the instruction at `pc`. -/
def Fault.errorAt (f : Fault) (pc : Word) : Error :=
  (f.error.within "machine::execute").noting "pc" pc.text

/-- What a turn of a machine comes to. -/
inductive Turn where
  | completed
  | rested (result : Except Error HaltReason)

namespace Machine

/-- The machine that has completed one more instruction. -/
def counted (m : Machine) : Machine := { m with steps := m.steps + 1 }

/-- Carries out the next instruction. If it is not completed, the program counter is put back to
where the instruction begins. A machine that has halted does nothing. -/
def turn (tapes : Tapes) (m : Machine) : Tapes × Machine × Turn :=
  if m.isHalted then (tapes, m, .rested (.ok .haltInstruction))
  else
    let start := m.pc
    match step (tapes, m) with
    | .ok .done (tapes, m) => (tapes, m.counted, .completed)
    | .ok .waiting (tapes, m) => (tapes, m.goto start, .rested (.ok .waitingForInput))
    | .ok .halting (tapes, m) =>
      (tapes, { m.goto start with state := .halted }, .rested (.ok .haltInstruction))
    | .error fault (tapes, m) =>
      (tapes, m.goto start, .rested (.error (fault.errorAt start)))

/-- Runs a machine until it rests, for fewer than `fuel` instructions. -/
def execute : Nat → Tapes → Machine → Option (Tapes × Machine × Except Error HaltReason)
  | 0, _, _ => none
  | fuel + 1, tapes, m =>
    match m.turn tapes with
    | (tapes, m, .completed) => execute fuel tapes m
    | (tapes, m, .rested result) => some (tapes, m, result)

/-- Runs a program on an input to its end, and gives what it wrote. -/
def runProgram (fuel : Nat) (memory : Memory) (input : List Word) :
    Option (Except Error (Array Word)) := do
  let (tapes, m) := (start memory 0).feed {} input
  let (tapes, m, result) ← m.execute fuel tapes
  return match result with
    | .error e => .error e
    | .ok .haltInstruction => .ok (tapes.values m.output)
    | .ok .waitingForInput =>
      .error (((Error.inputExhausted m.pc).within "machine::run_program").noting "consumed"
        (Text.decimal m.cursor))

/-- A machine that rests does so at the same place with more fuel. -/
theorem execute_mono {fuel : Nat} {tapes : Tapes} {m : Machine}
    {r : Tapes × Machine × Except Error HaltReason} (h : execute fuel tapes m = some r) :
    execute (fuel + 1) tapes m = some r := by
  induction fuel generalizing tapes m with
  | zero => simp [execute] at h
  | succ fuel ih =>
    rw [execute] at h ⊢
    split <;> simp_all

end Machine
end Intcode
