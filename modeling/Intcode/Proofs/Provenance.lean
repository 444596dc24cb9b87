import Intcode.ProgramText
import Intcode.Proofs.Breakdowns
import Intcode.Proofs.Forward

/-!
# Intcode.Proofs.Provenance

Where the errors come from. There are three sources: a caller that asks for what cannot be, an
instruction with a fault, and a machine that starved where nobody will feed it. The kind of an
error tells which of them it was, and no caller that hands an error on can change its kind.

* `Attempt`                     : all that can be asked for and can fail.
* `Attempt.cause`               : an error has one of the three sources.
* `Attempt.classified_by_cause` : only starvation is retryable, only faults blame the program.
-/

namespace Intcode

open Relation

/-! ## What callers add -/

/-- What a caller adds to an error that it hands on. -/
inductive Addition where
  | within (operation : String)
  | noting (key value : String)
  | causedBy (source : String)

def Error.add (e : Error) : Addition → Error
  | .within operation => e.within operation
  | .noting key value => e.noting key value
  | .causedBy source => e.causedBy source

theorem Error.kind_add (e : Error) (a : Addition) : (e.add a).kind = e.kind := by
  cases a <;> rfl

/-- Whatever callers add to an error, it stays one of the kind that it was created with. -/
theorem Error.kind_foldl_add (e : Error) (additions : List Addition) :
    (additions.foldl Error.add e).kind = e.kind := by
  induction additions generalizing e with
  | nil => rfl
  | cons a rest ih => rw [List.foldl_cons, ih, e.kind_add]

theorem Error.isRetryable_eq (e : Error) : e.isRetryable = e.kind.isRetryable :=
  e.kind.isRetryable_status

theorem Error.Kind.not_retryable {k : Kind} (h : k.isMalformedProgram = true) :
    k.isRetryable = false := by
  cases k <;> first | rfl | cases h

theorem Error.not_retryable_of_malformed {e : Error} (h : e.isMalformedProgram = true) :
    e.isRetryable = false := by
  rw [e.isRetryable_eq]
  exact Kind.not_retryable h

/-- The error is neither the program's fault nor will more input help. -/
def Error.BlamesCaller (e : Error) : Prop :=
  e.kind = .configInvalid ∨ e.kind = .parseFailed ∨ e.kind = .invalidArgument

theorem Error.BlamesCaller.neither {e : Error} (h : e.BlamesCaller) :
    e.isRetryable = false ∧ e.isMalformedProgram = false := by
  rw [e.isRetryable_eq, isMalformedProgram]
  obtain h | h | h := h <;> rw [h] <;> exact ⟨rfl, rfl⟩

/-! ## Callers that ask for what cannot be -/

theorem Memory.kind_of_checkLimit {limit : Nat} {e : Error} (h : checkLimit limit = .error e) :
    e.kind = .configInvalid := by
  rw [checkLimit] at h
  split at h
  · cases h
    rfl
  · cases h

theorem ProgramText.kind_of_parse {text : String} {e : Error} (h : parse text = .error e) :
    e.kind = .parseFailed := by
  rw [parse] at h
  cases hp : parseChars text.toList with
  | ok words => rw [hp] at h; cases h
  | error bad => rw [hp] at h; cases h; rfl

/-- An error of loading comes from the limit or from the text. -/
theorem ProgramText.load_error_cases {limit : Nat} {text : String} {e : Error}
    (h : load limit text = .error e) :
    Memory.checkLimit limit = .error e ∨ parse text = .error e := by
  rw [load] at h
  cases hl : Memory.checkLimit limit with
  | error e' =>
    rw [hl] at h
    cases h
    exact .inl rfl
  | ok limit' =>
    cases hp : parse text with
    | ok words => rw [hl, hp] at h; cases h
    | error e' =>
      rw [hl, hp] at h
      cases h
      exact .inr rfl

theorem ProgramText.blames_of_load {limit : Nat} {text : String} {e : Error}
    (h : load limit text = .error e) : e.BlamesCaller := by
  obtain hl | hp := load_error_cases h
  · exact .inl (Memory.kind_of_checkLimit hl)
  · exact .inr (.inl (kind_of_parse hp))

namespace Pipeline

theorem kind_of_ofNetwork {net : Network} {topology : Topology} {e : Error}
    (h : ofNetwork net topology = .error e) : e.kind = .invalidArgument := by
  rw [ofNetwork] at h
  split at h
  · cases h
    rfl
  · cases h

theorem kind_of_seed {p : Pipeline} {i : Nat} {word : Word} {e : Error}
    (h : p.seed i word = .error e) : e.kind = .invalidArgument := by
  rw [seed] at h
  split at h
  · cases h
  · cases h
    rfl

theorem kind_of_seedAll {p : Pipeline} {words : List Word} {e : Error}
    (h : p.seedAll words = .error e) : e.kind = .invalidArgument := by
  rw [seedAll] at h
  split at h
  · cases h
  · cases h
    rfl

end Pipeline

/-! ## Machines that starved -/

namespace Machine

/-- The error for a machine that still waits at `pc` after it was given all its input. -/
def starved (pc : Word) (consumed : Nat) : Error :=
  ((Error.inputExhausted pc).within "machine::run_program").noting "consumed"
    (Text.decimal consumed)

/-- What a program comes to whose machine rests like this. -/
def answer : Tapes × Machine × Except Error HaltReason → Except Error (Array Word)
  | (_, _, .error e) => .error e
  | (t, m, .ok .haltInstruction) => .ok (t.values m.output)
  | (_, m, .ok .waitingForInput) => .error (starved m.pc m.cursor)

/-- To run a program is to give it the input and execute it by itself. -/
theorem runProgram_eq (fuel : Nat) (memory : Memory) (input : List Word) :
    runProgram fuel memory input = (solo fuel memory input).map answer := by
  unfold runProgram solo
  generalize (start memory 0).feed {} input = fed
  obtain ⟨t, m⟩ := fed
  dsimp only
  cases execute fuel t m with
  | none => rfl
  | some out =>
    obtain ⟨t', m', e | _ | _⟩ := out <;> rfl

end Machine

/-! ## All that can fail -/

/-- All that can be asked for and can fail. -/
inductive Attempt where
  | checkLimit (limit : Nat)
  | parse (text : String)
  | load (limit : Nat) (text : String)
  | decode (word : Word)
  | execute (tapes : Tapes) (m : Machine)
  | runProgram (memory : Memory) (input : List Word)
  | ofNetwork (network : Network) (topology : Topology)
  | create (memory : Memory) (count : Nat) (topology : Topology)
  | seed (p : Pipeline) (i : Nat) (word : Word)
  | seedAll (p : Pipeline) (words : List Word)
  | run (p : Pipeline)
  | runToHalt (p : Pipeline)

def failure? {α : Type} : Except Error α → Option Error
  | .error e => some e
  | .ok _ => none

theorem failure?_eq_some_iff {α : Type} {r : Except Error α} {e : Error} :
    failure? r = some e ↔ r = .error e := by
  cases r <;> simp [failure?]

namespace Attempt

/-- The error that an attempt ends with, if it ends with one. -/
def error? (fuel : Nat) : Attempt → Option Error
  | checkLimit limit => failure? (Memory.checkLimit limit)
  | parse text => failure? (ProgramText.parse text)
  | load limit text => failure? (ProgramText.load limit text)
  | decode word => failure? ((Instruction.decode word).mapError Fault.error)
  | execute t m => (m.execute fuel t).bind fun out => failure? out.2.2
  | runProgram memory input => (Machine.runProgram fuel memory input).bind failure?
  | ofNetwork net topology => failure? (Pipeline.ofNetwork net topology)
  | create memory count topology => failure? (Pipeline.create memory count topology)
  | seed p i word => failure? (p.seed i word)
  | seedAll p words => failure? (p.seedAll words)
  | run p => (p.run fuel).bind fun out => failure? out.2
  | runToHalt p => (p.runToHalt fuel).bind fun out => failure? out.2

/-- A machine was left waiting for input where the attempt was to go to the end. -/
inductive Starved (fuel : Nat) : Attempt → Prop where
  | runProgram {memory : Memory} {input : List Word} {t : Tapes} {m : Machine} :
      Machine.solo fuel memory input = some (t, m, .ok .waitingForInput) →
      Starved fuel (runProgram memory input)
  | runToHalt {p q : Pipeline} {report : Report} {waiting : List Nat} :
      p.run fuel = some (q, .ok report) → report.outcome = .stalled waiting →
      Starved fuel (runToHalt p)

/-- An instruction with a fault was decoded or carried out, which is reported as the error. -/
inductive Faulted (fuel : Nat) : Attempt → Error → Prop where
  | decode {word : Word} {fault : Fault} :
      Instruction.decode word = .error fault → Faulted fuel (decode word) fault.error
  | execute {t t' : Tapes} {m m' : Machine} {fault : Fault} {pc : Word} :
      Machine.Runs t m t' m' → Machine.step (t', m') = .error fault (t', m'.goto pc) →
      Faulted fuel (execute t m) (fault.errorAt m'.pc)
  | runProgram {memory : Memory} {input : List Word} {e : Error} :
      Faulted fuel (execute {} ((Machine.start memory 0).wire (.owned input.toArray))) e →
      Faulted fuel (runProgram memory input) e
  | run {p : Pipeline} {last mid net : Network} {k : Nat} {n m : Machine} {fault : Fault} :
      ReflTransGen Network.PassesTo p.network last → last.BreaksOff k mid n m fault net →
      Faulted fuel (run p) ((fault.errorAt m.pc).ofMachine k)
  | runToHalt {p : Pipeline} {e : Error} :
      Faulted fuel (run p) e → Faulted fuel (runToHalt p) e

variable {fuel : Nat} {a : Attempt} {e : Error}

theorem Faulted.isMalformedProgram (h : a.Faulted fuel e) : e.isMalformedProgram = true := by
  induction h with
  | @decode _ fault _ => exact fault.isMalformedProgram_error
  | @execute _ _ _ _ fault _ _ _ => exact fault.isMalformedProgram_error
  | runProgram _ ih => exact ih
  | @run _ _ _ _ _ _ m fault _ _ => exact fault.isMalformedProgram_ofMachine ..
  | runToHalt _ ih => exact ih

theorem Starved.isRetryable (h : a.Starved fuel) (he : a.error? fuel = some e) :
    e.isRetryable = true := by
  cases h with
  | @runProgram memory input t m hx =>
    rw [error?, Machine.runProgram_eq, hx] at he
    cases he
    rfl
  | @runToHalt p q report waiting hr ho =>
    simp only [error?, Pipeline.runToHalt, hr, Option.map_some, Option.bind_some, Except.bind, ho,
      failure?_eq_some_iff] at he
    cases he
    rfl

theorem faulted_of_execute {t t' : Tapes} {m m' : Machine}
    (h : m.execute fuel t = some (t', m', .error e)) : Faulted fuel (execute t m) e := by
  obtain ⟨hruns, hfaulty⟩ := Machine.faulty_of_execute h
  obtain ⟨fault, pc, hstep, rfl⟩ := Machine.step_of_faulty hfaulty
  exact .execute hruns hstep

theorem faulted_of_run {p q : Pipeline} (h : p.run fuel = some (q, .error e)) :
    Faulted fuel (run p) e := by
  obtain ⟨last, k, mid, n, m, fault, hlast, -, hb, rfl⟩ := Pipeline.breaks_off_of_run h
  exact .run hlast hb

theorem cause_of_runProgram {memory : Memory} {input : List Word}
    (h : Machine.runProgram fuel memory input = some (.error e)) :
    Starved fuel (runProgram memory input) ∨ Faulted fuel (runProgram memory input) e := by
  rw [Machine.runProgram_eq] at h
  obtain ⟨⟨t, m, r⟩, hx, hr⟩ := Option.map_eq_some_iff.1 h
  cases r with
  | ok reason =>
    cases reason with
    | waitingForInput => exact .inl (.runProgram hx)
    | haltInstruction => cases hr
  | error e' =>
    cases hr
    rw [← input.toList_toArray, Machine.solo_eq] at hx
    exact .inr (.runProgram (faulted_of_execute hx))

theorem cause_of_runToHalt {p q : Pipeline} (h : p.runToHalt fuel = some (q, .error e)) :
    Starved fuel (runToHalt p) ∨ Faulted fuel (runToHalt p) e := by
  obtain ⟨⟨q', r⟩, hrun, hx⟩ := Option.map_eq_some_iff.1 h
  cases r with
  | error e' =>
    cases hx
    exact .inr (.runToHalt (faulted_of_run hrun))
  | ok report =>
    cases ho : report.outcome with
    | halted => simp [Except.bind, ho] at hx
    | stalled waiting => exact .inl (.runToHalt hrun ho)

/-- An error has one of three sources. -/
theorem cause (h : a.error? fuel = some e) :
    e.BlamesCaller ∨ a.Starved fuel ∨ a.Faulted fuel e := by
  cases a with
  | checkLimit limit => exact .inl (.inl (Memory.kind_of_checkLimit (failure?_eq_some_iff.1 h)))
  | parse text => exact .inl (.inr (.inl (ProgramText.kind_of_parse (failure?_eq_some_iff.1 h))))
  | load limit text => exact .inl (ProgramText.blames_of_load (failure?_eq_some_iff.1 h))
  | ofNetwork net topology =>
    exact .inl (.inr (.inr (Pipeline.kind_of_ofNetwork (failure?_eq_some_iff.1 h))))
  | create memory count topology =>
    exact .inl (.inr (.inr (Pipeline.kind_of_ofNetwork (failure?_eq_some_iff.1 h))))
  | seed p i word => exact .inl (.inr (.inr (Pipeline.kind_of_seed (failure?_eq_some_iff.1 h))))
  | seedAll p words =>
    exact .inl (.inr (.inr (Pipeline.kind_of_seedAll (failure?_eq_some_iff.1 h))))
  | decode word =>
    have hd := failure?_eq_some_iff.1 h
    cases hf : Instruction.decode word with
    | ok i => rw [hf] at hd; cases hd
    | error fault =>
      rw [hf] at hd
      cases hd
      exact .inr (.inr (.decode hf))
  | execute t m =>
    obtain ⟨⟨t', m', r⟩, hx, hr⟩ := Option.bind_eq_some_iff.1 h
    cases failure?_eq_some_iff.1 hr
    exact .inr (.inr (faulted_of_execute hx))
  | runProgram memory input =>
    obtain ⟨r, hx, hr⟩ := Option.bind_eq_some_iff.1 h
    cases failure?_eq_some_iff.1 hr
    exact .inr (cause_of_runProgram hx)
  | run p =>
    obtain ⟨⟨q, r⟩, hx, hr⟩ := Option.bind_eq_some_iff.1 h
    cases failure?_eq_some_iff.1 hr
    exact .inr (.inr (faulted_of_run hx))
  | runToHalt p =>
    obtain ⟨⟨q, r⟩, hx, hr⟩ := Option.bind_eq_some_iff.1 h
    cases failure?_eq_some_iff.1 hr
    exact .inr (cause_of_runToHalt hx)

/-- **Retryable means starved, malformed means faulted.** An error is retryable if and only if a
program was run whose machine still waits after all its input, or a pipeline was run to the halt
and stalled; so to wait is no error of an execution or of a run. It blames the program if and only
if an instruction with a fault was decoded or carried out. The status of an error is that of the
kind it was created with, whatever callers add to it. -/
theorem classified_by_cause :
    (∀ (fuel : Nat) (a : Attempt) (e : Error), a.error? fuel = some e →
      (e.isRetryable = true ↔ a.Starved fuel) ∧
      (e.isMalformedProgram = true ↔ a.Faulted fuel e)) ∧
    ∀ (created : Error) (additions : List Addition),
      (additions.foldl Error.add created).status = created.kind.status := by
  refine ⟨fun fuel a e h => ⟨⟨fun hr => ?_, fun hs => hs.isRetryable h⟩,
    ⟨fun hm => ?_, fun hf => hf.isMalformedProgram⟩⟩, fun created additions => ?_⟩
  · obtain hc | hs | hf := cause h
    · rw [hc.neither.1] at hr
      cases hr
    · exact hs
    · rw [Error.not_retryable_of_malformed hf.isMalformedProgram] at hr
      cases hr
  · obtain hc | hs | hf := cause h
    · rw [hc.neither.2] at hm
      cases hm
    · have hr := hs.isRetryable h
      rw [Error.not_retryable_of_malformed hm] at hr
      cases hr
    · exact hf
  · rw [Error.status, Error.kind_foldl_add]

/-- A program that waits for its first word, and a pipeline of one machine without a program. -/
theorem classified_starved_and_faulted :
    let program := runProgram (Memory.ofWords #[3, 9, 99] 9) []
    let pipeline := run
      { network := { tapes := ⟨#[#[]]⟩, machines := [Machine.start (Memory.ofWords #[] 9) 0] }
        topology := .chain }
    (∃ e, program.error? 2 = some e ∧ e.isRetryable = true ∧ program.Starved 2) ∧
      ∃ e, pipeline.error? 2 = some e ∧ e.isMalformedProgram = true ∧ pipeline.Faulted 2 e := by
  constructor
  · exact ⟨_, rfl, rfl, (classified_by_cause.1 2 _ _ rfl).1.1 rfl⟩
  · exact ⟨_, rfl, rfl, (classified_by_cause.1 2 _ _ rfl).2.1 rfl⟩

end Attempt
end Intcode
