import Intcode.Command.Task
import Intcode.Proofs.Numerals
import Intcode.Proofs.Provenance

/-!
# Intcode.Proofs.Agreement

Two ways to run a program. `Machine.runProgram` gives what the program wrote, and takes it for an
error if the machine waits for more input. The command line reports how the machine came to rest,
whatever the reason. Both execute one machine by itself, on memories that hold the same words; how
these are laid out does not matter.

* `Machine.solo_congr` : what a machine does by itself depends on what the addresses hold.
* `Command.Agree`      : a report tells what the program gave, and the other way round.
* `run_file_agrees`    : a program file is run in both ways to the same end.
-/

namespace Intcode

theorem Word.text_inj {v w : Word} : v.text = w.text ↔ v = w := by
  constructor
  · intro h
    exact Text.decimalChars_inj (String.ofList_injective h)
  · rintro rfl
    rfl

namespace ProgramText

theorem load_eq_ok_iff {limit : Nat} {text : String} {memory : Memory} :
    load limit text = .ok memory ↔
      limit ≤ Memory.maxLimit ∧
        ∃ words, parse text = .ok words ∧ Memory.ofWords words.toArray limit = memory := by
  unfold load Memory.checkLimit
  by_cases hlimit : limit ≤ Memory.maxLimit
  · rw [if_neg (Nat.not_lt.2 hlimit)]
    cases hp : parse text with
    | error e => simp [Bind.bind, Except.bind]
    | ok words => simp [Bind.bind, Except.bind, Pure.pure, Except.pure, hlimit]
  · rw [if_pos (Nat.lt_of_not_le hlimit)]
    simp [Bind.bind, Except.bind, hlimit]

end ProgramText

/-! ## What a machine does by itself -/

namespace Machine

variable {fuel : Nat} {memory memory' : Memory} {words : List Word} {t : Tapes} {m : Machine}

theorem solo_congr {r : Except Error HaltReason} (h : ∀ a, memory'.get a = memory.get a)
    (hx : solo fuel memory words = some (t, m, r)) :
    ∃ t' m', solo fuel memory' words = some (t', m', r) ∧
      t'.values m'.output = t.values m.output ∧ m'.pc = m.pc ∧ m'.cursor = m.cursor := by
  rw [← words.toList_toArray, solo_eq] at hx ⊢
  have ha : Alike {} ((start memory 0).wire (.owned words.toArray))
      {} ((start memory' 0).wire (.owned words.toArray)) := ⟨rfl, rfl, rfl, h, fun _ => rfl⟩
  obtain ⟨history, t', m', hx', hd, hd', ha'⟩ := ha.execute (by simp [wire]) (by simp [wire]) hx
  refine ⟨t', m', hx', ?_, ha'.pc, hd'.cursor.trans hd.cursor.symm⟩
  rw [hd.output, hd'.output]
  exact hd'.emitted.trans hd.emitted.symm

/-- A machine that waits has read all its input. -/
theorem cursor_of_solo (hx : solo fuel memory words = some (t, m, .ok .waitingForInput)) :
    m.cursor = words.length := by
  rw [← words.toList_toArray, solo_eq] at hx
  obtain ⟨history, hd⟩ := exists_did hx
  have hinput : m.input t = words.toArray := by
    rw [input, hd.source]
    rfl
  obtain ⟨history', he⟩ := exists_executes_iff.1 ⟨fuel, hx⟩
  have hle : m.cursor ≤ (m.input t).size := he.reads.cursor_le (Nat.zero_le _)
  have hwaits : m.restReason = .waitingForInput :=
    (reason_of_rests (rests_of_execute hx) rfl).symm
  have hpending : m.pending t = 0 :=
    ((at_rest_of_rests (rests_of_execute hx) rfl).waits (restReason_eq_waiting_iff.1 hwaits)).2
  rw [pending] at hpending
  rw [hinput, List.size_toArray] at hle hpending
  omega

theorem isMalformedProgram_of_solo {e : Error}
    (hx : solo fuel memory words = some (t, m, .error e)) :
    e.isMalformedProgram = true :=
  (Attempt.faulted_of_execute hx).isMalformedProgram

end Machine

namespace Command

/-! ## What is known of the rest -/

/-- What is reported of a machine that rests like this. -/
def report : Tapes × Machine × Except Error HaltReason → Except Error RunReport
  | (t, m, result) => result.map fun halt =>
    { halt, output := (t.values m.output).toList, pc := m.pc, steps := m.steps }

theorem runMemory_eq (fuel : Nat) (memory : Memory) (inputs : List Word) :
    runMemory fuel memory inputs = (Machine.solo fuel memory inputs).map report := by
  unfold runMemory Machine.solo
  generalize (Machine.start memory 0).feed {} inputs = fed
  obtain ⟨t, m⟩ := fed
  dsimp only
  cases Machine.execute fuel t m with
  | none => rfl
  | some out => rfl

/-- A report of the command line and an answer of `runProgram` to `consumed` inputs say the same:
the program halted and wrote these words, or it read all inputs and waits at this place, or it came
to this fault. -/
structure Agree (consumed : Nat) (run : Option (Except Error RunReport))
    (answer : Option (Except Error (Array Word))) : Prop where
  ends : run.isSome = answer.isSome
  halts : ∀ out,
    (∃ r, run = some (.ok r) ∧ r.halt = .haltInstruction ∧ r.output = out.toList) ↔
      answer = some (.ok out)
  waits : ∀ pc,
    (∃ r, run = some (.ok r) ∧ r.halt = .waitingForInput ∧ r.pc = pc) ↔
      ∃ e, answer = some (.error e) ∧ e.kind = .inputExhausted ∧ e.value? "pc" = some pc.text ∧
        e.value? "consumed" = some (Text.decimal consumed)
  faults : ∀ e,
    run = some (.error e) ↔ answer = some (.error e) ∧ e.isMalformedProgram = true

@[simp] theorem kind_starved (pc : Word) (consumed : Nat) :
    (Machine.starved pc consumed).kind = .inputExhausted := rfl

@[simp] theorem pc_starved (pc : Word) (consumed : Nat) :
    (Machine.starved pc consumed).value? "pc" = some pc.text := rfl

@[simp] theorem consumed_starved (pc : Word) (consumed : Nat) :
    (Machine.starved pc consumed).value? "consumed" = some (Text.decimal consumed) := rfl

namespace Agree

variable {consumed : Nat} {t t' : Tapes} {m m' : Machine}

theorem none : Agree consumed none none := by
  constructor <;> simp

theorem halted (hv : t'.values m'.output = t.values m.output) :
    Agree consumed (some (report (t, m, .ok .haltInstruction)))
      (some (Machine.answer (t', m', .ok .haltInstruction))) := by
  constructor
  · rfl
  · intro out
    simp [report, Machine.answer, Except.map, hv]
  · intro pc
    simp [report, Machine.answer, Except.map]
  · intro e
    simp [report, Machine.answer, Except.map]

theorem waiting (hpc : m'.pc = m.pc) (hc : m'.cursor = consumed) :
    Agree consumed (some (report (t, m, .ok .waitingForInput)))
      (some (Machine.answer (t', m', .ok .waitingForInput))) := by
  constructor
  · rfl
  · intro out
    simp [report, Machine.answer, Except.map]
  · intro pc
    simp [report, Machine.answer, Except.map, hpc, hc, Word.text_inj]
  · intro e
    simp only [report, Machine.answer, Except.map, Option.some.injEq, Except.error.injEq,
      reduceCtorEq, false_iff, not_and]
    rintro rfl
    simp [Error.isMalformedProgram, Error.Kind.isMalformedProgram]

theorem fault {e : Error} (he : e.isMalformedProgram = true) :
    Agree consumed (some (report (t, m, .error e))) (some (Machine.answer (t', m', .error e))) := by
  constructor
  · rfl
  · intro out
    simp [report, Machine.answer, Except.map]
  · intro pc
    simp only [report, Machine.answer, Except.map, Option.some.injEq, reduceCtorEq, false_and,
      exists_false, Except.error.injEq, exists_eq_left', false_iff, not_and]
    intro hk
    simp [Error.isMalformedProgram, hk, Error.Kind.isMalformedProgram] at he
  · intro e'
    simp only [report, Machine.answer, Except.map, Option.some.injEq, Except.error.injEq,
      iff_self_and]
    rintro rfl
    exact he

end Agree

/-- On memories that hold the same words, the reports and the answers agree. -/
theorem agree_of_cells {memory memory' : Memory} (h : ∀ a, memory'.get a = memory.get a)
    (fuel : Nat) (inputs : List Word) :
    Agree inputs.length (runMemory fuel memory inputs)
      (Machine.runProgram fuel memory' inputs) := by
  rw [runMemory_eq, Machine.runProgram_eq]
  cases hx : Machine.solo fuel memory inputs with
  | none =>
    have hx' : Machine.solo fuel memory' inputs = .none := by
      rw [← Option.not_isSome_iff_eq_none, Option.isSome_iff_exists]
      rintro ⟨⟨t', m', r⟩, hx'⟩
      obtain ⟨t, m, hm, -⟩ := Machine.solo_congr (fun a => (h a).symm) hx'
      rw [hx] at hm
      cases hm
    rw [hx']
    exact .none
  | some out =>
    obtain ⟨t, m, r⟩ := out
    obtain ⟨t', m', hx', hv, hpc, hcursor⟩ := Machine.solo_congr h hx
    rw [hx']
    cases r with
    | error e => exact .fault (Machine.isMalformedProgram_of_solo hx)
    | ok reason =>
      cases reason with
      | haltInstruction => exact .halted hv
      | waitingForInput => exact .waiting hpc (hcursor.trans (Machine.cursor_of_solo hx))

/-! ## Programs in files -/

/-- Runs the program in a file on a patched memory until its machine rests. -/
def runFile (fuel limit : Nat) (file : String) (contents : Except FileError ByteArray)
    (inputs : List Word) (pokes : List Poke) : Option (Except Error RunReport) :=
  match loadFile limit file contents with
  | .error e => some (.error e)
  | .ok memory => runMemory fuel (applyPokes memory pokes) inputs

theorem perform_run (fuel limit : Nat) (file : String) (contents : Except FileError ByteArray)
    (inputs : List Word) (pokes : List Poke) (json : Bool) :
    (Task.run file inputs pokes json).perform fuel limit contents =
      (runFile fuel limit file contents inputs pokes).map fun r => r.map (·.print json) := by
  unfold runFile
  rw [Task.perform, Task.file]
  cases loadFile limit file contents <;> rfl

theorem get_applyPokes {memory memory' : Memory} (h : ∀ a, memory'.get a = memory.get a)
    (pokes : List Poke) (a : Address) :
    (applyPokes memory' pokes).get a = (applyPokes memory pokes).get a := by
  unfold applyPokes
  induction pokes generalizing memory memory' with
  | nil => exact h a
  | cons poke rest ih =>
    refine ih fun b => ?_
    simp only [Memory.get_set, h]

/-- **Both ways to run a program agree.** A text that can be loaded is run from a file with one
limit, and its words are run with another one, after the same patches and on the same inputs. Then
the command line reports that the program halted with its output just when this is the answer; it
reports where the machine waits just when the answer is the error that says so, after all inputs;
and it fails with the error of an instruction just when this is the answer. -/
theorem run_file_agrees {limit limit' : Nat} {bytes : ByteArray} {text : String} {memory : Memory}
    (hbytes : String.fromUTF8? bytes = some text) (hlimit : limit ≤ Memory.maxLimit)
    (hload : ProgramText.load limit' text = .ok memory) (fuel : Nat) (file : String)
    (inputs : List Word) (pokes : List Poke) :
    (∀ json, (Task.run file inputs pokes json).perform fuel limit (.ok bytes) =
      (runFile fuel limit file (.ok bytes) inputs pokes).map fun r => r.map (·.print json)) ∧
    Agree inputs.length (runFile fuel limit file (.ok bytes) inputs pokes)
      (Machine.runProgram fuel (applyPokes memory pokes) inputs) := by
  obtain ⟨-, words, hwords, rfl⟩ := ProgramText.load_eq_ok_iff.1 hload
  have hfile : loadFile limit file (.ok bytes) = .ok (Memory.ofWords words.toArray limit) := by
    have hloaded := ProgramText.load_eq_ok_iff.2 ⟨hlimit, words, hwords, rfl⟩
    simp [loadFile, hbytes, hloaded, Except.mapError]
  refine ⟨fun json => perform_run .., ?_⟩
  rw [runFile, hfile]
  refine agree_of_cells (fun a => ?_) fuel inputs
  refine get_applyPokes (fun b => ?_) pokes a
  rw [Memory.get_ofWords, Memory.get_ofWords]

/-- A program that copies one word, with its input, without, and patched so that it does not halt.
The file is run with all cells behind the program kept one by one. -/
theorem run_file_agrees_copy :
    let bytes := "3,5,4,5,99".toUTF8
    String.fromUTF8? bytes = some "3,5,4,5,99" ∧ 0 ≤ Memory.maxLimit ∧
      ProgramText.load 9 "3,5,4,5,99" = .ok (Memory.ofWords #[3, 5, 4, 5, 99] 9) ∧
      (∃ r, runFile 9 0 "copy" (.ok bytes) [7] [] = some (.ok r) ∧
        r.halt = .haltInstruction ∧ r.output = [7]) ∧
      (∃ r, runFile 9 0 "copy" (.ok bytes) [] [] = some (.ok r) ∧
        r.halt = .waitingForInput ∧ r.pc = 0) ∧
      runFile 9 0 "copy" (.ok bytes) [7] [⟨4, 42⟩] =
        some (.error ((Fault.unknownOpcode 42).errorAt 4)) := by
  have hbytes : String.fromUTF8? "3,5,4,5,99".toUTF8 = some "3,5,4,5,99" := rfl
  have hlimit : 0 ≤ Memory.maxLimit := Nat.zero_le _
  have hload : ProgramText.load 9 "3,5,4,5,99" =
      .ok (Memory.ofWords #[3, 5, 4, 5, 99] 9) := rfl
  have agree := run_file_agrees hbytes hlimit hload 9 "copy"
  refine ⟨hbytes, hlimit, hload, ?_, ?_, ?_⟩
  · exact ((agree [7] []).2.halts #[7]).2 rfl
  · exact ((agree [] []).2.waits 0).2 ⟨_, rfl, rfl, rfl, rfl⟩
  · exact ((agree [7] [⟨4, 42⟩]).2.faults _).2 ⟨rfl, rfl⟩

end Command
end Intcode
