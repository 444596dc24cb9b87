import Intcode.Command
import Intcode.Proofs.Agreement
import Intcode.Proofs.Grammar
import Intcode.Proofs.Seeds

/-!
# Intcode.Proofs.Printouts

What the command line prints, and when it prints nothing.

`Request.Fails` and `Request.Prints` say what becomes of a request, from its limit over its file to
its machines, with no regard to what is printed and when. They say nothing of a request that does
not come to an end.

* `manned_of_parse`         : no pipeline without a machine is ever asked for.
* `Request.fails_or_prints` : a request that comes to an end fails, or there is something to print.
* `rendering_printLines`    : words that are printed line by line are a program text.
* `prints_all_or_nothing`   : nothing is printed of what fails, and words are printed to be read.
-/

namespace Intcode

namespace Command

/-! ## Files -/

/-- There is a text in the file, and these are its words. -/
def Holds (contents : Except FileError ByteArray) (words : List Word) : Prop :=
  ∃ bytes text, contents = .ok bytes ∧ String.fromUTF8? bytes = some text ∧
    ProgramText.parse text = .ok words

inductive LoadFails (file : String) : Except FileError ByteArray → Error → Prop where
  | unreadable {e : FileError} : LoadFails file (.error e) (e.error file)
  | notText {bytes : ByteArray} :
      String.fromUTF8? bytes = none → LoadFails file (.ok bytes) (FileError.notText.error file)
  | notWords {bytes : ByteArray} {text : String} {e : Error} :
      String.fromUTF8? bytes = some text → ProgramText.parse text = .error e →
      LoadFails file (.ok bytes) (e.noting "path" file)

variable {limit : Nat} {file : String} {contents : Except FileError ByteArray}

theorem LoadFails.loadFile {e : Error} (hl : limit ≤ Memory.maxLimit)
    (h : LoadFails file contents e) : loadFile limit file contents = .error e := by
  cases h with
  | unreadable => rfl
  | notText hb => simp [Command.loadFile, hb]
  | notWords hb hp =>
    have hlimit : Memory.checkLimit limit = .ok limit := if_neg (Nat.not_lt.2 hl)
    simp [Command.loadFile, hb, ProgramText.load, hlimit, hp, bind, Except.bind, Except.mapError]

theorem Holds.loadFile {words : List Word} (hl : limit ≤ Memory.maxLimit)
    (h : Holds contents words) :
    loadFile limit file contents = .ok (Memory.ofWords words.toArray limit) := by
  obtain ⟨bytes, text, rfl, hb, hp⟩ := h
  have hload := ProgramText.load_eq_ok_iff.2 ⟨hl, words, hp, rfl⟩
  simp [Command.loadFile, hb, hload, Except.mapError]

theorem loads_or_fails (file : String) (contents : Except FileError ByteArray) :
    (∃ e, LoadFails file contents e) ∨ ∃ words, Holds contents words := by
  cases contents with
  | error e => exact .inl ⟨_, .unreadable⟩
  | ok bytes =>
    cases hb : String.fromUTF8? bytes with
    | none => exact .inl ⟨_, .notText hb⟩
    | some text =>
      cases hp : ProgramText.parse text with
      | error e => exact .inl ⟨_, .notWords hb hp⟩
      | ok words => exact .inr ⟨words, bytes, text, rfl, hb, hp⟩

/-! ## Tasks -/

/-- There is a machine for the task. -/
def Task.Manned : Task → Prop
  | .run .. | .list .. => True
  | .pipeline _ seeds .. => seeds ≠ []

/-- A pipeline with a machine for each seed, as it is when all is given to it. -/
def Prepared (memory : Memory) (seeds : List Word) (initial : Word) (topology : Topology)
    (p : Pipeline) : Prop :=
  ∃ p₀ p₁, Pipeline.create memory seeds.length topology = .ok p₀ ∧ p₀.seedAll seeds = .ok p₁ ∧
    p₁.seed 0 initial = .ok p

theorem exists_prepared {seeds : List Word} (h : seeds ≠ []) (memory : Memory) (initial : Word)
    (topology : Topology) : ∃ p, Prepared memory seeds initial topology p := by
  have hpos := List.length_pos_iff.2 h
  obtain ⟨p₀, hp₀⟩ := Pipeline.exists_create memory hpos topology
  have hsize := Pipeline.size_of_create hp₀
  obtain ⟨p₁, hp₁⟩ : ∃ p₁, p₀.seedAll seeds = .ok p₁ :=
    ⟨_, Pipeline.seedAll_eq_ok_iff.2 ⟨hsize.symm, rfl⟩⟩
  have hsize₁ : p₁.size = seeds.length := (Pipeline.seedAll_keeps hp₁).size.trans hsize
  obtain ⟨p, hp⟩ : ∃ p, p₁.seed 0 initial = .ok p :=
    ⟨_, Pipeline.seed_eq_ok_iff.2 ⟨hpos.trans_eq hsize₁.symm, rfl⟩⟩
  exact ⟨p, p₀, p₁, hp₀, hp₁, hp⟩

theorem Prepared.runPipeline {memory : Memory} {seeds : List Word} {initial : Word}
    {topology : Topology} {p : Pipeline} (h : Prepared memory seeds initial topology p)
    (fuel : Nat) :
    runPipeline fuel memory seeds initial topology =
      (p.runToHalt fuel).map fun (q, result) =>
        result.map fun report => { topology, lastOutput := q.lastOutput, report } := by
  obtain ⟨p₀, p₁, hp₀, hp₁, hp⟩ := h
  simp [Command.runPipeline, hp₀, hp₁, hp, bind, Except.bind]

def ringOrChain (chain : Bool) : Topology := if chain then .chain else .ring

/-- The task fails on this memory. A machine may have written something before. -/
inductive Task.Fails (fuel : Nat) (memory : Memory) : Task → Error → Prop where
  | fault {file : String} {inputs : List Word} {pokes : List Poke} {json : Bool} {t : Tapes}
      {m : Machine} {e : Error} :
      Machine.solo fuel (applyPokes memory pokes) inputs = some (t, m, .error e) →
      Fails fuel memory (.run file inputs pokes json) e
  | pipelineFault {file : String} {seeds : List Word} {initial : Word} {chain json : Bool}
      {p q : Pipeline} {e : Error} :
      Prepared memory seeds initial (ringOrChain chain) p → p.run fuel = some (q, .error e) →
      Fails fuel memory (.pipeline file seeds initial chain json) e
  | stall {file : String} {seeds : List Word} {initial : Word} {chain json : Bool}
      {p q : Pipeline} {report : Report} {waiting : List Nat} :
      Prepared memory seeds initial (ringOrChain chain) p → p.run fuel = some (q, .ok report) →
      report.outcome = .stalled waiting →
      Fails fuel memory (.pipeline file seeds initial chain json)
        (((Error.pipelineStalled waiting).within "pipeline::run_to_halt").noting "passes"
          (Text.decimal report.passes))

/-- The task comes to an end on this memory, and this is to be printed. -/
inductive Task.Prints (fuel : Nat) (memory : Memory) : Task → List Char → Prop where
  | ran {file : String} {inputs : List Word} {pokes : List Poke} {json : Bool} {t : Tapes}
      {m : Machine} {reason : HaltReason} :
      Machine.solo fuel (applyPokes memory pokes) inputs = some (t, m, .ok reason) →
      Prints fuel memory (.run file inputs pokes json)
        (RunReport.print ⟨reason, (t.values m.output).toList, m.pc, m.steps⟩ json)
  | listed {file : String} {start : Address} :
      Prints fuel memory (.list file start)
        (printLines ((Listing.sweep memory start).map Line.chars))
  | halted {file : String} {seeds : List Word} {initial : Word} {chain json : Bool}
      {p q : Pipeline} {report : Report} :
      Prepared memory seeds initial (ringOrChain chain) p → p.run fuel = some (q, .ok report) →
      report.outcome = .halted →
      Prints fuel memory (.pipeline file seeds initial chain json)
        (Summary.print ⟨ringOrChain chain, q.lastOutput, report⟩ json)

variable {fuel : Nat} {memory : Memory} {task : Task}

theorem performOn_run (file : String) (inputs : List Word) (pokes : List Poke) (json : Bool) :
    (Task.run file inputs pokes json).performOn fuel memory =
      (Machine.solo fuel (applyPokes memory pokes) inputs).map fun out =>
        (report out).map (·.print json) := by
  rw [Task.performOn, runMemory_eq, Option.map_map]
  rfl

theorem performOn_pipeline {file : String} {seeds : List Word} {initial : Word}
    {chain json : Bool} {p : Pipeline}
    (h : Prepared memory seeds initial (ringOrChain chain) p) :
    (Task.pipeline file seeds initial chain json).performOn fuel memory =
      (p.runToHalt fuel).map fun (q, result) =>
        result.map fun report => Summary.print ⟨ringOrChain chain, q.lastOutput, report⟩ json := by
  rw [Task.performOn, ← ringOrChain, h.runPipeline, Option.map_map]
  congr 1
  funext ⟨q, result⟩
  cases result <;> rfl

theorem Task.Fails.performOn {e : Error} (h : task.Fails fuel memory e) :
    task.performOn fuel memory = some (.error e) := by
  cases h with
  | fault hx =>
    rw [performOn_run, hx]
    rfl
  | pipelineFault hp hr =>
    rw [performOn_pipeline hp, Pipeline.runToHalt, hr]
    rfl
  | stall hp hr ho =>
    rw [performOn_pipeline hp]
    simp [Pipeline.runToHalt, hr, Except.bind, ho, Except.map]

theorem Task.Prints.performOn {text : List Char} (h : task.Prints fuel memory text) :
    task.performOn fuel memory = some (.ok text) := by
  cases h with
  | ran hx =>
    rw [performOn_run, hx]
    rfl
  | listed => rfl
  | halted hp hr ho =>
    rw [performOn_pipeline hp]
    simp [Pipeline.runToHalt, hr, Except.bind, ho, Except.map]

/-- A task that comes to an end fails or has something to print. -/
theorem Task.fails_or_prints {result : Except Error (List Char)} (hm : task.Manned)
    (h : task.performOn fuel memory = some result) :
    (∃ e, task.Fails fuel memory e) ∨ ∃ text, task.Prints fuel memory text := by
  cases task with
  | run file inputs pokes json =>
    rw [performOn_run] at h
    obtain ⟨⟨t, m, e | reason⟩, hx, -⟩ := Option.map_eq_some_iff.1 h
    · exact .inl ⟨e, .fault hx⟩
    · exact .inr ⟨_, .ran hx⟩
  | list file start => exact .inr ⟨_, .listed⟩
  | pipeline file seeds initial chain json =>
    obtain ⟨p, hp⟩ := exists_prepared hm memory initial (ringOrChain chain)
    rw [performOn_pipeline hp, Pipeline.runToHalt, Option.map_map] at h
    obtain ⟨⟨q, e | report⟩, hr, -⟩ := Option.map_eq_some_iff.1 h
    · exact .inl ⟨e, .pipelineFault hp hr⟩
    · cases ho : report.outcome with
      | halted => exact .inr ⟨_, .halted hp hr ho⟩
      | stalled waiting => exact .inl ⟨_, .stall hp hr ho⟩

/-! ## Requests -/

inductive Request.Fails (fuel : Nat) (files : String → Except FileError ByteArray)
    (r : Request) : Error → Prop where
  | denseLimit {e : Error} : Memory.checkLimit r.denseLimit = .error e → Fails fuel files r e
  | load {e : Error} :
      r.denseLimit ≤ Memory.maxLimit → LoadFails r.task.file (files r.task.file) e →
      Fails fuel files r e
  | task {words : List Word} {e : Error} :
      r.denseLimit ≤ Memory.maxLimit → Holds (files r.task.file) words →
      r.task.Fails fuel (Memory.ofWords words.toArray r.denseLimit) e → Fails fuel files r e

inductive Request.Prints (fuel : Nat) (files : String → Except FileError ByteArray)
    (r : Request) : List Char → Prop where
  | task {words : List Word} {text : List Char} :
      r.denseLimit ≤ Memory.maxLimit → Holds (files r.task.file) words →
      r.task.Prints fuel (Memory.ofWords words.toArray r.denseLimit) text →
      Prints fuel files r text

variable {files : String → Except FileError ByteArray} {r : Request}

def Response.ofResult : Except Error (List Char) → Response
  | .ok text => { exit := 0, stdout := String.ofList text }
  | .error e => failed 1 e

theorem perform_of_le (hl : r.denseLimit ≤ Memory.maxLimit) :
    r.perform fuel files =
      (r.task.perform fuel r.denseLimit (files r.task.file)).map Response.ofResult := by
  have hlimit : Memory.checkLimit r.denseLimit = .ok r.denseLimit := if_neg (Nat.not_lt.2 hl)
  rw [Request.perform, hlimit]
  exact Option.map_congr fun result _ => by cases result <;> rfl

theorem Request.Fails.perform {e : Error} (h : r.Fails fuel files e) :
    ∃ exit, exit ≠ 0 ∧ r.perform fuel files = some (failed exit e) := by
  cases h with
  | denseLimit hl =>
    refine ⟨2, by decide, ?_⟩
    rw [Request.perform, hl]
  | load hl hf =>
    refine ⟨1, by decide, ?_⟩
    rw [perform_of_le hl, Task.perform, hf.loadFile hl]
    rfl
  | task hl hw hf =>
    refine ⟨1, by decide, ?_⟩
    rw [perform_of_le hl, Task.perform, hw.loadFile hl]
    simp [hf.performOn, Response.ofResult]

theorem Request.Prints.perform {text : List Char} (h : r.Prints fuel files text) :
    r.perform fuel files = some { exit := 0, stdout := String.ofList text } := by
  obtain ⟨hl, hw, hp⟩ := h
  rw [perform_of_le hl, Task.perform, hw.loadFile hl]
  simp [hp.performOn, Response.ofResult]

theorem Request.fails_or_prints {response : Response} (hm : r.task.Manned)
    (h : r.perform fuel files = some response) :
    (∃ e, r.Fails fuel files e) ∨ ∃ text, r.Prints fuel files text := by
  by_cases hl : r.denseLimit ≤ Memory.maxLimit
  · obtain ⟨e, hf⟩ | ⟨words, hw⟩ := loads_or_fails r.task.file (files r.task.file)
    · exact .inl ⟨e, .load hl hf⟩
    · rw [perform_of_le hl, Task.perform, hw.loadFile hl] at h
      obtain ⟨result, hr, -⟩ := Option.map_eq_some_iff.1 h
      obtain ⟨e, hf⟩ | ⟨text, hp⟩ := Task.fails_or_prints hm hr
      · exact .inl ⟨e, .task hl hw hf⟩
      · exact .inr ⟨text, .task hl hw hp⟩
  · exact .inl ⟨_, .denseLimit (if_pos (Nat.lt_of_not_le hl))⟩

/-! ## Command lines -/

theorem manned_of_task? {v : Verb} {s : Settings} (h : v.task? s = .ok task) : task.Manned := by
  unfold Verb.task? at h
  split at h
  · cases h
    trivial
  · cases h
    trivial
  · split at h
    · cases h
    · next hs =>
      cases h
      intro hnil
      simp [hnil] at hs
  · cases h

theorem manned_of_read {v : Verb} {words : List (List Char)} {s : Settings}
    (h : v.read words = .ok (task, s)) : task.Manned := by
  obtain ⟨⟨scan, found⟩, -, h⟩ := Machine.bind_eq_ok_iff.1 h
  obtain ⟨settings, -, h⟩ := Machine.bind_eq_ok_iff.1 h
  obtain ⟨task', ht, h⟩ := Machine.bind_eq_ok_iff.1 h
  cases h
  exact manned_of_task? ht

theorem manned_of_parse {words : List (List Char)} (h : Request.parse words = .ok r) :
    r.task.Manned := by
  obtain ⟨⟨outer, found⟩, -, h⟩ := Machine.bind_eq_ok_iff.1 h
  cases found with
  | none =>
    obtain ⟨settings, -, h⟩ := Machine.bind_eq_ok_iff.1 h
    cases h
  | some found =>
    obtain ⟨verb | _, rest⟩ := found
    · cases h
    · obtain ⟨⟨task, inner⟩, hread, h⟩ := Machine.bind_eq_ok_iff.1 h
      obtain ⟨settings, -, h⟩ := Machine.bind_eq_ok_iff.1 h
      cases h
      exact manned_of_read hread

/-! ## Words -/

open ProgramText Text

/-- Words that are printed line by line are a program text of these words. -/
theorem rendering_printLines (ws : List Word) :
    Rendering (printLines (ws.map fun w => decimalChars w.toInt)) ws := by
  induction ws with
  | nil => exact .last (.blank blanks_nil)
  | cons w ws ih =>
    have hentry := Entry.mk blanks_nil (spells_decimalChars w.toInt) blanks_nil
    rw [List.nil_append, List.append_nil] at hentry
    have hlines : printLines ((w :: ws).map fun w => decimalChars w.toInt) =
        decimalChars w.toInt ++ '\n' :: printLines (ws.map fun w => decimalChars w.toInt) := by
      simp [printLines]
    rw [hlines]
    exact .lineFeed (.words (.one hentry)) ih

theorem parse_printLines (ws : List Word) :
    parse (String.ofList (printLines (ws.map fun w => decimalChars w.toInt))) = .ok ws := by
  have hread : readTokens 0 (tokens (printLines (ws.map fun w => decimalChars w.toInt))) = .ok ws :=
    readTokens_eq_ok_iff.2 (rendering_printLines ws).tokens
  rw [parse, parseChars, String.toList_ofList, hread]
  rfl

/-- **All is printed or nothing, and words are printed to be read.** If an accepted request fails,
wherever that is, standard output is empty and the exit code is not zero. If it comes to an end in
any other way, the exit code is zero; there is no third case. The output of a machine that was run,
and that halted or waits, is printed as a program text of the words on its tape. -/
theorem prints_all_or_nothing {words : List String} {r : Request}
    (h : Request.parse (words.map String.toList) = .ok r) (fuel : Nat)
    (files : String → Except FileError ByteArray) :
    (∀ e, r.Fails fuel files e →
      ∃ response, respond fuel words files = some response ∧
        response.stdout = "" ∧ response.exit ≠ 0) ∧
    (∀ text, r.Prints fuel files text →
      ∃ response, respond fuel words files = some response ∧
        response.stdout = String.ofList text ∧ response.exit = 0) ∧
    (∀ response, respond fuel words files = some response →
      (∃ e, r.Fails fuel files e) ∨ ∃ text, r.Prints fuel files text) ∧
    (∀ file inputs pokes program t m reason, r.task = .run file inputs pokes false →
      r.denseLimit ≤ Memory.maxLimit → Holds (files file) program →
      Machine.solo fuel (applyPokes (Memory.ofWords program.toArray r.denseLimit) pokes) inputs =
        some (t, m, .ok reason) →
      ∃ response, respond fuel words files = some response ∧ response.exit = 0 ∧
        parse response.stdout = .ok (t.values m.output).toList) := by
  have hrespond : respond fuel words files = r.perform fuel files := by
    rw [respond, h]
  rw [hrespond]
  refine ⟨fun e hf => ?_, fun text hp => ⟨_, hp.perform, rfl, rfl⟩,
    fun response hr => Request.fails_or_prints (manned_of_parse h) hr, ?_⟩
  · obtain ⟨exit, hexit, hr⟩ := hf.perform
    exact ⟨_, hr, rfl, hexit⟩
  · intro file inputs pokes program t m reason ht hl hw hx
    have hprints : r.Prints fuel files
        (RunReport.print ⟨reason, (t.values m.output).toList, m.pc, m.steps⟩ false) := by
      refine .task hl (by rwa [ht]) ?_
      rw [ht]
      exact .ran hx
    exact ⟨_, hprints.perform, rfl, parse_printLines _⟩

/-- A program that emits the lowest and the highest word and then waits, and one that emits a word
in front of a fault. -/
def twoFiles (path : String) : Except FileError ByteArray :=
  if path = "waits" then .ok "104,-9223372036854775808,104,9223372036854775807,3,0".toUTF8
  else .ok "104,5,42".toUTF8

theorem prints_all_or_nothing_emitted :
    Request.parse (["run", "waits"].map String.toList) =
        .ok ⟨.run "waits" [] [] false, 65536⟩ ∧
      Request.parse (["run", "faults"].map String.toList) =
        .ok ⟨.run "faults" [] [] false, 65536⟩ ∧
      (∃ response, respond 9 ["run", "waits"] twoFiles = some response ∧ response.exit = 0 ∧
        parse response.stdout = .ok [-9223372036854775808, 9223372036854775807]) ∧
      ∃ response, respond 9 ["run", "faults"] twoFiles = some response ∧ response.stdout = "" ∧
        response.exit ≠ 0 := by
  have hwaits : Request.parse (["run", "waits"].map String.toList) =
      .ok ⟨.run "waits" [] [] false, 65536⟩ := rfl
  have hfaults : Request.parse (["run", "faults"].map String.toList) =
      .ok ⟨.run "faults" [] [] false, 65536⟩ := rfl
  refine ⟨hwaits, hfaults, ?_, ?_⟩
  · have hholds : Holds (twoFiles "waits")
        [104, -9223372036854775808, 104, 9223372036854775807, 3, 0] := ⟨_, _, rfl, rfl, rfl⟩
    exact (prints_all_or_nothing hwaits 9 twoFiles).2.2.2 "waits" [] [] _ _ _ _
      rfl (by decide) hholds rfl
  · have hholds : Holds (twoFiles "faults") [104, 5, 42] := ⟨_, _, rfl, rfl, rfl⟩
    have hfails : Request.Fails 9 twoFiles ⟨.run "faults" [] [] false, 65536⟩
        ((Fault.unknownOpcode 42).errorAt 2) :=
      .task (by decide) hholds (.fault rfl)
    exact (prints_all_or_nothing hfaults 9 twoFiles).1 _ hfails

end Command
end Intcode
