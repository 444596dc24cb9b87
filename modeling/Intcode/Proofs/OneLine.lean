import Intcode.Proofs.Provenance
import Intcode.Proofs.Tokens

/-!
# Intcode.Proofs.OneLine

Errors are displayed on one line.

What an error tells is put together from fixed texts and from numerals, which have no line feed, but
for the token of a program text that is no word. That one can hold anything else, carriage returns
included; line feeds it cannot hold, since a text is cut at them before it is cut at commas. What
callers add on the way has none either.

* `Error.OneLine`         : nothing that is displayed of the error has a line feed.
* `Error.Shown`           : the text shows the error, part by part.
* `lineFeed_not_mem_of_mem_tokens` : neither has a token of a text.
* `displayed_on_one_line` : an error that anything ends with is shown on one line.
-/

namespace Intcode

namespace Text

def OneLine (s : String) : Prop := '\n' ∉ s.toList

@[simp] theorem lineFeed_not_mem_decimal (z : Int) : '\n' ∉ (decimal z).toList := by
  rw [decimal, String.toList_ofList]
  exact (spells_decimalChars z).not_mem (by decide)

@[simp] theorem lineFeed_not_mem_text (w : Word) : '\n' ∉ w.text.toList :=
  lineFeed_not_mem_decimal w.toInt

theorem oneLine_intercalate {separator : String} {parts : List String} (hs : OneLine separator)
    (hp : ∀ part ∈ parts, OneLine part) : OneLine (separator.intercalate parts) := by
  induction parts with
  | nil => simp [OneLine]
  | cons part parts ih =>
    rw [List.forall_mem_cons] at hp
    cases parts with
    | nil => rw [String.intercalate_singleton]; exact hp.1
    | cons next parts =>
      rw [OneLine, String.intercalate_cons_cons, String.toList_append, String.toList_append,
        List.mem_append, List.mem_append]
      rintro ((h | h) | h)
      · exact hp.1 h
      · exact hs h
      · exact ih hp.2 h

end Text

open Text

/-! ## What is shown of an error -/

namespace Error

/-- Nothing that is displayed of the error has a line feed. -/
structure OneLine (e : Error) : Prop where
  message : Text.OneLine e.message
  trail : ∀ operation ∈ e.trail, Text.OneLine operation
  context : ∀ pair ∈ e.context, Text.OneLine pair.1 ∧ Text.OneLine pair.2

theorem OneLine.within {e : Error} (h : e.OneLine) {operation : String}
    (ho : Text.OneLine operation) : (e.within operation).OneLine :=
  { h with trail := List.forall_mem_append.2 ⟨h.trail, by simpa using ho⟩ }

theorem OneLine.noting {e : Error} (h : e.OneLine) {key value : String} (hk : Text.OneLine key)
    (hv : Text.OneLine value) : (e.noting key value).OneLine :=
  { h with context := List.forall_mem_append.2 ⟨h.context, by simpa using ⟨hk, hv⟩⟩ }

theorem OneLine.causedBy {e : Error} (h : e.OneLine) (source : String) :
    (e.causedBy source).OneLine :=
  { h with }

/-- What stands in front of the kind: the operation that the trail ends with. -/
inductive Heading : List String → String → Prop where
  | missing : Heading [] ""
  | last (before : List String) (operation : String) :
      Heading (before ++ [operation]) (operation ++ ": ")

/-- What stands behind the kind: the message. -/
inductive Remark : String → String → Prop where
  | missing : Remark "" ""
  | present {message : String} : message ≠ "" → Remark message (": " ++ message)

/-- The pairs in order, with a blank between each two. -/
inductive Row : List (String × String) → String → Prop where
  | one (key value : String) : Row [(key, value)] (key ++ "=" ++ value)
  | more (key value : String) {pairs : List (String × String)} {s : String} :
      Row pairs s → Row ((key, value) :: pairs) (key ++ "=" ++ value ++ " " ++ s)

/-- What stands behind the message: the pairs in brackets. -/
inductive Facts : List (String × String) → String → Prop where
  | missing : Facts [] ""
  | present {pairs : List (String × String)} {s : String} :
      Row pairs s → Facts pairs (" [" ++ s ++ "]")

/-- The text shows the error. -/
inductive Shown (e : Error) : String → Prop where
  | parts {heading remark facts : String} :
      Heading e.trail heading → Remark e.message remark → Facts e.context facts →
      Shown e (heading ++ e.kind.name ++ remark ++ facts ++ " (" ++ e.status.word ++ ")")

theorem Heading.eq {trail : List String} {s : String} (h : Heading trail s) :
    s = if trail.isEmpty then "" else trail.getLastD "" ++ ": " := by
  cases h with
  | missing => rfl
  | last before operation => simp

theorem exists_heading (trail : List String) : ∃ s, Heading trail s := by
  by_cases ht : trail = []
  · subst ht
    exact ⟨_, .missing⟩
  · rw [← List.dropLast_concat_getLast ht]
    exact ⟨_, .last _ _⟩

theorem Remark.eq {message s : String} (h : Remark message s) :
    s = if message.isEmpty then "" else ": " ++ message := by
  cases h with
  | missing => rfl
  | present hne => simp [hne]

theorem exists_remark (message : String) : ∃ s, Remark message s := by
  by_cases hm : message = ""
  · subst hm
    exact ⟨_, .missing⟩
  · exact ⟨_, .present hm⟩

theorem Row.eq {pairs : List (String × String)} {s : String} (h : Row pairs s) :
    pairs ≠ [] ∧ s = " ".intercalate (pairs.map fun (key, value) => key ++ "=" ++ value) := by
  induction h with
  | one key value => simp
  | @more key value pairs s _ ih =>
    obtain ⟨hne, rfl⟩ := ih
    obtain ⟨pair, pairs, rfl⟩ := List.exists_cons_of_ne_nil hne
    exact ⟨by simp, String.intercalate_cons_cons.symm⟩

theorem exists_row {pairs : List (String × String)} (h : pairs ≠ []) : ∃ s, Row pairs s := by
  induction pairs with
  | nil => exact absurd rfl h
  | cons pair pairs ih =>
    by_cases hp : pairs = []
    · subst hp
      exact ⟨_, .one pair.1 pair.2⟩
    · obtain ⟨s, hs⟩ := ih hp
      exact ⟨_, .more pair.1 pair.2 hs⟩

theorem Facts.eq {pairs : List (String × String)} {s : String} (h : Facts pairs s) :
    s = if pairs.isEmpty then ""
      else " [" ++ " ".intercalate (pairs.map fun (key, value) => key ++ "=" ++ value) ++ "]" := by
  cases h with
  | missing => rfl
  | present hr =>
    obtain ⟨hne, rfl⟩ := hr.eq
    simp [hne]

theorem exists_facts (pairs : List (String × String)) : ∃ s, Facts pairs s := by
  by_cases hp : pairs = []
  · subst hp
    exact ⟨_, .missing⟩
  · obtain ⟨s, hs⟩ := exists_row hp
    exact ⟨_, .present hs⟩

/-- An error is shown by one text, which is the one that is displayed. -/
theorem shown_iff {e : Error} {s : String} : e.Shown s ↔ s = e.display := by
  have unique : ∀ s, e.Shown s → s = e.display := by
    intro s h
    cases h with
    | parts hh hr hf =>
      cases hh.eq
      cases hr.eq
      cases hf.eq
      rfl
  refine ⟨unique s, ?_⟩
  rintro rfl
  obtain ⟨heading, hh⟩ := exists_heading e.trail
  obtain ⟨remark, hr⟩ := exists_remark e.message
  obtain ⟨facts, hf⟩ := exists_facts e.context
  rw [← unique _ (.parts hh hr hf)]
  exact .parts hh hr hf

theorem Heading.oneLine {trail : List String} {s : String} (h : Heading trail s)
    (ht : ∀ operation ∈ trail, Text.OneLine operation) : Text.OneLine s := by
  cases h with
  | missing => simp [Text.OneLine]
  | last before operation =>
    have ho : Text.OneLine operation := ht operation (by simp)
    simpa [Text.OneLine] using ho

theorem Remark.oneLine {message s : String} (h : Remark message s) (hm : Text.OneLine message) :
    Text.OneLine s := by
  cases h with
  | missing => simp [Text.OneLine]
  | present _ => simpa [Text.OneLine] using hm

theorem Row.oneLine {pairs : List (String × String)} {s : String} (h : Row pairs s)
    (hp : ∀ pair ∈ pairs, Text.OneLine pair.1 ∧ Text.OneLine pair.2) : Text.OneLine s := by
  induction h with
  | one key value => simpa [Text.OneLine] using hp
  | more key value _ ih =>
    rw [List.forall_mem_cons] at hp
    have hrest := ih hp.2
    simp only [Text.OneLine] at hp hrest
    simp [Text.OneLine, hp.1.1, hp.1.2, hrest]

theorem Facts.oneLine {pairs : List (String × String)} {s : String} (h : Facts pairs s)
    (hp : ∀ pair ∈ pairs, Text.OneLine pair.1 ∧ Text.OneLine pair.2) : Text.OneLine s := by
  cases h with
  | missing => simp [Text.OneLine]
  | present hr => simpa [Text.OneLine] using hr.oneLine hp

theorem Kind.oneLine_name (k : Kind) : Text.OneLine k.name := by
  cases k <;> simp [Kind.name, Text.OneLine]

theorem Status.oneLine_word (s : Status) : Text.OneLine s.word := by
  cases s <;> simp [Status.word, Text.OneLine]

theorem Shown.oneLine {e : Error} {s : String} (h : e.Shown s) (he : e.OneLine) :
    Text.OneLine s := by
  cases h with
  | parts hh hr hf =>
    have hheading := hh.oneLine he.trail
    have hremark := hr.oneLine he.message
    have hfacts := hf.oneLine he.context
    have hname := e.kind.oneLine_name
    have hword := e.status.oneLine_word
    simp only [Text.OneLine] at hheading hremark hfacts hname hword
    simp [Text.OneLine, hheading, hremark, hfacts, hname, hword]

end Error

/-! ## Program texts -/

namespace ProgramText

theorem Fields.mem {cs field : List Char} {fs : List (List Char)} (h : Fields cs fs)
    (hf : field ∈ fs) {c : Char} (hc : c ∈ field) : c ∈ cs := by
  induction h with
  | one _ => rwa [List.mem_singleton.1 hf] at hc
  | more _ _ ih =>
    rcases List.mem_cons.1 hf with rfl | hf
    · exact List.mem_append_left _ hc
    · exact List.mem_append_right _ (List.mem_cons_of_mem _ (ih hf))

theorem LineFields.mem {line field : List Char} {fs : List (List Char)} (h : LineFields line fs)
    (hf : field ∈ fs) {c : Char} (hc : c ∈ field) : c ∈ line := by
  cases h with
  | blank _ => cases hf
  | full hfields _ => exact hfields.mem hf hc
  | comma hfields _ => exact List.mem_append_left _ (hfields.mem hf hc)

theorem TextFields.lineFeed_not_mem {text field : List Char} {fs : List (List Char)}
    (h : TextFields text fs) (hf : field ∈ fs) : '\n' ∉ field := by
  induction h with
  | last hn hl => exact fun hc => hn (hl.mem hf hc)
  | more hn hl _ ih =>
    rcases List.mem_append.1 hf with hf | hf
    · exact fun hc => hn (hl.mem hf hc)
    · exact ih hf

/-- A token is a part of one line. -/
theorem lineFeed_not_mem_of_mem_tokens {text token : List Char} (h : token ∈ tokens text) :
    '\n' ∉ token := by
  obtain ⟨fs, hfs⟩ := exists_textFields text
  rw [tokens_of_fields hfs] at h
  obtain ⟨field, hf, rfl⟩ := List.mem_map.1 h
  obtain ⟨before, after, hfield, -⟩ := exists_eq_trim field
  intro hc
  refine hfs.lineFeed_not_mem hf ?_
  rw [hfield]
  exact List.mem_append_left _ (List.mem_append_right _ hc)

theorem oneLine_invalidToken {token : String} (h : Text.OneLine token) (index : Nat) :
    (Error.invalidToken token index).OneLine := by
  simp only [Text.OneLine] at h
  constructor <;>
    simp [Error.invalidToken, Error.parseFailed, Error.within, Error.noting, Text.OneLine, h]

theorem oneLine_of_parse {text : String} {e : Error} (h : parse text = .error e) : e.OneLine := by
  obtain ⟨bad, hbad, rfl⟩ := parse_eq_error_iff.1 h
  obtain ⟨before, token, after, flaw, htokens, -, -, rfl⟩ := exists_bad_of_readTokens hbad
  have hmem : token ∈ tokens text.toList := by
    rw [htokens]
    exact List.mem_append_right _ List.mem_cons_self
  have htoken : Text.OneLine (String.ofList token) := by
    rw [Text.OneLine, String.toList_ofList]
    exact lineFeed_not_mem_of_mem_tokens hmem
  exact (oneLine_invalidToken htoken _).causedBy _

end ProgramText

/-! ## Machines -/

theorem Fault.oneLine_error (f : Fault) : f.error.OneLine := by
  cases f <;> constructor <;> simp [Fault.error, Text.OneLine]

theorem Fault.oneLine_errorAt (f : Fault) (pc : Word) : (f.errorAt pc).OneLine :=
  (f.oneLine_error.within (by simp [Text.OneLine])).noting (by simp [Text.OneLine])
    (lineFeed_not_mem_text pc)

theorem Error.OneLine.ofMachine {e : Error} (h : e.OneLine) (k : Nat) : (e.ofMachine k).OneLine :=
  (h.within (by simp [Text.OneLine])).noting (by simp [Text.OneLine])
    (lineFeed_not_mem_decimal k)

theorem Machine.oneLine_starved (pc : Word) (consumed : Nat) : (starved pc consumed).OneLine := by
  constructor <;>
    simp [starved, Error.inputExhausted, Error.within, Error.noting, Text.OneLine]

theorem Error.oneLine_pipelineStalled (waiting : List Nat) : (pipelineStalled waiting).OneLine := by
  have hlist : Text.OneLine (",".intercalate (waiting.map fun i : Nat => decimal i)) := by
    refine oneLine_intercalate (by simp [Text.OneLine]) fun part hpart => ?_
    obtain ⟨i, -, rfl⟩ := List.mem_map.1 hpart
    exact lineFeed_not_mem_decimal i
  unfold pipelineStalled
  generalize ",".intercalate _ = list at hlist ⊢
  simp only [Text.OneLine] at hlist
  constructor <;> simp [Text.OneLine, hlist]

theorem Memory.oneLine_of_checkLimit {limit : Nat} {e : Error} (h : checkLimit limit = .error e) :
    e.OneLine := by
  rw [checkLimit] at h
  split at h
  · cases h
    constructor <;> simp [Error.configInvalid, Error.noting, Text.OneLine]
  · cases h

theorem ProgramText.oneLine_of_load {limit : Nat} {text : String} {e : Error}
    (h : load limit text = .error e) : e.OneLine := by
  obtain hl | hp := load_error_cases h
  · exact Memory.oneLine_of_checkLimit hl
  · exact oneLine_of_parse hp

namespace Pipeline

theorem oneLine_of_ofNetwork {net : Network} {topology : Topology} {e : Error}
    (h : ofNetwork net topology = .error e) : e.OneLine := by
  rw [ofNetwork] at h
  split at h
  · cases h
    constructor <;> simp [Error.invalidArgument, Error.within, Text.OneLine]
  · cases h

theorem oneLine_of_seed {p : Pipeline} {i : Nat} {word : Word} {e : Error}
    (h : p.seed i word = .error e) : e.OneLine := by
  rw [seed] at h
  split at h
  · cases h
  · cases h
    constructor <;> simp [Error.invalidArgument, Error.within, Error.noting, Text.OneLine]

theorem oneLine_of_seedAll {p : Pipeline} {words : List Word} {e : Error}
    (h : p.seedAll words = .error e) : e.OneLine := by
  rw [seedAll] at h
  split at h
  · cases h
  · cases h
    constructor <;> simp [Error.invalidArgument, Error.within, Text.OneLine]

end Pipeline

/-! ## All that can fail -/

namespace Attempt

variable {fuel : Nat} {a : Attempt} {e : Error}

theorem Faulted.oneLine (h : a.Faulted fuel e) : e.OneLine := by
  induction h with
  | @decode _ fault _ => exact fault.oneLine_error
  | @execute _ _ _ m' fault _ _ _ => exact fault.oneLine_errorAt m'.pc
  | runProgram _ ih => exact ih
  | @run _ _ _ _ k _ m fault _ _ => exact (fault.oneLine_errorAt m.pc).ofMachine k
  | runToHalt _ ih => exact ih

theorem Starved.oneLine (h : a.Starved fuel) (he : a.error? fuel = some e) : e.OneLine := by
  cases h with
  | @runProgram memory input t m hx =>
    rw [error?, Machine.runProgram_eq, hx] at he
    cases he
    exact Machine.oneLine_starved _ _
  | @runToHalt p q report waiting hr ho =>
    simp only [error?, Pipeline.runToHalt, hr, Option.map_some, Option.bind_some, Except.bind, ho,
      failure?_eq_some_iff] at he
    cases he
    exact ((Error.oneLine_pipelineStalled waiting).within (by simp [Text.OneLine])).noting
      (by simp [Text.OneLine]) (lineFeed_not_mem_decimal _)

theorem oneLine_of_cause (h : a.Starved fuel ∨ a.Faulted fuel e) (he : a.error? fuel = some e) :
    e.OneLine := by
  obtain hs | hf := h
  · exact hs.oneLine he
  · exact hf.oneLine

theorem oneLine (h : a.error? fuel = some e) : e.OneLine := by
  cases a with
  | checkLimit limit => exact Memory.oneLine_of_checkLimit (failure?_eq_some_iff.1 h)
  | parse text => exact ProgramText.oneLine_of_parse (failure?_eq_some_iff.1 h)
  | load limit text => exact ProgramText.oneLine_of_load (failure?_eq_some_iff.1 h)
  | ofNetwork net topology => exact Pipeline.oneLine_of_ofNetwork (failure?_eq_some_iff.1 h)
  | create memory count topology => exact Pipeline.oneLine_of_ofNetwork (failure?_eq_some_iff.1 h)
  | seed p i word => exact Pipeline.oneLine_of_seed (failure?_eq_some_iff.1 h)
  | seedAll p words => exact Pipeline.oneLine_of_seedAll (failure?_eq_some_iff.1 h)
  | decode word =>
    have hd := failure?_eq_some_iff.1 h
    cases hf : Instruction.decode word with
    | ok i => rw [hf] at hd; cases hd
    | error fault =>
      rw [hf] at hd
      cases hd
      exact fault.oneLine_error
  | execute t m =>
    obtain ⟨⟨t', m', r⟩, hx, hr⟩ := Option.bind_eq_some_iff.1 h
    cases failure?_eq_some_iff.1 hr
    exact (faulted_of_execute hx).oneLine
  | runProgram memory input =>
    obtain ⟨r, hx, hr⟩ := Option.bind_eq_some_iff.1 h
    cases failure?_eq_some_iff.1 hr
    exact oneLine_of_cause (cause_of_runProgram hx) h
  | run p =>
    obtain ⟨⟨q, r⟩, hx, hr⟩ := Option.bind_eq_some_iff.1 h
    cases failure?_eq_some_iff.1 hr
    exact (faulted_of_run hx).oneLine
  | runToHalt p =>
    obtain ⟨⟨q, r⟩, hx, hr⟩ := Option.bind_eq_some_iff.1 h
    cases failure?_eq_some_iff.1 hr
    exact oneLine_of_cause (cause_of_runToHalt hx) h

/-- **Errors are displayed on one line.** Whatever was asked for and of whatever text, the error
that it ends with is displayed without a line feed. What is displayed is the last operation of the
trail, the kind, the message, the pairs in brackets and the status, where parts that are missing
leave no trace. -/
theorem displayed_on_one_line (h : a.error? fuel = some e) :
    '\n' ∉ e.display.toList ∧ ∀ s, e.Shown s ↔ s = e.display :=
  ⟨(Error.shown_iff.2 rfl).oneLine (oneLine h), fun _ => Error.shown_iff⟩

/-- The token that is told has a carriage return within it, which is no end of a line; the text goes
on behind the line feed. -/
theorem displayed_on_one_line_carriageReturn :
    ∃ e, (parse "7,\n1\r2 ,\r\n5").error? 0 = some e ∧ '\n' ∉ e.display.toList ∧
      e.Shown ("loader::parse: ParseFailed: token 1 is not a signed 64-bit integer: '1\r2'" ++
        " [index=1 token=1\r2] (permanent)") := by
  have hp : ProgramText.parse "7,\n1\r2 ,\r\n5" =
      .error (BadToken.error ⟨1, "1\r2".toList, .badDigit⟩) := by
    rw [ProgramText.parse, show ProgramText.parseChars "7,\n1\r2 ,\r\n5".toList =
      .error ⟨1, "1\r2".toList, .badDigit⟩ from rfl]
    rfl
  have told := @displayed_on_one_line 0 (parse "7,\n1\r2 ,\r\n5") _
    (failure?_eq_some_iff.2 hp)
  exact ⟨_, failure?_eq_some_iff.2 hp, told.1, (told.2 _).2 (by decide +kernel)⟩

end Attempt
end Intcode
