import Intcode.Json.Access
import Intcode.Named

/-!
# Intcode.Pipeline.Form

The forms in which named values and reports of runs are written down.

* `toJson`   — the document for a value.
* `ofJson?`  — the value that a document stands for. Fields may come in any order and among
  others that are not known, but not twice; a record may also be an array of its fields.
* `describe` — a value in record form.
-/

namespace Intcode

namespace Named

def toJson [Named α] (a : α) : Json := Json.text (tag a)

/-- The value with a name that a document stands for: its tag, alone or as the only member of
an object. -/
def ofJson? [Named α] : Json → Option α
  | .string s => (TextUnit.string? s).bind ofTag?
  | .object [(key, .null)] => (TextUnit.string? key).bind ofTag?
  | _ => none

theorem ofJson?_toJson [Named α] (a : α) : ofJson? (toJson a) = some a := by
  simp [toJson, Json.text, ofJson?, TextUnit.string?_ofString, ofTag?_tag]

end Named

namespace Outcome

/-- The document for the end of a run: the field `status` says which of the two it is. -/
def toJson : Outcome → Json
  | .halted => Json.ofFields [("status", Json.text "halted")]
  | .stalled waiting =>
    Json.ofFields
      [("status", Json.text "stalled"),
       ("waiting", .array (waiting.map fun (i : Nat) => Json.int i))]

/-- The end of a run with the given status; `waiting` are the documents for its field. -/
def ofStatus? (status : String) (waiting : List Json) : Option Outcome :=
  if status = "halted" then some .halted
  else if status = "stalled" then
    match waiting with
    | [w] => (Json.naturals? w).map .stalled
    | _ => none
  else none

/-- The end of a run that a document stands for, when the document lies `level` deep in
another. -/
def ofJson? (level : Nat) (j : Json) : Option Outcome :=
  if Json.maxDepth < level + j.depth ∨ j.isPlain = false then none
  else
    match j with
    | .array [status] => do
      let status ← status.string?
      ofStatus? status []
    | .array [status, waiting] => do
      let status ← status.string?
      if status = "halted" then none else ofStatus? status [waiting]
    | j => do
      let members ← j.members?
      let status ← (← Json.field? members "status").string?
      ofStatus? status (Json.field? members "waiting").toList

def describe : Outcome → String
  | .halted => "Halted"
  | .stalled waiting =>
    Text.record "Stalled"
      [("waiting", Text.bracketed (waiting.map fun (i : Nat) => Text.decimal i))]

end Outcome

namespace Report

def fields (r : Report) : List (String × Json) :=
  [("passes", Json.int r.passes),
   ("reasons", .array (r.reasons.map Named.toJson)),
   ("outcome", r.outcome.toJson)]

def toJson (r : Report) : Json := Json.ofFields r.fields

/-- The report with the given documents for its fields. -/
def ofParts? (passes reasons outcome : Json) : Option Report := do
  let passes ← passes.natural?
  let reasons ←
    match reasons with
    | .array items => items.mapM Named.ofJson?
    | _ => none
  let outcome ← Outcome.ofJson? 1 outcome
  return { passes, reasons, outcome }

def ofJson? : Json → Option Report
  | .array [passes, reasons, outcome] => ofParts? passes reasons outcome
  | j => do
    let members ← j.members?
    let passes ← Json.field? members "passes"
    let reasons ← Json.field? members "reasons"
    let outcome ← Json.field? members "outcome"
    ofParts? passes reasons outcome

def describe (r : Report) : String :=
  Text.record "PipelineReport"
    [("passes", Text.decimal r.passes),
     ("reasons", Text.bracketed (r.reasons.map Named.title)),
     ("outcome", r.outcome.describe)]

end Report
end Intcode
