import Intcode.Command.Task
import Intcode.Proofs.Documents

/-!
# Intcode.Proofs.Reports

Reports are found again in what was printed.

A report is printed by itself, or as the last fields of a summary, and a summary has fields that a
report has not. Where a report is read, fields are looked up by their names, so the others do not
matter as long as none of them has the name of a field of the report. The end of a run is a document
within the document; it is held as a value first, which only works if it is plain and not deep.

* `Outcome.ofJson?_toJson`   : the end of a run is found again in its document.
* `Report.ofJson?_ofFields`  : a report is found among fields with other names.
* `Summary.isPlain_toJson`   : what is printed of a summary is plain.
* `printed_report_read_back` : a report is read back from either text.
-/

namespace Intcode

namespace Json

theorem mapM_map_eq_some {α β : Type} {f : α → β} {g : β → Option α} {l : List α}
    (h : ∀ a ∈ l, g (f a) = some a) : (l.map f).mapM g = some l := by
  induction l with
  | nil => rfl
  | cons a l ih =>
    rw [List.forall_mem_cons] at h
    rw [List.map_cons, List.mapM_cons, h.1, ih h.2]
    rfl

/-! ## Fields -/

theorem members?_ofFields (fields : List (String × Json)) :
    (ofFields fields).members? = some fields :=
  mapM_map_eq_some fun field _ => by simp [TextUnit.string?_ofString]

/-- A field is looked up past others that do not have its name. -/
theorem field?_append {before fields : List (String × Json)} {key : String}
    (h : ∀ field ∈ before, field.1 ≠ key) : field? (before ++ fields) key = field? fields key := by
  have hnone : before.filter (fun field => field.1 = key) = [] := by
    simpa [List.filter_eq_nil_iff] using h
  rw [field?, List.filter_append, hnone, List.nil_append, field?]

/-! ## Plain documents -/

theorem isPlain_text (s : String) : (text s).isPlain = true := by
  have h := TextUnit.string?_ofString s
  rw [TextUnit.string?, Option.map_eq_some_iff] at h
  obtain ⟨cs, hcs, -⟩ := h
  simp [text, isPlain, hcs]

theorem isPlain_int {z : Int} (h : z.natAbs < UInt64.size) : (int z).isPlain = true := by
  simp [int, isPlain, JsonNumber.isFinite, h]

theorem isPlain_array {items : List Json} (h : ∀ item ∈ items, item.isPlain = true) :
    (array items).isPlain = true := by
  rw [isPlain]
  induction items with
  | nil => rfl
  | cons item items ih =>
    rw [List.forall_mem_cons] at h
    rw [isPlainItems, h.1, ih h.2]
    rfl

theorem isPlain_ofFields {fields : List (String × Json)}
    (h : ∀ field ∈ fields, field.2.isPlain = true) : (ofFields fields).isPlain = true := by
  rw [ofFields, isPlain]
  induction fields with
  | nil => rfl
  | cons field fields ih =>
    rw [List.forall_mem_cons] at h
    have hkey := isPlain_text field.1
    rw [text, isPlain] at hkey
    rw [List.map_cons, isPlainMembers, hkey, h.1, ih h.2]
    rfl

theorem natural?_int {n : Nat} (h : n < UInt64.size) : (int n).natural? = some n := by
  have hneg : ¬ (n : Int) < 0 := by omega
  simp [int, natural?, hneg, h]

theorem depthItems_ints (ns : List Nat) : depthItems (ns.map fun n : Nat => int n) = 0 := by
  induction ns with
  | nil => rfl
  | cons n ns ih =>
    rw [List.map_cons, depthItems, ih]
    rfl

end Json

/-! ## Reports -/

namespace Outcome

/-- The places of the machines that wait are unsigned 64-bit integers. -/
def Sized : Outcome → Prop
  | .halted => True
  | .stalled waiting => ∀ i ∈ waiting, i < UInt64.size

theorem isPlain_toJson {o : Outcome} (h : o.Sized) : o.toJson.isPlain = true := by
  cases o with
  | halted => exact Json.isPlain_ofFields (by simp [Json.isPlain_text])
  | stalled waiting =>
    have hwaiting : (Json.array (waiting.map fun i : Nat => Json.int i)).isPlain = true := by
      refine Json.isPlain_array fun item hitem => ?_
      obtain ⟨i, hi, rfl⟩ := List.mem_map.1 hitem
      exact Json.isPlain_int (by simpa using h i hi)
    exact Json.isPlain_ofFields (by simp [Json.isPlain_text, hwaiting])

theorem depth_toJson (o : Outcome) : o.toJson.depth ≤ 2 := by
  cases o with
  | halted => decide
  | stalled waiting =>
    have := Json.depthItems_ints waiting
    simp [toJson, Json.ofFields, Json.text, Json.depth, Json.depthMembers, this]

/-- The end of a run is told by its fields, if these can be held as a value. -/
theorem ofJson?_ofFields {level : Nat} {fields : List (String × Json)}
    (hd : level + (Json.ofFields fields).depth ≤ Json.maxDepth)
    (hp : (Json.ofFields fields).isPlain = true) :
    ofJson? level (Json.ofFields fields) =
      ((Json.field? fields "status").bind Json.string?).bind fun status =>
        ofStatus? status (Json.field? fields "waiting").toList := by
  have hheld : ¬ (Json.maxDepth < level + (Json.ofFields fields).depth ∨
      (Json.ofFields fields).isPlain = false) := by
    rw [hp]
    simp only [Bool.true_eq_false, or_false]
    omega
  unfold ofJson?
  rw [if_neg hheld]
  change (Json.ofFields fields).members?.bind _ = _
  rw [Json.members?_ofFields, Option.bind_some, Option.bind_assoc]
  rfl

theorem ofJson?_toJson {o : Outcome} (h : o.Sized) : ofJson? 1 o.toJson = some o := by
  have hp := isPlain_toJson h
  have hd : 1 + o.toJson.depth ≤ Json.maxDepth := by
    have hdepth := o.depth_toJson
    rw [Json.maxDepth]
    omega
  cases o with
  | halted =>
    rw [toJson, ofJson?_ofFields hd hp]
    simp [Json.field?, Json.string?, Json.text, TextUnit.string?_ofString, ofStatus?]
  | stalled waiting =>
    have hwaiting : Json.naturals? (.array (waiting.map fun i : Nat => Json.int i)) =
        some waiting :=
      Json.mapM_map_eq_some fun i hi => Json.natural?_int (h i hi)
    rw [toJson, ofJson?_ofFields hd hp]
    simp [Json.field?, Json.string?, Json.text, TextUnit.string?_ofString, ofStatus?, hwaiting]

end Outcome

namespace Report

/-- The numbers of the report are unsigned 64-bit integers. -/
structure Sized (r : Report) : Prop where
  passes : r.passes < UInt64.size
  outcome : r.outcome.Sized

theorem isPlain_fields {r : Report} (h : r.Sized) :
    ∀ field ∈ r.fields, field.2.isPlain = true := by
  have hpasses : (Json.int r.passes).isPlain = true := Json.isPlain_int (by simpa using h.passes)
  have hreasons : (Json.array (r.reasons.map Named.toJson)).isPlain = true := by
    refine Json.isPlain_array fun item hitem => ?_
    obtain ⟨reason, -, rfl⟩ := List.mem_map.1 hitem
    exact Json.isPlain_text _
  simp [fields, hpasses, hreasons, Outcome.isPlain_toJson h.outcome]

theorem ofParts?_eq {r : Report} (h : r.Sized) :
    ofParts? (Json.int r.passes) (.array (r.reasons.map Named.toJson)) r.outcome.toJson =
      some r := by
  have hreasons : (r.reasons.map Named.toJson).mapM Named.ofJson? = some r.reasons :=
    Json.mapM_map_eq_some fun reason _ => Named.ofJson?_toJson reason
  simp [ofParts?, Json.natural?_int h.passes, hreasons, Outcome.ofJson?_toJson h.outcome]

/-- A report is found among fields with other names. -/
theorem ofJson?_ofFields {r : Report} (h : r.Sized) {others : List (String × Json)}
    (ho : ∀ field ∈ others, field.1 ∉ r.fields.map Prod.fst) :
    ofJson? (Json.ofFields (others ++ r.fields)) = some r := by
  have hfield : ∀ key ∈ r.fields.map Prod.fst,
      Json.field? (others ++ r.fields) key = Json.field? r.fields key := by
    intro key hkey
    refine Json.field?_append fun field hf heq => ho field hf ?_
    rwa [heq]
  have hpasses := hfield "passes" (by simp [fields])
  have hreasons := hfield "reasons" (by simp [fields])
  have houtcome := hfield "outcome" (by simp [fields])
  change (Json.ofFields _).members?.bind _ = _
  rw [Json.members?_ofFields, Option.bind_some]
  simp only [hpasses, hreasons, houtcome]
  simpa [Json.field?, fields] using ofParts?_eq h

theorem ofJson?_toJson {r : Report} (h : r.Sized) : ofJson? r.toJson = some r :=
  @ofJson?_ofFields r h [] (by simp)

theorem isPlain_toJson {r : Report} (h : r.Sized) : r.toJson.isPlain = true :=
  Json.isPlain_ofFields (isPlain_fields h)

/-- The report in a text that holds a document. -/
def read? (text : List Char) : Option Report := (Json.parse? text).bind ofJson?

end Report

namespace Command

namespace Summary

theorem isPlain_toJson {s : Summary} (h : s.report.Sized) : s.toJson.isPlain = true := by
  have houtput :
      (Json.ofOption (fun w : Word => Json.int w.toInt) s.lastOutput).isPlain = true := by
    cases s.lastOutput with
    | none => rfl
    | some w =>
      have hle := w.le_toInt
      have hlt := w.toInt_lt
      exact Json.isPlain_int (by simp only [UInt64.size]; omega)
  refine Json.isPlain_ofFields (List.forall_mem_append.2 ⟨?_, Report.isPlain_fields h⟩)
  simp [Named.toJson, Json.isPlain_text, houtput]

theorem ofJson?_toJson {s : Summary} (h : s.report.Sized) :
    Report.ofJson? s.toJson = some s.report :=
  Report.ofJson?_ofFields h (by simp [Report.fields])

end Summary

/-- **Reports survive printing.** A report whose numbers are unsigned 64-bit integers is read back
from its text without blanks, and from what is printed of any summary that has it. -/
theorem printed_report_read_back {r : Report} (h : r.Sized) :
    Report.read? r.toJson.compact = some r ∧
      ∀ (topology : Topology) (lastOutput : Option Word),
        Report.read? (Summary.toJson ⟨topology, lastOutput, r⟩).pretty = some r ∧
          Report.read? (Summary.print ⟨topology, lastOutput, r⟩ true) = some r := by
  refine ⟨?_, fun topology lastOutput => ?_⟩
  · rw [Report.read?, Json.parse?_compact (Report.isPlain_toJson h)]
    exact Report.ofJson?_toJson h
  · let s : Summary := ⟨topology, lastOutput, r⟩
    have hread : ∀ bs, Json.Spaces bs → Report.read? (s.toJson.pretty ++ bs) = some r := by
      intro bs hb
      rw [Report.read?, Json.parse?_pretty (Summary.isPlain_toJson h) hb]
      exact Summary.ofJson?_toJson h
    refine ⟨?_, ?_⟩
    · simpa using hread [] Json.spaces_nil
    · simpa [s, Summary.print, printLines] using hread ['\n'] (by simp [Json.Spaces, Json.isSpace])

/-- The report of a pipeline that stalled, in the summary of a ring that wrote nothing. A list with
items is printed on many lines and an empty one on a single line. -/
theorem printed_report_read_back_stalled :
    let r : Report := { passes := 18446744073709551615, reasons := [],
                        outcome := .stalled [0, 18446744073709551615] }
    let s : Summary := { topology := .ring, lastOutput := none, report := r }
    r.Sized ∧ Report.read? r.toJson.compact = some r ∧ Report.read? (s.print true) = some r ∧
      s.print true = printLines (List.map String.toList
        ["\x7b",
         "  \"topology\": \"ring\",",
         "  \"last_output\": null,",
         "  \"passes\": 18446744073709551615,",
         "  \"reasons\": [],",
         "  \"outcome\": \x7b",
         "    \"status\": \"stalled\",",
         "    \"waiting\": [",
         "      0,",
         "      18446744073709551615",
         "    ]",
         "  \x7d",
         "\x7d"]) := by
  intro r s
  have hsized : r.Sized := ⟨by decide, show ∀ i ∈ [0, 18446744073709551615], _ by decide⟩
  have told := printed_report_read_back hsized
  exact ⟨hsized, told.1, (told.2 .ring none).2, by decide +kernel⟩

end Command
end Intcode
