import Intcode.Proofs.Lines
import Intcode.Proofs.Numerals

/-!
# Intcode.Proofs.LineTexts

What the text of a line tells. An address is printed in a column of five characters, and goes beyond
it if it has more digits; behind it stand a bar, a label of five characters and the parameters. The
text is taken apart from the left: no address has a bar, the labels are equally long, and no
parameter has a comma. A numeral with its sign is read back.

The modes that an instruction does not use are not printed, nor is the word they come from.

* `Line.Agrees`      : two lines that differ in no more than that.
* `parameterChars_inj` : the text of a parameter tells its mode and its word.
* `text_eq_text_iff` : two lines of listings have one text just when they agree.
-/

namespace Intcode

namespace Text

/-- Two texts that go up to the same character for the first time are cut there. -/
theorem append_cons_inj {c : Char} {x y z t : List Char} (hx : c ∉ x) (hy : c ∉ y) :
    x ++ c :: z = y ++ c :: t ↔ x = y ∧ z = t := by
  constructor
  · intro h
    obtain ⟨as, rfl, has⟩ | ⟨as, rfl, has⟩ := List.append_eq_append_iff.1 h
    · cases as with
      | nil => simpa using has
      | cons a as =>
        cases has
        simp at hy
    · cases as with
      | nil => simpa using has.symm
      | cons a as =>
        cases has
        simp at hx
  · rintro ⟨rfl, rfl⟩
    rfl

/-- Items without a comma can be told apart in a list of them. -/
theorem intercalate_inj {xs ys : List (List Char)} (hx : ∀ x ∈ xs, ',' ∉ x)
    (hy : ∀ y ∈ ys, ',' ∉ y) (hl : xs.length = ys.length)
    (h : [',', ' '].intercalate xs = [',', ' '].intercalate ys) : xs = ys := by
  induction xs generalizing ys with
  | nil => exact (List.eq_nil_of_length_eq_zero hl.symm).symm
  | cons x xs ih =>
    obtain ⟨y, ys, rfl⟩ := List.exists_cons_of_length_eq_add_one hl.symm
    rw [List.forall_mem_cons] at hx hy
    cases xs with
    | nil =>
      cases List.eq_nil_of_length_eq_zero (Nat.succ.inj hl).symm
      simpa using h
    | cons x' xs =>
      obtain ⟨y', ys, rfl⟩ := List.exists_cons_of_length_eq_add_one (Nat.succ.inj hl).symm
      simp only [List.intercalate_cons_cons, List.append_assoc, List.cons_append,
        append_cons_inj hx.1 hy.1, List.cons.injEq, true_and, List.nil_append] at h
      obtain ⟨rfl, h⟩ := h
      rw [ih hx.2 hy.2 (Nat.succ.inj hl) h]

end Text

namespace Line

open Text

/-- The lines are at one address, and are the same word of data or instructions that differ at most
in modes they do not use. -/
def Agrees : Line → Line → Prop
  | code a i ws, code b j vs =>
    a = b ∧ i.opcode = j.opcode ∧ ws.tail = vs.tail ∧
      ∀ k : Fin 3, k < i.opcode.arity → i.modes.get k = j.modes.get k
  | data a w, data b v => a = b ∧ w = v
  | _, _ => False

/-- An instruction has as many words as it takes up cells. -/
def Complete (l : Line) : Prop := l.words.length = l.cells

/-! ## Parameters -/

/-- The distance of a relative address, with its sign in any case. -/
def distanceChars (w : Word) : List Char :=
  (if w.toInt < 0 then [] else ['+']) ++ decimalChars w.toInt

theorem parameterChars_relative (w : Word) :
    parameterChars .relative w = '[' :: 'r' :: 'b' :: (distanceChars w ++ [']']) := by
  simp [parameterChars, distanceChars]

theorem spells_distanceChars (w : Word) : Spells (distanceChars w) w.toInt := by
  unfold distanceChars
  split
  · exact spells_decimalChars _
  · next hw =>
    rw [decimalChars, if_neg hw, List.singleton_append]
    exact .plus (digits_toDigits _) (by rw [Nat.ofDigitChars_ten_toDigits]; omega)

theorem comma_not_mem_parameterChars (mode : Mode) (w : Word) : ',' ∉ parameterChars mode w := by
  have hvalue := (spells_decimalChars w.toInt).comma_not_mem
  have hdistance := (spells_distanceChars w).comma_not_mem
  cases mode with
  | position => simpa [parameterChars] using hvalue
  | immediate => exact hvalue
  | relative => simpa [parameterChars_relative] using hdistance

/-- The mode of a parameter, told by how its text begins. -/
def modeOf : List Char → Mode
  | '[' :: 'r' :: _ => .relative
  | '[' :: _ => .position
  | _ => .immediate

theorem modeOf_parameterChars (mode : Mode) (w : Word) :
    modeOf (parameterChars mode w) = mode := by
  have hs := spells_decimalChars w.toInt
  obtain ⟨c, cs, hcs⟩ := List.exists_cons_of_ne_nil hs.ne_nil
  have hne : c ≠ '[' ∧ c ≠ 'r' := by
    rw [hcs] at hs
    constructor
    · rintro rfl
      exact hs.not_mem (by decide) List.mem_cons_self
    · rintro rfl
      exact hs.not_mem (by decide) List.mem_cons_self
  cases mode with
  | position => simp [parameterChars, hcs, modeOf, hne.2]
  | immediate => simp [parameterChars, hcs, modeOf, hne.1]
  | relative => rfl

/-- The text of a parameter tells its mode and its word. -/
theorem parameterChars_inj {mode mode' : Mode} {v w : Word} :
    parameterChars mode v = parameterChars mode' w ↔ mode = mode' ∧ v = w := by
  constructor
  · intro h
    have hmode : mode = mode' := by
      rw [← modeOf_parameterChars mode v, h, modeOf_parameterChars]
    subst hmode
    refine ⟨rfl, ?_⟩
    cases mode with
    | position => exact decimalChars_inj (List.append_cancel_right (List.cons.inj h).2)
    | immediate => exact decimalChars_inj h
    | relative =>
      rw [parameterChars_relative, parameterChars_relative] at h
      simp only [List.cons.injEq, true_and] at h
      have hdistance := List.append_cancel_right h
      exact (spells_distanceChars v).unique (hdistance ▸ spells_distanceChars w)
  · rintro ⟨rfl, rfl⟩
    rfl

theorem getElem_toList (modes : Modes) (k : Fin 3) : modes.toList[k.val] = modes.get k := by
  match k with
  | 0 | 1 | 2 => rfl

theorem comma_not_mem_zipWith {modes : List Mode} {ws : List Word} :
    ∀ x ∈ List.zipWith parameterChars modes ws, ',' ∉ x := by
  intro x hx
  obtain ⟨k, hk, rfl⟩ := List.getElem_of_mem hx
  rw [List.getElem_zipWith]
  exact comma_not_mem_parameterChars _ _

/-- The text of the parameters tells the words, and the modes of as many parameters. -/
theorem parametersChars_inj {modes modes' : Modes} {vs ws : List Word} (h3 : vs.length ≤ 3)
    (hl : vs.length = ws.length) :
    parametersChars modes.toList vs = parametersChars modes'.toList ws ↔
      vs = ws ∧ ∀ k : Fin 3, k < vs.length → modes.get k = modes'.get k := by
  have hlen : ∀ modes : Modes, modes.toList.length = 3 := fun _ => rfl
  constructor
  · intro h
    have hzip := intercalate_inj comma_not_mem_zipWith comma_not_mem_zipWith
      (by simp only [List.length_zipWith, hlen, hl]) h
    have hat : ∀ (k : Fin 3) (hk : k < vs.length),
        modes.get k = modes'.get k ∧ vs[k] = ws[k] := by
      intro k hk
      have hitem := List.getElem_of_eq hzip (i := k.val) (by simp [hlen, hk])
      rwa [List.getElem_zipWith, List.getElem_zipWith, getElem_toList, getElem_toList,
        parameterChars_inj] at hitem
    refine ⟨List.ext_getElem hl fun k hk _ => ?_, fun k hk => (hat k hk).1⟩
    exact (hat ⟨k, by omega⟩ hk).2
  · rintro ⟨rfl, hmodes⟩
    have hzip : List.zipWith parameterChars modes.toList vs =
        List.zipWith parameterChars modes'.toList vs := by
      refine List.ext_getElem (by simp [hlen]) fun k hk _ => ?_
      have hk' : k < vs.length := List.lt_length_right_of_zipWith hk
      have hmode := hmodes ⟨k, by omega⟩ hk'
      rw [← getElem_toList, ← getElem_toList] at hmode
      rw [List.getElem_zipWith, List.getElem_zipWith]
      exact congrArg (parameterChars · vs[k]) hmode
    rw [parametersChars, parametersChars, hzip]

/-! ## The columns of a line -/

/-- What stands in front of the parameters. -/
def label : Line → List Char
  | code _ i _ => i.opcode.mnemonic.toList
  | data _ _ => ['D', 'A', 'T', 'A']

/-- What stands behind the label. -/
def remainder : Line → List Char
  | code _ i ws =>
    let operands := parametersChars i.modes.toList ws.tail
    if operands.isEmpty then [] else ' ' :: operands
  | data _ w => ' ' :: decimalChars w.toInt

theorem chars_eq (l : Line) :
    l.chars = (padLeft (Nat.toDigits 10 l.address) ++ [' ']) ++
      '|' :: ' ' :: (padRight l.label ++ l.remainder) := by
  cases l <;> simp [chars, label, remainder, address, padRight]

theorem length_padRight_mnemonic (op : Opcode) : (padRight op.mnemonic.toList).length = 5 := by
  cases op <;> decide

theorem length_padRight_label (l : Line) : (padRight l.label).length = 5 := by
  cases l with
  | code a i ws => exact length_padRight_mnemonic i.opcode
  | data a w => rfl

theorem mem_padLeft_digits {a : Nat} {c : Char} (hc : c ∈ padLeft (Nat.toDigits 10 a)) :
    c.isDigit = true ∨ c = ' ' := by
  rcases List.mem_append.1 hc with hc | hc
  · exact .inr (List.eq_of_mem_replicate hc)
  · exact .inl ((digits_toDigits a).2 c hc)

theorem bar_not_mem (a : Nat) : '|' ∉ padLeft (Nat.toDigits 10 a) ++ [' '] := by
  rw [List.mem_append]
  rintro (hc | hc)
  · rcases mem_padLeft_digits hc with hd | hd
    · exact absurd hd (by decide)
    · exact absurd hd (by decide)
  · exact absurd hc (by decide)

/-- The address is found again among the blanks in front of it. -/
theorem filter_padLeft_digits (a : Nat) :
    (padLeft (Nat.toDigits 10 a)).filter Char.isDigit = Nat.toDigits 10 a := by
  have hblanks : ∀ n, (List.replicate n ' ').filter Char.isDigit = [] := by
    intro n
    rw [List.filter_replicate, if_neg (by decide)]
  rw [padLeft, List.filter_append, hblanks, List.nil_append, List.filter_eq_self]
  exact (digits_toDigits a).2

theorem padLeft_digits_inj {a b : Nat}
    (h : padLeft (Nat.toDigits 10 a) = padLeft (Nat.toDigits 10 b)) : a = b := by
  have hd := congrArg (List.filter Char.isDigit) h
  rw [filter_padLeft_digits, filter_padLeft_digits] at hd
  exact toDigits_inj hd

/-- Lines have one text just when they have the same columns. -/
theorem text_eq_iff_columns {l l' : Line} :
    l.text = l'.text ↔
      l.address = l'.address ∧ padRight l.label = padRight l'.label ∧
        l.remainder = l'.remainder := by
  constructor
  · intro h
    have hchars : l.chars = l'.chars := String.ofList_injective h
    rw [chars_eq, chars_eq, append_cons_inj (bar_not_mem _) (bar_not_mem _)] at hchars
    obtain ⟨haddress, hcolumns⟩ := hchars
    obtain ⟨hlabel, hremainder⟩ := List.append_inj (List.cons.inj hcolumns).2
      ((length_padRight_label l).trans (length_padRight_label l').symm)
    exact ⟨padLeft_digits_inj (List.append_cancel_right haddress), hlabel, hremainder⟩
  · rintro ⟨haddress, hlabel, hremainder⟩
    rw [text, text, chars_eq, chars_eq, haddress, hlabel, hremainder]

/-! ## Labels -/

theorem label_ne_data (op : Opcode) :
    padRight op.mnemonic.toList ≠ padRight ['D', 'A', 'T', 'A'] := by
  cases op <;> decide

theorem label_inj {op op' : Opcode}
    (h : padRight op.mnemonic.toList = padRight op'.mnemonic.toList) : op = op' := by
  revert h
  cases op <;> cases op' <;> decide

/-! ## Lines -/

theorem remainder_code_inj {a b : Nat} {i j : Instruction} {ws vs : List Word} :
    (code a i ws).remainder = (code b j vs).remainder ↔
      parametersChars i.modes.toList ws.tail = parametersChars j.modes.toList vs.tail := by
  constructor
  · intro h
    simp only [remainder, List.isEmpty_iff] at h
    split at h
    · next hi =>
      split at h
      · next hj => rw [hi, hj]
      · cases h
    · split at h
      · cases h
      · exact (List.cons.inj h).2
  · intro h
    simp only [remainder, h]

theorem Complete.length_tail {a : Nat} {i : Instruction} {ws : List Word}
    (h : (code a i ws).Complete) : ws.tail.length = i.opcode.arity := by
  have hwords : ws.length = i.opcode.arity + 1 := h
  rw [List.length_tail, hwords, Nat.add_sub_cancel]

/-- Lines that have all of their words have one text just when they agree. -/
theorem text_eq_iff_agrees {l l' : Line} (h : l.Complete) (h' : l'.Complete) :
    l.text = l'.text ↔ l.Agrees l' := by
  rw [text_eq_iff_columns]
  cases l with
  | code a i ws =>
    cases l' with
    | code b j vs =>
      have harity : i.opcode.arity ≤ 3 := Nat.le_of_succ_le_succ i.width_le
      have hi := h.length_tail
      have hj := h'.length_tail
      rw [remainder_code_inj]
      constructor
      · rintro ⟨haddress, hlabel, hparameters⟩
        have hop : i.opcode = j.opcode := label_inj hlabel
        rw [parametersChars_inj (by omega) (by rw [hi, hj, hop]), hi] at hparameters
        exact ⟨haddress, hop, hparameters⟩
      · rintro ⟨haddress, hop, hparameters⟩
        rw [parametersChars_inj (by omega) (by rw [hi, hj, hop]), hi]
        exact ⟨haddress, by rw [label, label, hop], hparameters⟩
    | data b v => exact iff_of_false (fun h => label_ne_data _ h.2.1) id
  | data a w =>
    cases l' with
    | code b j vs => exact iff_of_false (fun h => label_ne_data _ h.2.1.symm) id
    | data b v =>
      constructor
      · rintro ⟨haddress, -, hremainder⟩
        exact ⟨haddress, decimalChars_inj (List.cons.inj hremainder).2⟩
      · rintro ⟨haddress, rfl⟩
        exact ⟨haddress, rfl, rfl⟩

/-- A line of a listing has all of its words. -/
theorem complete_of_mem {m : Memory} {start : Address} {l : Line}
    (h : l ∈ Listing.sweep m start) : l.Complete := by
  obtain ⟨before, after, hl⟩ := List.append_of_mem h
  have hline := (Listing.split_upTo hl).2.1
  cases l with
  | code a i ws =>
    obtain ⟨-, -, -, hwords⟩ := Listing.lineAt_eq_code_iff.1 hline.symm
    rw [Complete, words, hwords]
    simp [cells, Memory.slice]
  | data a w => rfl

end Line

namespace Listing

/-- **The text of a line is unambiguous.** Two lines of any listings have one text just when they
are at one address and are the same word of data, or one operation on the same parameters in the
same modes. -/
theorem text_eq_text_iff {m m' : Memory} {start start' : Address} {l l' : Line}
    (h : l ∈ sweep m start) (h' : l' ∈ sweep m' start') : l.text = l'.text ↔ l.Agrees l' :=
  Line.text_eq_iff_agrees (Line.complete_of_mem h) (Line.complete_of_mem h')

/-- A memory that begins with an instruction of two words has the instruction as its only line. -/
theorem sweep_pair {i : Instruction} {v w : Word} (hi : Instruction.decode v = .ok i)
    (hw : i.width = 2) : sweep (Memory.ofWords #[v, w] 2) 0 = [.code 0 i [v, w]] := by
  rw [sweep, Memory.extent_ofWords]
  have hline : lineAt (Memory.ofWords #[v, w] 2) 2 0 = .code 0 i [v, w] := by
    refine lineAt_eq_code_iff.2 ⟨rfl, hi, by omega, ?_⟩
    rw [hw]
    rfl
  refine upTo_eq_cons Nat.two_pos hline (upTo_of_le ?_)
  show 2 ≤ 0 + i.width
  omega

/-- The words `204` and `11204` of an output differ only in modes that an output does not use; the
word `104` differs in the one that it does. -/
theorem text_eq_text_iff_output :
    let unset := Line.code 0 ⟨.output, ⟨.relative, .position, .position⟩⟩ [204, -1]
    let set := Line.code 0 ⟨.output, ⟨.relative, .immediate, .immediate⟩⟩ [11204, -1]
    let bare := Line.code 0 ⟨.output, ⟨.immediate, .position, .position⟩⟩ [104, -1]
    sweep (Memory.ofWords #[204, -1] 2) 0 = [unset] ∧
      sweep (Memory.ofWords #[11204, -1] 2) 0 = [set] ∧
      sweep (Memory.ofWords #[104, -1] 2) 0 = [bare] ∧
      unset ≠ set ∧ unset.text = set.text ∧ unset.text ≠ bare.text := by
  intro unset set bare
  have hunset : sweep (Memory.ofWords #[204, -1] 2) 0 = [unset] := sweep_pair rfl rfl
  have hset : sweep (Memory.ofWords #[11204, -1] 2) 0 = [set] := sweep_pair rfl rfl
  have hbare : sweep (Memory.ofWords #[104, -1] 2) 0 = [bare] := sweep_pair rfl rfl
  have mem : ∀ {m l}, sweep m 0 = [l] → l ∈ sweep m 0 := by
    intro m l h
    rw [h]
    exact List.mem_singleton_self l
  have hsame := text_eq_text_iff (mem hunset) (mem hset)
  have hother := text_eq_text_iff (mem hunset) (mem hbare)
  refine ⟨hunset, hset, hbare, by decide, hsame.2 ⟨rfl, rfl, rfl, by decide⟩, ?_⟩
  intro h
  obtain ⟨-, -, -, hmodes⟩ := hother.1 h
  exact absurd (hmodes 0 (by decide)) (by decide)

end Listing
end Intcode
