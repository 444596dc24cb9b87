import Intcode.Json.Access
import Intcode.Json.Reader
import Intcode.Proofs.Numerals
import Mathlib.Data.List.DropRight

/-!
# Intcode.Proofs.Documents

Documents are read back from what was printed.

There are two ways to print a document, which differ only in blanks. `Layout` says what they have in
common: the text of a document is put together from the texts of its parts, and blanks may stand
between these. Whatever they are, the reader finds the document. It looks at one character where
something ends, so nothing is said about what follows but that it does not continue a number.

* `Layout`                     : the text holds the document, with any blanks between its parts.
* `readValue_of_layout`        : a layout of a document is read as the document.
* `parse?_compact`, `parse?_pretty` : so is the document itself, printed in either way.
-/

namespace Intcode
namespace Json

/-! ## Numbers -/

/-- What is left does not begin with a character that continues a number. -/
def Stops (s : List Char) : Prop :=
  ∀ c ∈ s.head?, c.isDigit = false ∧ c ≠ '.' ∧ c ≠ 'e' ∧ c ≠ 'E'

/-- Only zero is written with a zero in front. -/
theorem eq_zero_of_head_toDigits {n : Nat} (h : (Nat.toDigits 10 n).head? = some '0') :
    n = 0 := by
  have hdigit : ∀ d < 10, Nat.digitChar d = '0' → d = 0 := by decide
  induction n using Nat.strongRecOn with
  | ind n ih =>
    by_cases hn : n < 10
    · rw [Nat.toDigits_of_lt_base hn] at h
      exact hdigit n hn (Option.some.inj h)
    · rw [Nat.toDigits_of_base_le (by decide) (by omega), List.head?_append,
        List.head?_eq_some_head Nat.toDigits_ne_nil, Option.some_or,
        ← List.head?_eq_some_head Nat.toDigits_ne_nil] at h
      have := ih (n / 10) (by omega) h
      omega

theorem readDigits_append {ds rest : List Char} (hd : Text.Digits ds)
    (hr : ∀ c ∈ rest.head?, c.isDigit = false) : readDigits (ds ++ rest) = some (ds, rest) := by
  have htake : rest.takeWhile Char.isDigit = [] := by
    cases rest with
    | nil => rfl
    | cons c rest => rw [List.takeWhile_cons_of_neg (by simp [hr c rfl])]
  have hdrop : rest.dropWhile Char.isDigit = rest := by
    cases rest with
    | nil => rfl
    | cons c rest => rw [List.dropWhile_cons_of_neg (by simp [hr c rfl])]
  obtain ⟨d, ds, rfl⟩ := List.exists_cons_of_ne_nil hd.1
  rw [readDigits, List.takeWhile_append_of_pos hd.2, List.dropWhile_append_of_pos hd.2, htake,
    hdrop, List.append_nil]

/-- What begins with digits begins with a digit. -/
theorem digit_of_append {ds rest s : List Char} {c : Char} (hd : Text.Digits ds)
    (h : ds ++ rest = c :: s) : c.isDigit = true := by
  obtain ⟨d, ds, rfl⟩ := List.exists_cons_of_ne_nil hd.1
  cases h
  exact hd.2 c List.mem_cons_self

theorem readWhole_toDigits (n : Nat) {rest : List Char}
    (hr : ∀ c ∈ rest.head?, c.isDigit = false) :
    readWhole (Nat.toDigits 10 n ++ rest) = some (Nat.toDigits 10 n, rest) := by
  have hzero : ¬ ((Nat.toDigits 10 n).head? = some '0' ∧ 1 < (Nat.toDigits 10 n).length) := by
    rintro ⟨hhead, hlength⟩
    cases eq_zero_of_head_toDigits hhead
    exact absurd hlength (by decide)
  rw [readWhole, readDigits_append (Text.digits_toDigits n) hr]
  exact if_neg hzero

theorem readExponentValue_decimalChars (e : Int) {rest : List Char}
    (hr : ∀ c ∈ rest.head?, c.isDigit = false) :
    readExponentValue (Text.decimalChars e ++ rest) = some (e, rest) := by
  have hd := Text.digits_toDigits e.natAbs
  have hread := readDigits_append hd hr
  rw [Text.decimalChars]
  split
  · next he =>
    have hneg : -(e.natAbs : Int) = e := by omega
    rw [List.cons_append, readExponentValue, hread, Option.map_some]
    dsimp only
    rw [Nat.ofDigitChars_ten_toDigits, hneg]
  · next he =>
    have hpos : (e.natAbs : Int) = e := by omega
    unfold readExponentValue
    split
    · next heq => exact absurd (digit_of_append hd heq) (by decide)
    · next heq => exact absurd (digit_of_append hd heq) (by decide)
    · rw [hread, Option.map_some]
      dsimp only
      rw [Nat.ofDigitChars_ten_toDigits, hpos]

theorem Stops.digit {rest : List Char} (h : Stops rest) : ∀ c ∈ rest.head?, c.isDigit = false :=
  fun c hc => (h c hc).1

theorem readFraction_of_stops {rest : List Char} (h : ∀ c ∈ rest.head?, c ≠ '.') :
    readFraction rest = some (none, rest) := by
  unfold readFraction
  split
  · exact absurd rfl (h '.' rfl)
  · rfl

theorem readExponent_of_stops {rest : List Char} (h : Stops rest) :
    readExponent rest = some (none, rest) := by
  unfold readExponent
  split
  · exact absurd rfl (h 'e' rfl).2.2.1
  · exact absurd rfl (h 'E' rfl).2.2.2
  · rfl

theorem readMagnitude_integer (negative : Bool) (n : Nat) {rest : List Char} (h : Stops rest) :
    readMagnitude negative (Nat.toDigits 10 n ++ rest) = some (.integer negative n, rest) := by
  simp [readMagnitude, readWhole_toDigits n h.digit,
    readFraction_of_stops fun c hc => (h c hc).2.1, readExponent_of_stops h,
    Nat.ofDigitChars_ten_toDigits]

theorem readMagnitude_scientific (negative : Bool) (n : Nat) (e : Int) {rest : List Char}
    (h : Stops rest) :
    readMagnitude negative (Nat.toDigits 10 n ++ 'e' :: (Text.decimalChars e ++ rest)) =
      some (.scientific negative n e, rest) := by
  have he : ∀ c ∈ ('e' :: (Text.decimalChars e ++ rest)).head?, c.isDigit = false := by simp
  have hfraction : ∀ s, readFraction ('e' :: s) = some (none, 'e' :: s) :=
    fun s => readFraction_of_stops (by simp)
  simp [readMagnitude, readWhole_toDigits n he, hfraction,
    readExponent, readExponentValue_decimalChars e h.digit, Nat.ofDigitChars_ten_toDigits]

theorem readNumber_of_digits {ds rest : List Char} (hd : Text.Digits ds) :
    readNumber (ds ++ rest) = readMagnitude false (ds ++ rest) := by
  unfold readNumber
  split
  · next heq => exact absurd (digit_of_append hd heq) (by decide)
  · rfl

/-- The text of a number begins with a minus sign or with a digit. -/
theorem print_number_eq_cons (n : JsonNumber) :
    ∃ c s, n.print = c :: s ∧ (c = '-' ∨ c.isDigit = true) := by
  have hdigits : ∀ (negative : Bool) (n : Nat) (rest : List Char),
      ∃ c s, (if negative then ['-'] else []) ++ Nat.toDigits 10 n ++ rest = c :: s ∧
        (c = '-' ∨ c.isDigit = true) := by
    intro negative n rest
    have hd := Text.digits_toDigits n
    cases negative with
    | false =>
      obtain ⟨c, cs, hcs⟩ := List.exists_cons_of_ne_nil hd.1
      have hc : c.isDigit = true := hd.2 c (by rw [hcs]; exact List.mem_cons_self)
      exact ⟨c, cs ++ rest, by rw [hcs]; rfl, .inr hc⟩
    | true => exact ⟨'-', _, rfl, .inl rfl⟩
  cases n with
  | integer negative n => simpa [JsonNumber.print] using hdigits negative n []
  | scientific negative n e => exact hdigits negative n _

theorem readNumber_print (n : JsonNumber) {rest : List Char} (h : Stops rest) :
    readNumber (n.print ++ rest) = some (n, rest) := by
  cases n with
  | integer negative n =>
    cases negative with
    | false =>
      exact (readNumber_of_digits (Text.digits_toDigits n)).trans (readMagnitude_integer _ n h)
    | true => exact readMagnitude_integer true n h
  | scientific negative n e =>
    have hread := readMagnitude_scientific negative n e h
    cases negative with
    | false =>
      rw [← readNumber_of_digits (Text.digits_toDigits n)] at hread
      simpa [JsonNumber.print] using hread
    | true => simpa [JsonNumber.print, readNumber] using hread

/-! ## Strings -/

theorem code?_fourDigits : ∀ n < 32,
    code? (Nat.digitChar (n / 4096)) (Nat.digitChar (n / 256 % 16)) (Nat.digitChar (n / 16 % 16))
      (Nat.digitChar (n % 16)) = some n := by
  decide

/-- A character is read back from how it is written between quotation marks. -/
theorem readString_print (c : Char) (s : List Char) :
    readString (TextUnit.print (.char c) ++ s) =
      (readString s).map fun (units, rest) => (.char c :: units, rest) := by
  by_cases hplain : c = '"' ∨ c = '\\' ∨ c = '\x08' ∨ c = '\x0c' ∨ c = '\n' ∨ c = '\r' ∨ c = '\t'
  · rcases hplain with rfl | rfl | rfl | rfl | rfl | rfl | rfl <;>
      cases h : readString s <;>
      simp [TextUnit.print, readString, unescape?, h]
  · -- A character without a letter of its own is a control character or stands for itself.
    simp only [not_or] at hplain
    obtain ⟨hquote, hslash, h8, hf, hn, hr, ht⟩ := hplain
    have hprint : TextUnit.print (.char c) =
        if c.toNat < 32 then ['\\', 'u'] ++ TextUnit.fourDigits c.toNat else [c] := by
      unfold TextUnit.print
      split <;> simp_all
    by_cases hc : c.toNat < 32
    · have hcons : ∀ units, consCode c.toNat units = .char c :: units := by
        intro units
        unfold consCode
        rw [if_neg (by omega), Char.ofNat_toNat]
      rw [hprint, if_pos hc]
      cases h : readString s <;>
        simp [readString, TextUnit.fourDigits, code?_fourDigits _ hc, hcons, h]
    · rw [hprint, if_neg hc, List.singleton_append]
      cases h : readString s <;> simp [readString, hslash, hc, h]

theorem readString_flatMap (cs rest : List Char) :
    readString ((cs.map .char).flatMap TextUnit.print ++ '"' :: rest) =
      some (cs.map .char, rest) := by
  induction cs with
  | nil => simp [readString]
  | cons c cs ih =>
    rw [List.map_cons, List.flatMap_cons, List.append_assoc, readString_print, ih]
    rfl

theorem readString_printString (cs rest : List Char) :
    ∃ s, TextUnit.printString (cs.map .char) ++ rest = '"' :: s ∧
      readString s = some (cs.map .char, rest) := by
  refine ⟨(cs.map .char).flatMap TextUnit.print ++ '"' :: rest, ?_, readString_flatMap cs rest⟩
  simp [TextUnit.printString]

/-! ## Layouts -/

theorem eq_of_isSpace {c : Char} (h : isSpace c = true) :
    c = ' ' ∨ c = '\n' ∨ c = '\t' ∨ c = '\r' := by
  simpa [isSpace, or_assoc] using h

/-- Nothing but blanks. -/
def Spaces (s : List Char) : Prop := ∀ c ∈ s, isSpace c = true

mutual

/-- The text holds the document, with any blanks in front of it and between its parts. -/
inductive Layout : List Char → Json → Prop where
  | space {c : Char} {s : List Char} {j : Json} : isSpace c = true → Layout s j → Layout (c :: s) j
  | null : Layout ['n', 'u', 'l', 'l'] .null
  | true : Layout ['t', 'r', 'u', 'e'] (.bool true)
  | false : Layout ['f', 'a', 'l', 's', 'e'] (.bool false)
  | number (n : JsonNumber) : Layout n.print (.number n)
  | string (cs : List Char) : Layout (TextUnit.printString (cs.map .char)) (.string (cs.map .char))
  | emptyArray {bs : List Char} : Spaces bs → Layout ('[' :: bs ++ [']']) (.array [])
  | array {s : List Char} {items : List Json} :
      ItemsLayout s items → Layout ('[' :: s ++ [']']) (.array items)
  | emptyObject {bs : List Char} : Spaces bs → Layout ('\x7b' :: bs ++ ['\x7d']) (.object [])
  | object {s : List Char} {members : List (List TextUnit × Json)} :
      MembersLayout s members → Layout ('\x7b' :: s ++ ['\x7d']) (.object members)

/-- The text holds the items of an array, of which there is one at least. -/
inductive ItemsLayout : List Char → List Json → Prop where
  | last {s bs : List Char} {item : Json} :
      Layout s item → Spaces bs → ItemsLayout (s ++ bs) [item]
  | cons {s bs s' : List Char} {item : Json} {items : List Json} :
      Layout s item → Spaces bs → ItemsLayout s' items →
      ItemsLayout (s ++ bs ++ ',' :: s') (item :: items)

/-- The text holds the member of an object, up to the blanks behind it. -/
inductive MemberLayout : List Char → List TextUnit × Json → Prop where
  | mk {bs bs' s : List Char} (cs : List Char) {value : Json} :
      Spaces bs → Spaces bs' → Layout s value →
      MemberLayout (bs ++ TextUnit.printString (cs.map .char) ++ bs' ++ ':' :: s)
        (cs.map .char, value)

/-- The text holds the members of an object, of which there is one at least. -/
inductive MembersLayout : List Char → List (List TextUnit × Json) → Prop where
  | last {s bs : List Char} {member : List TextUnit × Json} :
      MemberLayout s member → Spaces bs → MembersLayout (s ++ bs) [member]
  | cons {s bs s' : List Char} {member : List TextUnit × Json}
      {members : List (List TextUnit × Json)} :
      MemberLayout s member → Spaces bs → MembersLayout s' members →
      MembersLayout (s ++ bs ++ ',' :: s') (member :: members)

end

theorem Layout.ne_nil {s : List Char} {j : Json} (h : Layout s j) : s ≠ [] := by
  cases h with
  | number n =>
    obtain ⟨c, s, hprint, -⟩ := print_number_eq_cons n
    simp [hprint]
  | _ => simp [TextUnit.printString]

/-! ## Steps of the reader -/

theorem skipSpaces_append {bs : List Char} (h : Spaces bs) (s : List Char) :
    skipSpaces (bs ++ s) = skipSpaces s :=
  List.dropWhile_append_of_pos h

theorem skipSpaces_space {c : Char} (h : isSpace c = true) (s : List Char) :
    skipSpaces (c :: s) = skipSpaces s :=
  List.dropWhile_cons_of_pos h

theorem skipSpaces_cons {c : Char} (h : isSpace c = false) (s : List Char) :
    skipSpaces (c :: s) = c :: s :=
  List.dropWhile_cons_of_neg (by simp [h])

theorem skipSpaces_skipSpaces (s : List Char) : skipSpaces (skipSpaces s) = skipSpaces s :=
  List.dropWhile_idempotent isSpace s

theorem readValue_congr {s t : List Char} (h : skipSpaces s = skipSpaces t) (fuel : Nat) :
    readValue fuel s = readValue fuel t := by
  cases fuel with
  | zero => rw [readValue, readValue]
  | succ fuel => rw [readValue, readValue, h]

theorem readItems_congr {s t : List Char} (h : skipSpaces s = skipSpaces t) (fuel : Nat) :
    readItems fuel s = readItems fuel t := by
  cases fuel with
  | zero => rw [readItems, readItems]
  | succ fuel => rw [readItems, readItems, readValue_congr h]

theorem readMembers_congr {s t : List Char} (h : skipSpaces s = skipSpaces t) (fuel : Nat) :
    readMembers fuel s = readMembers fuel t := by
  cases fuel with
  | zero => rw [readMembers, readMembers]
  | succ fuel => rw [readMembers, readMembers, h]

section Steps

variable {fuel : Nat} {c : Char} {s t rest bs : List Char}

theorem isSpace_of_number (h : c = '-' ∨ c.isDigit = true) : isSpace c = false := by
  rw [Bool.eq_false_iff]
  intro hs
  rcases eq_of_isSpace hs with rfl | rfl | rfl | rfl <;> revert h <;> decide

theorem readValue_number (n : JsonNumber) (h : Stops rest) :
    readValue (fuel + 1) (n.print ++ rest) = some (.number n, rest) := by
  obtain ⟨c, s, hprint, hc⟩ := print_number_eq_cons n
  have hread := readNumber_print n h
  rw [hprint, List.cons_append] at hread ⊢
  rw [readValue, skipSpaces_cons (isSpace_of_number hc)]
  split
  case h_7 => rw [hread]; rfl
  all_goals
    rename_i heq
    exact absurd ((List.cons.inj heq).1 ▸ hc) (by decide)

theorem readValue_string (cs rest : List Char) :
    readValue (fuel + 1) (TextUnit.printString (cs.map .char) ++ rest) =
      some (.string (cs.map .char), rest) := by
  obtain ⟨s, hprint, hread⟩ := readString_printString cs rest
  rw [hprint, readValue, skipSpaces_cons (by decide)]
  simp only [hread, Option.map_some]

theorem readValue_emptyArray (h : Spaces bs) (rest : List Char) :
    readValue (fuel + 1) ('[' :: (bs ++ ']' :: rest)) = some (.array [], rest) := by
  rw [readValue, skipSpaces_cons (by decide)]
  simp only [skipSpaces_append h, skipSpaces_cons (c := ']') (by decide)]

theorem readValue_emptyObject (h : Spaces bs) (rest : List Char) :
    readValue (fuel + 1) ('\x7b' :: (bs ++ '\x7d' :: rest)) = some (.object [], rest) := by
  rw [readValue, skipSpaces_cons (by decide)]
  simp only [skipSpaces_append h, skipSpaces_cons (c := '\x7d') (by decide)]

/-- No item begins with a closing bracket. -/
theorem readItems_bracket (h : skipSpaces s = ']' :: t) : readItems fuel s = none := by
  cases fuel with
  | zero => rw [readItems]
  | succ fuel =>
    cases fuel with
    | zero => simp [readItems, readValue]
    | succ fuel => simp [readItems, readValue, h, readNumber, readMagnitude, readWhole, readDigits]

/-- No member begins with a closing brace. -/
theorem readMembers_brace (h : skipSpaces s = '\x7d' :: t) : readMembers fuel s = none := by
  cases fuel with
  | zero => rw [readMembers]
  | succ fuel => simp [readMembers, h]

theorem readValue_array {items : List Json} (h : readItems fuel s = some (items, rest)) :
    readValue (fuel + 1) ('[' :: s) = some (.array items, rest) := by
  simp only [readValue, skipSpaces_cons (c := '[') (by decide)]
  -- The reader looks for an empty array first, and finds none since there are items.
  split
  · next heq =>
    rw [readItems_bracket heq] at h
    cases h
  · rw [readItems_congr (skipSpaces_skipSpaces s), h]
    rfl

theorem readValue_object {members : List (List TextUnit × Json)}
    (h : readMembers fuel s = some (members, rest)) :
    readValue (fuel + 1) ('\x7b' :: s) = some (.object members, rest) := by
  simp only [readValue, skipSpaces_cons (c := '\x7b') (by decide)]
  split
  · next heq =>
    rw [readMembers_brace heq] at h
    cases h
  · rw [readMembers_congr (skipSpaces_skipSpaces s), h]
    rfl

theorem readItems_last {item : Json} (h : readValue fuel s = some (item, bs ++ ']' :: rest))
    (hb : Spaces bs) : readItems (fuel + 1) s = some ([item], rest) := by
  rw [readItems, h]
  simp [skipSpaces_append hb, skipSpaces_cons (c := ']') (by decide)]

theorem readItems_cons {item : Json} {items : List Json}
    (h : readValue fuel s = some (item, bs ++ ',' :: t)) (hb : Spaces bs)
    (hr : readItems fuel t = some (items, rest)) :
    readItems (fuel + 1) s = some (item :: items, rest) := by
  rw [readItems, h]
  simp [skipSpaces_append hb, skipSpaces_cons (c := ',') (by decide), hr]

/-- The reader finds the key of a member, and its value. -/
theorem readMembers_key (cs : List Char) {bs' : List Char} (hb : Spaces bs) (hb' : Spaces bs')
    {value : Json} (h : readValue fuel s = some (value, t)) :
    readMembers (fuel + 1) (bs ++ TextUnit.printString (cs.map .char) ++ bs' ++ ':' :: s) =
      match skipSpaces t with
      | '\x7d' :: rest => some ([(cs.map .char, value)], rest)
      | ',' :: rest =>
        (readMembers fuel rest).bind fun r => some ((cs.map .char, value) :: r.1, r.2)
      | _ => none := by
  obtain ⟨u, hprint, hread⟩ := readString_printString cs (bs' ++ ':' :: s)
  rw [List.append_assoc, List.append_assoc, hprint, readMembers, skipSpaces_append hb,
    skipSpaces_cons (by decide)]
  simp only [hread, Option.bind_eq_bind, Option.bind_some, skipSpaces_append hb',
    skipSpaces_cons (c := ':') (by decide), h]
  rfl

end Steps

/-! ## Layouts are read -/

theorem Spaces.stops_self {bs : List Char} (h : Spaces bs) : Stops bs := by
  intro d hd
  rcases eq_of_isSpace (h d (List.mem_of_mem_head? hd)) with rfl | rfl | rfl | rfl <;> decide

theorem Spaces.stops {bs : List Char} (h : Spaces bs) {c : Char}
    (hc : c = ',' ∨ c = ']' ∨ c = '\x7d') (s : List Char) : Stops (bs ++ c :: s) := by
  cases bs with
  | nil =>
    intro d hd
    cases hd
    rcases hc with rfl | rfl | rfl <;> decide
  | cons b bs => exact h.stops_self

-- An array or an object adds two characters to what it holds and takes two levels of the reader, so
-- twice the length of a text is fuel enough for it. The induction is on the layout.
mutual

/-- A layout of a document is read as the document, up to its end. -/
theorem readValue_of_layout {s : List Char} {j : Json} (h : Layout s j) (fuel : Nat)
    {rest : List Char} (hr : Stops rest) (hf : 2 * s.length ≤ fuel) :
    readValue fuel (s ++ rest) = some (j, rest) := by
  have hpos := List.length_pos_of_ne_nil h.ne_nil
  obtain ⟨fuel, rfl⟩ := Nat.exists_eq_add_one_of_ne_zero (n := fuel) (by omega)
  cases h with
  | space hc h =>
    rw [List.cons_append, readValue_congr (skipSpaces_space hc _)]
    exact readValue_of_layout h _ hr (by simp only [List.length_cons] at hf; omega)
  | null => rfl
  | true => rfl
  | false => rfl
  | number n => exact readValue_number n hr
  | string cs => exact readValue_string cs rest
  | emptyArray hb => simpa using readValue_emptyArray hb rest
  | array h =>
    have hread := readItems_of_layout h fuel rest (by simp at hf; omega)
    simpa using readValue_array hread
  | emptyObject hb => simpa using readValue_emptyObject hb rest
  | object h =>
    have hread := readMembers_of_layout h fuel rest (by simp at hf; omega)
    simpa using readValue_object hread

theorem readItems_of_layout {s : List Char} {items : List Json} (h : ItemsLayout s items)
    (fuel : Nat) (rest : List Char) (hf : 2 * s.length + 1 ≤ fuel) :
    readItems fuel (s ++ ']' :: rest) = some (items, rest) := by
  obtain ⟨fuel, rfl⟩ := Nat.exists_eq_add_one_of_ne_zero (n := fuel) (by omega)
  cases h with
  | @last s bs item h hb =>
    have hread := readValue_of_layout h fuel (hb.stops (.inr (.inl rfl)) rest)
      (by simp at hf; omega)
    rw [List.append_assoc]
    exact readItems_last hread hb
  | @cons s bs s' item items h hb hs =>
    have hread := readValue_of_layout h fuel
      (hb.stops (.inl rfl) (s' ++ ']' :: rest)) (by simp at hf; omega)
    have hnext := readItems_of_layout hs fuel rest (by simp at hf; omega)
    simpa using readItems_cons hread hb hnext

theorem readMembers_of_layout {s : List Char} {members : List (List TextUnit × Json)}
    (h : MembersLayout s members) (fuel : Nat) (rest : List Char) (hf : 2 * s.length + 1 ≤ fuel) :
    readMembers fuel (s ++ '\x7d' :: rest) = some (members, rest) := by
  obtain ⟨fuel, rfl⟩ := Nat.exists_eq_add_one_of_ne_zero (n := fuel) (by omega)
  cases h with
  | @last s bs member h hb =>
    cases h with
    | mk cs hk hk' h =>
    have hread := readValue_of_layout h fuel (hb.stops (.inr (.inr rfl)) rest)
      (by simp at hf; omega)
    have hkey := readMembers_key cs hk hk' hread
    simpa [skipSpaces_append hb, skipSpaces_cons (c := '\x7d') (by decide)] using hkey
  | @cons s bs s' member members h hb hs =>
    cases h with
    | mk cs hk hk' h =>
    have hread := readValue_of_layout h fuel
      (hb.stops (.inl rfl) (s' ++ '\x7d' :: rest)) (by simp at hf; omega)
    have hnext := readMembers_of_layout hs fuel rest (by simp at hf; omega)
    have hkey := readMembers_key cs hk hk' hread
    simpa [skipSpaces_append hb, skipSpaces_cons (c := ',') (by decide), hnext] using hkey

end

/-- A text that holds a document, with any blanks around it, is read as the document. -/
theorem parse?_of_layout {s bs : List Char} {j : Json} (h : Layout s j) (hb : Spaces bs) :
    parse? (s ++ bs) = some j := by
  have hread := readValue_of_layout h (2 * (s ++ bs).length + 2) hb.stops_self (by simp; omega)
  have hrest := skipSpaces_append hb []
  rw [List.append_nil] at hrest
  rw [parse?, hread]
  dsimp only
  rw [hrest]
  rfl

/-! ## What is printed is a layout -/

theorem exists_chars {s : List TextUnit} (h : (TextUnit.chars? s).isSome = true) :
    ∃ cs : List Char, s = cs.map .char := by
  induction s with
  | nil => exact ⟨[], rfl⟩
  | cons u s ih =>
    cases u with
    | char c =>
      obtain ⟨cs, rfl⟩ := ih (by simpa [TextUnit.chars?] using h)
      exact ⟨c :: cs, rfl⟩
    | half code => cases h

theorem spaces_nil : Spaces [] := by
  intro c hc
  cases hc

theorem spaces_newLine (depth : Nat) : Spaces (newLine depth) := by
  intro c hc
  rcases List.mem_cons.1 hc with rfl | hc
  · rfl
  · cases List.eq_of_mem_replicate hc
    rfl

theorem Layout.spaces {bs s : List Char} {j : Json} (hb : Spaces bs) (h : Layout s j) :
    Layout (bs ++ s) j := by
  induction bs with
  | nil => exact h
  | cons b bs ih =>
    rw [Spaces, List.forall_mem_cons] at hb
    exact .space hb.1 (ih hb.2)

theorem MemberLayout.of_plain {bs s : List Char} {key : List TextUnit} {value : Json}
    (hb : Spaces bs) (hk : (TextUnit.chars? key).isSome = true) (h : Layout s value) :
    MemberLayout (bs ++ TextUnit.printString key ++ ':' :: s) (key, value) := by
  obtain ⟨cs, rfl⟩ := exists_chars hk
  have hmember := MemberLayout.mk cs hb spaces_nil h
  rwa [List.append_nil] at hmember

mutual

theorem layout_compact : ∀ (j : Json), j.isPlain = true → Layout j.compact j
  | .null, _ => .null
  | .bool true, _ => .true
  | .bool false, _ => .false
  | .number n, _ => .number n
  | .string s, h => by
    obtain ⟨cs, rfl⟩ := exists_chars h
    exact .string cs
  | .array [], _ => .emptyArray spaces_nil
  | .array (item :: items), h => .array (itemsLayout_compact (item :: items) h (by simp))
  | .object [], _ => .emptyObject spaces_nil
  | .object (member :: members), h =>
    .object (membersLayout_compact (member :: members) h (by simp))

theorem itemsLayout_compact : ∀ (items : List Json), isPlainItems items = true → items ≠ [] →
    ItemsLayout (compactItems items) items
  | [], _, hne => absurd rfl hne
  | [item], h, _ => by
    rw [isPlainItems, Bool.and_eq_true] at h
    have hlast := ItemsLayout.last (layout_compact item h.1) spaces_nil
    rwa [List.append_nil] at hlast
  | item :: next :: items, h, _ => by
    rw [isPlainItems, Bool.and_eq_true] at h
    have hrest := itemsLayout_compact (next :: items) h.2 (by simp)
    have hcons := ItemsLayout.cons (layout_compact item h.1) spaces_nil hrest
    rwa [List.append_nil] at hcons

theorem membersLayout_compact : ∀ (members : List (List TextUnit × Json)),
    isPlainMembers members = true → members ≠ [] → MembersLayout (compactMembers members) members
  | [], _, hne => absurd rfl hne
  | [(key, value)], h, _ => by
    rw [isPlainMembers, Bool.and_eq_true, Bool.and_eq_true] at h
    have hmember := MemberLayout.of_plain spaces_nil h.1.1 (layout_compact value h.1.2)
    have hlast := MembersLayout.last hmember spaces_nil
    rwa [List.append_nil] at hlast
  | (key, value) :: next :: members, h, _ => by
    rw [isPlainMembers, Bool.and_eq_true, Bool.and_eq_true] at h
    have hmember := MemberLayout.of_plain spaces_nil h.1.1 (layout_compact value h.1.2)
    have hrest := membersLayout_compact (next :: members) h.2 (by simp)
    have hcons := MembersLayout.cons hmember spaces_nil hrest
    rwa [List.append_nil] at hcons

end

mutual

theorem layout_prettyAt : ∀ (j : Json) (depth : Nat), j.isPlain = true →
    Layout (prettyAt depth j) j
  | .null, _, _ => .null
  | .bool true, _, _ => .true
  | .bool false, _, _ => .false
  | .number n, _, _ => .number n
  | .string s, _, h => by
    obtain ⟨cs, rfl⟩ := exists_chars h
    exact .string cs
  | .array [], _, _ => .emptyArray spaces_nil
  | .array (item :: items), depth, h =>
    .array (itemsLayout_pretty (item :: items) (depth + 1) h (by simp)
      (spaces_newLine depth))
  | .object [], _, _ => .emptyObject spaces_nil
  | .object (member :: members), depth, h =>
    .object (membersLayout_pretty (member :: members) (depth + 1) h (by simp)
      (spaces_newLine depth))

theorem itemsLayout_pretty : ∀ (items : List Json) (depth : Nat) {bs : List Char},
    isPlainItems items = true → items ≠ [] → Spaces bs →
    ItemsLayout (prettyItems depth items ++ bs) items
  | [], _, _, _, hne, _ => absurd rfl hne
  | [item], depth, _, h, _, hb => by
    rw [isPlainItems, Bool.and_eq_true] at h
    exact .last ((layout_prettyAt item depth h.1).spaces (spaces_newLine depth)) hb
  | item :: next :: items, depth, bs, h, _, hb => by
    rw [isPlainItems, Bool.and_eq_true] at h
    have hitem := (layout_prettyAt item depth h.1).spaces (spaces_newLine depth)
    have hrest := itemsLayout_pretty (next :: items) depth h.2 (by simp) hb
    simpa [prettyItems] using ItemsLayout.cons hitem spaces_nil hrest

theorem membersLayout_pretty : ∀ (members : List (List TextUnit × Json)) (depth : Nat)
    {bs : List Char}, isPlainMembers members = true → members ≠ [] → Spaces bs →
    MembersLayout (prettyMembers depth members ++ bs) members
  | [], _, _, _, hne, _ => absurd rfl hne
  | [(key, value)], depth, _, h, _, hb => by
    rw [isPlainMembers, Bool.and_eq_true, Bool.and_eq_true] at h
    have hvalue := Layout.space (c := ' ') rfl (layout_prettyAt value depth h.1.2)
    have hmember := MemberLayout.of_plain (spaces_newLine depth) h.1.1 hvalue
    simpa [prettyMembers] using MembersLayout.last hmember hb
  | (key, value) :: next :: members, depth, bs, h, _, hb => by
    rw [isPlainMembers, Bool.and_eq_true, Bool.and_eq_true] at h
    have hvalue := Layout.space (c := ' ') rfl (layout_prettyAt value depth h.1.2)
    have hmember := MemberLayout.of_plain (spaces_newLine depth) h.1.1 hvalue
    have hrest := membersLayout_pretty (next :: members) depth h.2 (by simp) hb
    simpa [prettyMembers] using MembersLayout.cons hmember spaces_nil hrest

end

/-- A document printed without blanks is read back. -/
theorem parse?_compact {j : Json} (h : j.isPlain = true) : parse? j.compact = some j := by
  have hread := parse?_of_layout (layout_compact j h) spaces_nil
  rwa [List.append_nil] at hread

/-- A document printed on many lines is read back, whether or not there is an end to the last. -/
theorem parse?_pretty {j : Json} (h : j.isPlain = true) {bs : List Char} (hb : Spaces bs) :
    parse? (j.pretty ++ bs) = some j :=
  parse?_of_layout (layout_prettyAt j 0 h) hb

end Json
end Intcode
