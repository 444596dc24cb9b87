import Intcode.Command.Poke
import Intcode.Proofs.Numerals

/-!
# Intcode.Proofs.Patches

Which texts are patches of memory, and what is told of those that are not.

The first equals sign divides a patch. In front of it stands an address and behind it a word, each
with blanks around it or none. `Padded` says so without trimming.

* `padded_iff`            : blanks around a numeral are what is trimmed.
* `parse_eq_ok_iff_parts` : a text is read as a patch just when its two parts are numerals of it.
* `parse_exact`           : what is read, and which part is told when nothing is read.
-/

namespace Intcode
namespace Command

open Text

/-- A numeral of the kind stands in the text, with blanks around it or none. -/
inductive Padded (numeral : List Char → Prop) : List Char → Prop where
  | mk {before token after : List Char} :
      (∀ c ∈ before, isBlank c = true) → numeral token → (∀ c ∈ after, isBlank c = true) →
      Padded numeral (before ++ token ++ after)

/-- A numeral of the address. No minus sign stands in it, not even in front of a zero. -/
def SpellsAddress (a : Address) (cs : List Char) : Prop := Spells cs a.toNat ∧ '-' ∉ cs

/-- A numeral of the word. -/
def SpellsWord (w : Word) (cs : List Char) : Prop := Spells cs w.toInt

/-! ## Parts -/

section

variable {numeral : List Char → Prop} {cs : List Char}

/-- Blanks around a numeral are what is trimmed. -/
theorem padded_iff (h : ∀ token, numeral token → ∃ z, Spells token z) :
    Padded numeral cs ↔ numeral (trim cs) := by
  constructor
  · intro hcs
    cases hcs with
    | mk hb ht ha =>
      obtain ⟨z, hz⟩ := h _ ht
      rwa [hz.trim_eq hb ha]
  · intro ht
    obtain ⟨before, after, hcs, hb, ha⟩ := exists_eq_trim cs
    rw [hcs]
    exact .mk hb ht ha

theorem Padded.equals_not_mem (hcs : Padded numeral cs)
    (h : ∀ token, numeral token → ∃ z, Spells token z) : '=' ∉ cs := by
  cases hcs with
  | mk hb ht ha =>
    obtain ⟨z, hz⟩ := h _ ht
    have hbefore := not_mem_of_blank (c := '=') (by decide) hb
    have htoken := hz.not_mem (c := '=') (by decide)
    have hafter := not_mem_of_blank (c := '=') (by decide) ha
    simp [hbefore, htoken, hafter]

end

theorem SpellsAddress.spelled {a : Address} {token : List Char} (h : SpellsAddress a token) :
    ∃ z, Spells token z :=
  ⟨a.toNat, h.1⟩

theorem SpellsWord.spelled {w : Word} {token : List Char} (h : SpellsWord w token) :
    ∃ z, Spells token z :=
  ⟨w.toInt, h⟩

theorem padded_address_iff {a : Address} {cs : List Char} :
    Padded (SpellsAddress a) cs ↔ readUnsigned (trim cs) = .ok a :=
  (padded_iff fun _ h => h.spelled).trans readUnsigned_eq_ok_iff.symm

theorem padded_word_iff {w : Word} {cs : List Char} :
    Padded (SpellsWord w) cs ↔ readSigned (trim cs) = .ok w :=
  (padded_iff fun _ h => h.spelled).trans readSigned_eq_ok_iff.symm

/-- An address in decimal has no sign at all. -/
theorem spellsAddress_decimalChars (a : Address) : SpellsAddress a (decimalChars a.toNat) := by
  refine ⟨spells_decimalChars a.toNat, ?_⟩
  rw [decimalChars, if_neg (by omega)]
  exact (digits_toDigits _).not_mem (by decide)

/-! ## Patches -/

theorem exists_error {ε α : Type} {r : Except ε α} (h : ∀ a, r ≠ .ok a) : ∃ e, r = .error e := by
  cases r with
  | error e => exact ⟨e, rfl⟩
  | ok a => exact absurd rfl (h a)

namespace Poke

variable {front back : List Char}

theorem parse_of_not_mem {text : List Char} (h : '=' ∉ text) :
    parse text = .error (.noEquals text) := by
  rw [parse, cut_of_not_mem h]

theorem parse_of_address_flaw {flaw : NumeralFlaw} (h : '=' ∉ front)
    (hflaw : readUnsigned (trim front) = .error flaw) :
    parse (front ++ '=' :: back) = .error (.badAddress front flaw) := by
  simp only [parse, cut_append h, hflaw]

theorem parse_of_word_flaw {a : Address} {flaw : NumeralFlaw}
    (ha : Padded (SpellsAddress a) front) (hflaw : readSigned (trim back) = .error flaw) :
    parse (front ++ '=' :: back) = .error (.badWord back flaw) := by
  have h := ha.equals_not_mem fun _ h => h.spelled
  simp only [parse, cut_append h, padded_address_iff.1 ha, hflaw]

theorem parse_of_parts {p : Poke} (ha : Padded (SpellsAddress p.address) front)
    (hw : Padded (SpellsWord p.word) back) : parse (front ++ '=' :: back) = .ok p := by
  have h := ha.equals_not_mem fun _ h => h.spelled
  simp only [parse, cut_append h, padded_address_iff.1 ha, padded_word_iff.1 hw]

/-- A text is read as a patch just when its two parts are numerals of it. -/
theorem parse_eq_ok_iff_parts {text : List Char} {p : Poke} :
    parse text = .ok p ↔
      ∃ front back, text = front ++ '=' :: back ∧ '=' ∉ front ∧
        Padded (SpellsAddress p.address) front ∧ Padded (SpellsWord p.word) back := by
  constructor
  · intro hp
    by_cases hmem : '=' ∈ text
    · -- The parts are looked at in their order, and each flaw ends the reading.
      obtain ⟨front, back, rfl, h⟩ := List.eq_append_cons_of_mem hmem
      cases ha : readUnsigned (trim front) with
      | error flaw =>
        rw [parse_of_address_flaw h ha] at hp
        cases hp
      | ok a =>
        have ha := padded_address_iff.2 ha
        cases hw : readSigned (trim back) with
        | error flaw =>
          rw [parse_of_word_flaw ha hw] at hp
          cases hp
        | ok w =>
          have hw := padded_word_iff.2 hw
          rw [parse_of_parts (p := ⟨a, w⟩) ha hw] at hp
          cases hp
          exact ⟨front, back, rfl, h, ha, hw⟩
    · rw [parse_of_not_mem hmem] at hp
      cases hp
  · rintro ⟨front, back, rfl, -, ha, hw⟩
    exact parse_of_parts ha hw

/-- There is one equals sign in a patch, since its numerals have none. -/
theorem count_equals_of_parse {text : List Char} {p : Poke} (h : parse text = .ok p) :
    text.count '=' = 1 := by
  obtain ⟨front, back, rfl, hfront, -, hw⟩ := parse_eq_ok_iff_parts.1 h
  have hback := hw.equals_not_mem fun _ h => h.spelled
  simp [List.count_append, List.count_eq_zero.2 hfront, List.count_eq_zero.2 hback]

/-- **Patches are read exactly.** A text is read as a patch just when the address stands in front of
its first equals sign and the word behind it, as numerals with blanks around them or none, the
address without a minus sign. So an address and a word in decimal are read back, and a text with a
second equals sign is no patch. When there is no equals sign, the whole text is told; when no
address stands in front of it, that part is told as it was written, whatever comes behind; only
where there is an address, the part behind is told. -/
theorem parse_exact :
    (∀ (text : List Char) (p : Poke), parse text = .ok p ↔
      ∃ front back, text = front ++ '=' :: back ∧ '=' ∉ front ∧
        Padded (SpellsAddress p.address) front ∧ Padded (SpellsWord p.word) back) ∧
    (∀ (p : Poke) (b₁ a₁ b₂ a₂ : List Char), (∀ c ∈ b₁ ++ a₁ ++ b₂ ++ a₂, isBlank c = true) →
      parse ((b₁ ++ decimalChars p.address.toNat ++ a₁) ++
        '=' :: (b₂ ++ decimalChars p.word.toInt ++ a₂)) = .ok p) ∧
    (∀ front middle back : List Char, ∃ flaw,
      parse (front ++ '=' :: (middle ++ '=' :: back)) = .error flaw) ∧
    (∀ text : List Char, '=' ∉ text → parse text = .error (.noEquals text)) ∧
    (∀ front back : List Char, '=' ∉ front → (∀ a, ¬ Padded (SpellsAddress a) front) →
      ∃ flaw, readUnsigned (trim front) = .error flaw ∧
        parse (front ++ '=' :: back) = .error (.badAddress front flaw) ∧
        (PokeFlaw.badAddress front flaw).message =
          "invalid address '" ++ String.ofList front ++ "': " ++ flaw.message) ∧
    ∀ (front back : List Char) (a : Address), Padded (SpellsAddress a) front →
      (∀ w, ¬ Padded (SpellsWord w) back) →
      ∃ flaw, readSigned (trim back) = .error flaw ∧
        parse (front ++ '=' :: back) = .error (.badWord back flaw) ∧
        (PokeFlaw.badWord back flaw).message =
          "invalid value '" ++ String.ofList back ++ "': " ++ flaw.message := by
  refine ⟨fun text p => parse_eq_ok_iff_parts, fun p b₁ a₁ b₂ a₂ hblank => ?_,
    fun front middle back => ?_, fun text => parse_of_not_mem, fun front back h hno => ?_,
    fun front back a ha hno => ?_⟩
  · simp only [List.forall_mem_append] at hblank
    obtain ⟨⟨⟨hb₁, ha₁⟩, hb₂⟩, ha₂⟩ := hblank
    exact parse_of_parts (.mk hb₁ (spellsAddress_decimalChars p.address) ha₁)
      (.mk hb₂ (spells_decimalChars p.word.toInt) ha₂)
  · refine exists_error fun p hp => ?_
    have hcount := count_equals_of_parse hp
    simp [List.count_append] at hcount
    omega
  · obtain ⟨flaw, hflaw⟩ := exists_error fun a ha => hno a (padded_address_iff.2 ha)
    exact ⟨flaw, hflaw, parse_of_address_flaw h hflaw, rfl⟩
  · obtain ⟨flaw, hflaw⟩ := exists_error fun w hw => hno w (padded_word_iff.2 hw)
    exact ⟨flaw, hflaw, parse_of_word_flaw ha hflaw, rfl⟩

/-- The highest address and the least word, in decimal with blanks around them; a text that is not
divided; two parts that are both no numerals; a second equals sign behind an address. -/
theorem parse_exact_limits :
    parse " 18446744073709551615\n=\t-9223372036854775808".toList =
      .ok ⟨18446744073709551615, -9223372036854775808⟩ ∧
    ('=' ∉ "12".toList ∧ parse "12".toList = .error (.noEquals "12".toList)) ∧
    ((∀ a, ¬ Padded (SpellsAddress a) "-0 ".toList) ∧
      parse "-0 =x".toList = .error (.badAddress "-0 ".toList .badDigit) ∧
      (PokeFlaw.badAddress "-0 ".toList .badDigit).message =
        "invalid address '-0 ': invalid digit found in string") ∧
    Padded (SpellsAddress 7) " +7".toList ∧ (∀ w, ¬ Padded (SpellsWord w) "1=2".toList) ∧
      parse " +7=1=2".toList = .error (.badWord "1=2".toList .badDigit) := by
  obtain ⟨-, hdecimal, -, hundivided, haddress, hword⟩ := parse_exact
  have hminus : readUnsigned (trim "-0 ".toList) = .error .badDigit := rfl
  have hseven : readUnsigned (trim " +7".toList) = .ok 7 := rfl
  have hsecond : readSigned (trim "1=2".toList) = .error .badDigit := rfl
  have hnoAddress : ∀ a, ¬ Padded (SpellsAddress a) "-0 ".toList := by
    intro a ha
    rw [padded_address_iff, hminus] at ha
    cases ha
  have hnoWord : ∀ w, ¬ Padded (SpellsWord w) "1=2".toList := by
    intro w hw
    rw [padded_word_iff, hsecond] at hw
    cases hw
  refine ⟨?_, ⟨by decide, hundivided _ (by decide)⟩, ⟨hnoAddress, ?_⟩,
    padded_address_iff.2 hseven, hnoWord, ?_⟩
  · exact hdecimal ⟨18446744073709551615, -9223372036854775808⟩ [' '] ['\n'] ['\t'] []
      (by simp [isBlank, blanks])
  · obtain ⟨flaw, hflaw, hp, hmessage⟩ :=
      haddress "-0 ".toList "x".toList (by decide) hnoAddress
    rw [hminus] at hflaw
    cases hflaw
    exact ⟨hp, hmessage⟩
  · obtain ⟨flaw, hflaw, hp, -⟩ :=
      hword " +7".toList "1=2".toList 7 (padded_address_iff.2 hseven) hnoWord
    rw [hsecond] at hflaw
    cases hflaw
    exact hp

end Poke
end Command
end Intcode
