import Intcode.Text.Blank
import Intcode.Text.Numeral
import Intcode.Word

/-!
# Intcode.Proofs.Numerals

Which texts are numerals, and of what. `Spells` says it without reading: a sign or none, at least
one digit, and the value of the digits. The range of a word comes in only when a numeral is read.

* `readSigned_eq_ok_iff`   : a text is read as a word just when it spells the word.
* `readUnsigned_eq_ok_iff` : the same for an address, which has no minus sign.
* `spells_decimalChars`    : an integer written in decimal is spelled.
-/

namespace Intcode
namespace Text

/-- Some digits, and nothing else. -/
def Digits (ds : List Char) : Prop := ds ≠ [] ∧ ∀ c ∈ ds, c.isDigit = true

/-- The text is a numeral of the integer. -/
inductive Spells : List Char → Int → Prop where
  | plain {ds : List Char} {z : Int} :
      Digits ds → z = Nat.ofDigitChars 10 ds 0 → Spells ds z
  | plus {ds : List Char} {z : Int} :
      Digits ds → z = Nat.ofDigitChars 10 ds 0 → Spells ('+' :: ds) z
  | minus {ds : List Char} {z : Int} :
      Digits ds → z = -Nat.ofDigitChars 10 ds 0 → Spells ('-' :: ds) z

/-! ## Digits -/

theorem not_digits_nil : ¬ Digits [] := by
  rintro ⟨h, -⟩
  exact h rfl

theorem not_digits_cons {c : Char} {ds : List Char} (hc : c.isDigit = false) :
    ¬ Digits (c :: ds) := by
  rintro ⟨-, h⟩
  have hd := h c (by simp)
  simp [hc] at hd

theorem Digits.not_mem {ds : List Char} (h : Digits ds) {c : Char} (hc : c.isDigit = false) :
    c ∉ ds := by
  intro hmem
  have hd := h.2 c hmem
  simp [hc] at hd

theorem le_ofDigitChars (value : Nat) (ds : List Char) :
    value ≤ Nat.ofDigitChars 10 ds value := by
  induction ds generalizing value with
  | nil => simp
  | cons c rest ih =>
    rw [Nat.ofDigitChars_cons]
    have h := ih (10 * value + (c.toNat - '0'.toNat))
    omega

/-- The value only grows from digit to digit, so it is enough to look at it once. -/
theorem readDigits_eq_ok_iff {bound value n : Nat} {beyond : NumeralFlaw} {ds : List Char}
    (h : value ≤ bound) :
    readDigits bound beyond value ds = .ok n ↔
      (∀ c ∈ ds, c.isDigit = true) ∧ n = Nat.ofDigitChars 10 ds value ∧ n ≤ bound := by
  induction ds generalizing value with
  | nil =>
    simp only [readDigits, Nat.ofDigitChars_nil, Except.ok.injEq]
    constructor
    · rintro rfl
      exact ⟨by simp, rfl, h⟩
    · rintro ⟨-, rfl, -⟩
      rfl
  | cons c rest ih =>
    rw [readDigits, Nat.ofDigitChars_cons, List.forall_mem_cons, Nat.mul_comm 10 value]
    by_cases hc : c.isDigit = true
    · rw [if_pos hc]
      dsimp only
      generalize value * 10 + (c.toNat - '0'.toNat) = value'
      by_cases hb : bound < value'
      · have hle := le_ofDigitChars value' rest
        rw [if_pos hb]
        constructor
        · intro h'
          cases h'
        · rintro ⟨-, rfl, hn⟩
          omega
      · rw [if_neg hb, ih (by omega)]
        simp [hc]
    · simp [hc]

theorem readMagnitude_eq_ok_iff {bound n : Nat} {beyond : NumeralFlaw} {ds : List Char} :
    readMagnitude bound beyond ds = .ok n ↔
      Digits ds ∧ n = Nat.ofDigitChars 10 ds 0 ∧ n ≤ bound := by
  cases ds with
  | nil => simp [readMagnitude, not_digits_nil]
  | cons c rest =>
    rw [readMagnitude, readDigits_eq_ok_iff (Nat.zero_le bound)]
    simp [Digits]

/-! ## Signs -/

theorem map_readMagnitude_eq_ok_iff {α : Type} {bound : Nat} {beyond : NumeralFlaw}
    {ds : List Char} {f : Nat → α} {a : α} :
    (readMagnitude bound beyond ds).map f = .ok a ↔
      Digits ds ∧ Nat.ofDigitChars 10 ds 0 ≤ bound ∧ f (Nat.ofDigitChars 10 ds 0) = a := by
  constructor
  · intro h
    cases hr : readMagnitude bound beyond ds with
    | error flaw =>
      rw [hr] at h
      cases h
    | ok n =>
      rw [hr] at h
      obtain ⟨hd, rfl, hn⟩ := readMagnitude_eq_ok_iff.1 hr
      cases h
      exact ⟨hd, hn, rfl⟩
  · rintro ⟨hd, hn, rfl⟩
    rw [readMagnitude_eq_ok_iff.2 ⟨hd, rfl, hn⟩]
    rfl

theorem ofNat_eq_iff {n : Nat} {w : Word} :
    (n ≤ Int64.size / 2 - 1 ∧ Int64.ofNat n = w) ↔ w.toInt = n := by
  have hsize : Int64.size / 2 - 1 = 2 ^ 63 - 1 := rfl
  have hlt := w.toInt_lt
  constructor
  · rintro ⟨hn, rfl⟩
    exact Int64.toInt_ofNat_of_lt (by omega)
  · intro h
    refine ⟨by omega, ?_⟩
    rw [← Int64.toInt_inj, h]
    exact Int64.toInt_ofNat_of_lt (by omega)

theorem ofInt_neg_eq_iff {n : Nat} {w : Word} :
    (n ≤ Int64.size / 2 ∧ Int64.ofInt (-(n : Int)) = w) ↔ w.toInt = -n := by
  have hsize : Int64.size / 2 = 2 ^ 63 := rfl
  have hle := w.le_toInt
  constructor
  · rintro ⟨hn, rfl⟩
    exact Int64.toInt_ofInt_of_le (by omega) (by omega)
  · intro h
    refine ⟨by omega, ?_⟩
    rw [← Int64.toInt_inj, h]
    exact Int64.toInt_ofInt_of_le (by omega) (by omega)

theorem readSigned_minus (rest : List Char) :
    readSigned ('-' :: rest) =
      (readMagnitude (Int64.size / 2) .tooSmall rest).map fun n : Nat =>
        Int64.ofInt (-(n : Int)) := by
  rw [readSigned]
  cases readMagnitude (Int64.size / 2) .tooSmall rest <;> rfl

/-- A text is read as a word just when it spells the word. -/
theorem readSigned_eq_ok_iff {cs : List Char} {w : Word} :
    readSigned cs = .ok w ↔ Spells cs w.toInt := by
  unfold readSigned
  split
  · -- no character
    constructor
    · intro h
      cases h
    · intro h
      cases h with
      | plain hd => exact absurd hd not_digits_nil
  · next rest =>
    show readSigned ('-' :: rest) = .ok w ↔ _
    rw [readSigned_minus, map_readMagnitude_eq_ok_iff, ofInt_neg_eq_iff]
    constructor
    · rintro ⟨hd, hw⟩
      exact .minus hd hw
    · intro h
      cases h with
      | plain hd => exact absurd hd (not_digits_cons (by decide))
      | minus hd hw => exact ⟨hd, hw⟩
  · next rest =>
    rw [map_readMagnitude_eq_ok_iff, ofNat_eq_iff]
    constructor
    · rintro ⟨hd, hw⟩
      exact .plus hd hw
    · intro h
      cases h with
      | plain hd => exact absurd hd (not_digits_cons (by decide))
      | plus hd hw => exact ⟨hd, hw⟩
  · next c rest hminus hplus =>
    rw [map_readMagnitude_eq_ok_iff, ofNat_eq_iff]
    constructor
    · rintro ⟨hd, hw⟩
      exact .plain hd hw
    · intro h
      cases h with
      | plain hd hw => exact ⟨hd, hw⟩
      | plus => exact absurd rfl hplus
      | minus => exact absurd rfl hminus

theorem ofNat_eq_iff_toNat {n : Nat} {a : Address} :
    (n ≤ UInt64.size - 1 ∧ UInt64.ofNat n = a) ↔ (a.toNat : Int) = n := by
  have hsize : UInt64.size - 1 = 2 ^ 64 - 1 := rfl
  have hlt := a.toNat_lt
  constructor
  · rintro ⟨hn, rfl⟩
    rw [UInt64.toNat_ofNat_of_lt' (by simp only [UInt64.size]; omega)]
  · intro h
    refine ⟨by omega, ?_⟩
    rw [← Int.ofNat_inj.1 h, UInt64.ofNat_toNat]

/-- A text is read as an address just when it spells the address without a minus sign. -/
theorem readUnsigned_eq_ok_iff {cs : List Char} {a : Address} :
    readUnsigned cs = .ok a ↔ Spells cs a.toNat ∧ '-' ∉ cs := by
  unfold readUnsigned
  split
  · -- no character
    constructor
    · intro h
      cases h
    · rintro ⟨h, -⟩
      cases h with
      | plain hd => exact absurd hd not_digits_nil
  · next rest =>
    rw [map_readMagnitude_eq_ok_iff, ofNat_eq_iff_toNat]
    constructor
    · rintro ⟨hd, ha⟩
      exact ⟨.plus hd ha, by simp [hd.not_mem]⟩
    · rintro ⟨h, -⟩
      cases h with
      | plain hd => exact absurd hd (not_digits_cons (by decide))
      | plus hd ha => exact ⟨hd, ha⟩
  · next c rest hplus =>
    rw [map_readMagnitude_eq_ok_iff, ofNat_eq_iff_toNat]
    constructor
    · rintro ⟨hd, ha⟩
      exact ⟨.plain hd ha, hd.not_mem (by decide)⟩
    · rintro ⟨h, hminus⟩
      cases h with
      | plain hd ha => exact ⟨hd, ha⟩
      | plus => exact absurd rfl hplus
      | minus => simp at hminus

theorem digits_toDigits (n : Nat) : Digits (Nat.toDigits 10 n) := by
  refine ⟨Nat.toDigits_ne_nil, ?_⟩
  intro c hc
  exact Nat.isDigit_of_mem_toDigits (by decide) (by decide) hc

/-- An integer written in decimal is spelled. -/
theorem spells_decimalChars (z : Int) : Spells (decimalChars z) z := by
  rw [decimalChars]
  split
  · next hz => exact .minus (digits_toDigits _) (by rw [Nat.ofDigitChars_ten_toDigits]; omega)
  · next hz => exact .plain (digits_toDigits _) (by rw [Nat.ofDigitChars_ten_toDigits]; omega)

/-! ## What a numeral tells -/

theorem toDigits_inj {a b : Nat} (h : Nat.toDigits 10 a = Nat.toDigits 10 b) : a = b := by
  have hv := congrArg (Nat.ofDigitChars 10 · 0) h
  simpa only [Nat.ofDigitChars_ten_toDigits] using hv

/-- A text is the numeral of one word at most. -/
theorem Spells.unique {cs : List Char} {v w : Word} (hv : Spells cs v.toInt)
    (hw : Spells cs w.toInt) : v = w := by
  have h := readSigned_eq_ok_iff.2 hv
  rw [readSigned_eq_ok_iff.2 hw] at h
  cases h
  rfl

theorem decimalChars_inj {v w : Word} (h : decimalChars v.toInt = decimalChars w.toInt) :
    v = w :=
  (spells_decimalChars v.toInt).unique (h ▸ spells_decimalChars w.toInt)

/-! ## What a numeral is made of -/

theorem Spells.ne_nil {cs : List Char} {z : Int} (h : Spells cs z) : cs ≠ [] := by
  cases h with
  | plain hd => exact hd.1
  | plus => simp
  | minus => simp

theorem Spells.mem {cs : List Char} {z : Int} (h : Spells cs z) {c : Char} (hc : c ∈ cs) :
    c.isDigit = true ∨ c = '+' ∨ c = '-' := by
  cases h with
  | plain hd => exact .inl (hd.2 c hc)
  | plus hd =>
    rcases List.mem_cons.1 hc with rfl | hc
    · simp
    · exact .inl (hd.2 c hc)
  | minus hd =>
    rcases List.mem_cons.1 hc with rfl | hc
    · simp
    · exact .inl (hd.2 c hc)

theorem isBlank_of_isDigit {c : Char} (h : c.isDigit = true) : isBlank c = false := by
  simp only [Char.isDigit, Bool.and_eq_true, decide_eq_true_eq, UInt32.le_iff_toNat_le] at h
  have hlow : 48 ≤ c.toNat := h.1
  have hhigh : c.toNat ≤ 57 := h.2
  simp [isBlank, blanks]
  omega

theorem Spells.not_blank {cs : List Char} {z : Int} (h : Spells cs z) :
    ∀ c ∈ cs, isBlank c = false := by
  intro c hc
  rcases h.mem hc with hd | rfl | rfl
  · exact isBlank_of_isDigit hd
  · decide
  · decide

/-- Blanks around a numeral are all that is trimmed. -/
theorem Spells.trim_eq {before token after : List Char} {z : Int} (h : Spells token z)
    (hbefore : ∀ c ∈ before, isBlank c = true) (hafter : ∀ c ∈ after, isBlank c = true) :
    trim (before ++ token ++ after) = token := by
  refine trim_append hbefore hafter ?_ ?_
  · intro c hc
    exact h.not_blank c (List.mem_of_head? hc)
  · intro c hc
    exact h.not_blank c (List.mem_of_getLast? hc)

theorem Spells.not_mem {cs : List Char} {z : Int} (h : Spells cs z) {c : Char}
    (hc : c.isDigit = false ∧ c ≠ '+' ∧ c ≠ '-') : c ∉ cs := by
  intro hmem
  rcases h.mem hmem with hd | rfl | rfl
  · rw [hc.1] at hd
    cases hd
  · exact hc.2.1 rfl
  · exact hc.2.2 rfl

theorem Spells.comma_not_mem {cs : List Char} {z : Int} (h : Spells cs z) : ',' ∉ cs :=
  h.not_mem (by decide)

end Text
end Intcode
