import Mathlib.Data.Nat.Digits.Lemmas
import Intcode.Proofs.Decode
import Intcode.Proofs.Plan

/-!
# Intcode.Proofs.Encoding

Instruction words digit by digit, and which digit is to blame when a word is no instruction.

The two last digits of a word are the opcode and the others are mode digits, the one of the first
parameter rightmost. A mode digit offends when it is no mode, or when it stands where no instruction
has a parameter; what it says does not matter then, and it may be a zero inside a longer word.

* `getElem?_modeDigits`  : the mode digits of a word, by division.
* `Refused.unique`       : a word is refused for one reason only.
* `decode_eq_error_iff`  : a word is refused for its opcode, or for its first digit that offends.
* `decode_exact`         : all that decoding does, in both directions.
-/

namespace Intcode
namespace Instruction

/-- The digits of a word in front of its opcode, that of the first parameter first. -/
def modeDigits (word : Word) : List Nat := Nat.digits 10 (word.toInt.toNat / 100)

/-- A digit of a parameter is wrong: it is no mode, or there is no such parameter. Parameters count
from zero. -/
def Offends (parameter digit : Nat) : Prop := 2 < digit ∨ 3 ≤ parameter

/-- Of the digits that offend, `digit` is the one furthest to the right. -/
structure FirstOffence (digits : List Nat) (parameter digit : Nat) : Prop where
  found : digits[parameter]? = some digit
  offends : Offends parameter digit
  first : ∀ i d, i < parameter → digits[i]? = some d → ¬ Offends i d

/-- What is wrong with a word that is no instruction. The opcode comes before the modes. -/
inductive Refused (word : Word) : Fault → Prop where
  | opcode : (word.toInt ≤ 0 ∨ ∀ op : Opcode, word.toInt % 100 ≠ op.code) →
      Refused word (.unknownOpcode word)
  | mode {op : Opcode} {parameter digit : Nat} :
      0 < word.toInt → word.toInt % 100 = op.code →
      FirstOffence (modeDigits word) parameter digit →
      Refused word (.unknownMode word parameter digit)

/-! ## Digits -/

theorem getElem?_modeDigits {word : Word} {i d : Nat} :
    (modeDigits word)[i]? = some d ↔
      10 ^ i ≤ word.toInt.toNat / 100 ∧ d = word.toInt.toNat / 100 / 10 ^ i % 10 := by
  have hlen := Nat.lt_digits_length_iff (b := 10) (k := i) (by decide) (word.toInt.toNat / 100)
  have hget := Nat.getD_digits (word.toInt.toNat / 100) i (b := 10) (by decide)
  rw [List.getD_eq_getElem?_getD] at hget
  rw [modeDigits, ← hlen, ← hget]
  constructor
  · intro h
    obtain ⟨hi, -⟩ := List.getElem?_eq_some_iff.1 h
    exact ⟨hi, by rw [h]; rfl⟩
  · rintro ⟨hi, rfl⟩
    rw [List.getElem?_eq_getElem hi]
    rfl

theorem FirstOffence.unique {digits : List Nat} {i j d c : Nat} (h : FirstOffence digits i d)
    (h' : FirstOffence digits j c) : i = j ∧ d = c := by
  have hij : i = j := by
    rcases Nat.lt_trichotomy i j with hlt | heq | hgt
    · exact absurd h.offends (h'.first i d hlt h.found)
    · exact heq
    · exact absurd h'.offends (h.first j c hgt h'.found)
  subst hij
  have hd := h.found.symm.trans h'.found
  exact ⟨rfl, Option.some.inj hd⟩

theorem Refused.unique {word : Word} {fault fault' : Fault} (h : Refused word fault)
    (h' : Refused word fault') : fault = fault' := by
  cases h with
  | opcode hop =>
    cases h' with
    | opcode _ => rfl
    | mode hpos hcode _ =>
      rcases hop with hneg | hnone
      · omega
      · exact absurd hcode (hnone _)
  | mode hpos hcode hfirst =>
    cases h' with
    | opcode hop =>
      rcases hop with hneg | hnone
      · omega
      · exact absurd hcode (hnone _)
    | mode _ _ hfirst' =>
      obtain ⟨rfl, rfl⟩ := hfirst.unique hfirst'
      rfl

/-! ## Words that are refused -/

/-- In the number of an instruction no digit offends. -/
theorem not_refused_of_number {word : Word} {i : Instruction} (h : word.toInt = i.number)
    (fault : Fault) : ¬ Refused word fault := by
  obtain ⟨hpos, hlt, hcode, h₁, h₂, h₃⟩ := i.number_digits
  have hb₁ := i.modes.first.digit_bounds
  have hb₂ := i.modes.second.digit_bounds
  have hb₃ := i.modes.third.digit_bounds
  rw [← h] at hpos hlt hcode h₁ h₂ h₃
  intro hr
  cases hr with
  | opcode hop =>
    rcases hop with hneg | hnone
    · omega
    · exact hnone i.opcode hcode
  | @mode op parameter digit _ _ hfirst =>
    obtain ⟨hle, hd⟩ := getElem?_modeDigits.1 hfirst.found
    have hoff := hfirst.offends
    unfold Offends at hoff
    match parameter with
    | 0 | 1 | 2 => omega
    | more + 3 =>
      have hpow : 1000 ≤ 10 ^ (more + 3) := by
        rw [Nat.pow_add]
        have := Nat.pow_pos (n := more) (show 0 < 10 by decide)
        omega
      omega

/-- A digit that is taken for a mode is at most two. -/
theorem le_two_of_modeAt {word : Word} {parameter : Nat} {place : Int} {m : Mode}
    (h : modeAt word parameter place = .ok m) : word.toInt / place % 10 ≤ 2 := by
  rw [modeAt_eq_ok_iff.1 h]
  exact m.digit_bounds.2

/-- A digit that is not taken for a mode is greater than that of any mode. -/
theorem two_lt_of_modeAt {word : Word} {parameter : Nat} {place : Int} {fault : Fault}
    (h : modeAt word parameter place = .error fault) :
    2 < word.toInt / place % 10 ∧
      fault = .unknownMode word parameter (word.toInt / place % 10) := by
  have hnonneg : 0 ≤ word.toInt / place % 10 := Int.emod_nonneg _ (by decide)
  have hne (m : Mode) : word.toInt / place % 10 ≠ m.digit := by
    intro hm
    rw [modeAt_eq_ok_iff.2 hm] at h
    cases h
  have h₀ : word.toInt / place % 10 ≠ 0 := hne .position
  have h₁ : word.toInt / place % 10 ≠ 1 := hne .immediate
  have h₂ : word.toInt / place % 10 ≠ 2 := hne .relative
  refine ⟨by omega, ?_⟩
  simp only [modeAt] at h
  split at h
  · cases h
  · cases h
    rfl

/-- A digit that offends is to blame if those before it are modes of parameters. -/
theorem refused_at {word : Word} {op : Opcode} (hcode : word.toInt % 100 = op.code)
    (parameter : Nat) {digit : Int} (hle : 10 ^ parameter ≤ word.toInt.toNat / 100)
    (hdigit : digit = (word.toInt.toNat / 100 / 10 ^ parameter % 10 : Nat))
    (hoff : 2 < digit ∨ 3 ≤ parameter)
    (hfirst : ∀ i < parameter, i < 3 ∧ word.toInt.toNat / 100 / 10 ^ i % 10 ≤ 2) :
    Refused word (.unknownMode word parameter digit) := by
  subst hdigit
  have hpow : 0 < 10 ^ parameter := Nat.pow_pos (by decide)
  refine .mode (by omega) hcode ⟨getElem?_modeDigits.2 ⟨hle, rfl⟩, ?_, ?_⟩
  · unfold Offends
    omega
  · intro i d hi hd
    obtain ⟨hparameter, hmode⟩ := hfirst i hi
    have hd := (getElem?_modeDigits.1 hd).2
    unfold Offends
    omega

theorem refused_of_decode {word : Word} {fault : Fault} (h : decode word = .error fault) :
    Refused word fault := by
  unfold decode at h
  split at h
  · rename_i hneg
    cases h
    exact .opcode (.inl hneg)
  rename_i hpos
  split at h
  · rename_i hnone
    cases h
    refine .opcode (.inr fun op hop => ?_)
    rw [Opcode.ofCode?_eq_some_iff.2 hop] at hnone
    cases hnone
  rename_i op hop
  have hcode := Opcode.ofCode?_eq_some_iff.1 hop
  simp only [Machine.bind_eq_error_iff] at h
  -- The digits are looked at in turn, so those before the one that is refused are modes.
  rcases h with h₁ | ⟨first, h₁, h₂ | ⟨second, h₂, h₃ | ⟨third, h₃, h₄⟩⟩⟩
  · obtain ⟨hlt, rfl⟩ := two_lt_of_modeAt h₁
    refine refused_at hcode 0 (by omega) (by omega) (.inl hlt) ?_
    intro i hi
    omega
  · obtain ⟨hlt, rfl⟩ := two_lt_of_modeAt h₂
    have h₁ := le_two_of_modeAt h₁
    refine refused_at hcode 1 (by omega) (by omega) (.inl hlt) ?_
    intro i hi
    interval_cases i
    omega
  · obtain ⟨hlt, rfl⟩ := two_lt_of_modeAt h₃
    have h₁ := le_two_of_modeAt h₁
    have h₂ := le_two_of_modeAt h₂
    refine refused_at hcode 2 (by omega) (by omega) (.inl hlt) ?_
    intro i hi
    interval_cases i <;> omega
  · have h₁ := le_two_of_modeAt h₁
    have h₂ := le_two_of_modeAt h₂
    have h₃ := le_two_of_modeAt h₃
    split at h₄
    · cases h₄
      refine refused_at hcode 3 (by omega) (by omega) (.inr (by omega)) ?_
      intro i hi
      interval_cases i <;> omega
    · cases h₄

/-- **A word is refused for its opcode, or for its first digit that offends.** -/
theorem decode_eq_error_iff {word : Word} {fault : Fault} :
    decode word = .error fault ↔ Refused word fault := by
  constructor
  · exact refused_of_decode
  · intro h
    cases hd : decode word with
    | ok i => exact absurd h (not_refused_of_number (decode_eq_ok_iff.1 hd) fault)
    | error fault' => rw [h.unique (refused_of_decode hd)]

/-! ## Words that are instructions -/

theorem toInt_encode (i : Instruction) : i.encode.toInt = i.number := by
  obtain ⟨hpos, hlt, -⟩ := i.number_digits
  exact Int64.toInt_ofInt_of_le (by omega) (by omega)

theorem decode_eq_ok_iff_encode {word : Word} {i : Instruction} :
    decode word = .ok i ↔ word = i.encode := by
  rw [decode_eq_ok_iff, ← toInt_encode, Int64.toInt_inj]

/-- **Decoding accepts what can be encoded and blames the right digit of all else.** A word decodes
to an instruction just when it is the word of the instruction. Any other word is refused, for one
reason: it is not positive or has no opcode, or else a mode digit offends, and of these the
rightmost is told, with the number of its parameter counted from one. -/
theorem decode_exact (word : Word) :
    (∀ op first second third, decode word = .ok ⟨op, ⟨first, second, third⟩⟩ ↔
      word.toInt = op.code + 100 * first.digit + 1000 * second.digit + 10000 * third.digit) ∧
    (∀ i, decode word = .ok i ↔ word = i.encode) ∧
    (∀ fault, decode word = .error fault ↔
      (word.toInt ≤ 0 ∨ ∀ op : Opcode, word.toInt % 100 ≠ op.code) ∧
        fault = .unknownOpcode word ∨
      (0 < word.toInt ∧ ∃ op : Opcode, word.toInt % 100 = op.code) ∧
        ∃ parameter digit : Nat, FirstOffence (modeDigits word) parameter digit ∧
          fault = .unknownMode word parameter digit) ∧
    (Fault.unknownOpcode word).error.kind = .invalidOpcode ∧
    ∀ parameter digit : Nat,
      let e := (Fault.unknownMode word parameter digit).error
      e.kind = .invalidMode ∧ e.value? "word" = some word.text ∧
        e.value? "parameter" = some (Text.decimal (parameter + 1)) ∧
        e.value? "mode" = some (Text.decimal digit) := by
  refine ⟨fun op first second third => decode_eq_ok_iff, fun i => decode_eq_ok_iff_encode,
    fun fault => ?_, rfl, fun parameter digit => ⟨rfl, rfl, rfl, rfl⟩⟩
  rw [decode_eq_error_iff]
  constructor
  · intro h
    cases h with
    | opcode hop => exact .inl ⟨hop, rfl⟩
    | mode hpos hcode hfirst => exact .inr ⟨⟨hpos, _, hcode⟩, _, _, hfirst, rfl⟩
  · rintro (⟨hop, rfl⟩ | ⟨⟨hpos, op, hcode⟩, parameter, digit, hfirst, rfl⟩)
    · exact .opcode hop
    · exact .mode hpos hcode hfirst

/-- A zero offends as the fourth mode digit of a longer word, and a three further to the left does
not come to be looked at; nor does any digit of a word without an opcode. -/
example :
    decode 300001102 = .error (.unknownMode 300001102 3 0) ∧
    decode 31302 = .error (.unknownMode 31302 0 3) ∧
    decode 99998 = .error (.unknownOpcode 99998) := by decide

end Instruction
end Intcode
