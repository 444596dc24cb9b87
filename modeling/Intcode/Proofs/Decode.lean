import Intcode.Instruction

/-!
# Intcode.Proofs.Decode

Which words are instructions: `decode_eq_ok_iff` says that a word decodes to an instruction
exactly if it is the number of that instruction.
-/

namespace Intcode

theorem Opcode.code_bounds (op : Opcode) : 0 < op.code ∧ op.code < 100 := by
  cases op <;> decide

theorem Mode.digit_bounds (m : Mode) : 0 ≤ m.digit ∧ m.digit ≤ 2 := by
  cases m <;> decide

namespace Instruction

theorem modeAt_eq_ok_iff {word : Word} {parameter : Nat} {place : Int} {m : Mode} :
    modeAt word parameter place = .ok m ↔ word.toInt / place % 10 = m.digit := by
  rw [modeAt, ← Mode.ofDigit?_eq_some_iff]
  cases Mode.ofDigit? (word.toInt / place % 10) with
  | none => simp
  | some m' => simp

theorem number_digits (i : Instruction) :
    0 < i.number ∧ i.number < 100000 ∧ i.number % 100 = i.opcode.code ∧
      i.number / 100 % 10 = i.modes.first.digit ∧ i.number / 1000 % 10 = i.modes.second.digit ∧
      i.number / 10000 % 10 = i.modes.third.digit := by
  have hc := i.opcode.code_bounds
  have h₁ := i.modes.first.digit_bounds
  have h₂ := i.modes.second.digit_bounds
  have h₃ := i.modes.third.digit_bounds
  unfold number
  omega

/-- A word decodes to an instruction exactly if it is the number of that instruction. -/
theorem decode_eq_ok_iff {word : Word} {i : Instruction} :
    decode word = .ok i ↔ word.toInt = i.number := by
  constructor
  · intro h
    unfold decode at h
    split at h
    · cases h
    rename_i hpos
    split at h
    · cases h
    rename_i opcode hop
    have hcode := Opcode.ofCode?_eq_some_iff.1 hop
    cases h₁ : modeAt word 0 100 with
    | error fault => rw [h₁] at h; cases h
    | ok first =>
    cases h₂ : modeAt word 1 1000 with
    | error fault => rw [h₁, h₂] at h; cases h
    | ok second =>
    cases h₃ : modeAt word 2 10000 with
    | error fault => rw [h₁, h₂, h₃] at h; cases h
    | ok third =>
    rw [h₁, h₂, h₃] at h
    replace h : (if 100000 ≤ word.toInt then _ else _) = Except.ok i := h
    split at h
    · cases h
    cases h
    have h₁ := modeAt_eq_ok_iff.1 h₁
    have h₂ := modeAt_eq_ok_iff.1 h₂
    have h₃ := modeAt_eq_ok_iff.1 h₃
    simp only [number]
    omega
  · intro h
    obtain ⟨hpos, hlt, hcode, h₁, h₂, h₃⟩ := i.number_digits
    rw [← h] at hpos hlt hcode h₁ h₂ h₃
    unfold decode
    rw [if_neg (by omega), hcode, Opcode.ofCode?_code, modeAt_eq_ok_iff.2 h₁,
      modeAt_eq_ok_iff.2 h₂, modeAt_eq_ok_iff.2 h₃]
    show (if 100000 ≤ word.toInt then _ else _) = Except.ok i
    rw [if_neg (by omega)]

end Instruction
end Intcode
