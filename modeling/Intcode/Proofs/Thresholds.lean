import Intcode.Proofs.Agreement

/-!
# Intcode.Proofs.Thresholds

How much input a program needs.

A machine looks at one word of its input at a time, and only when it comes to an input instruction.
So a program that ends with an answer has not seen whether there was more to read, and one that asks
for more has read all that it was given. Up to some length the inputs are too short, and beyond it
they are of no account.

* `execute_more`    : a machine that does not wait does the same when it is given more.
* `input_threshold` : what a program comes to with more inputs, and with fewer.
-/

namespace Intcode
namespace Machine

variable {fuel : Nat} {memory : Memory} {t t' : Tapes} {m m' : Machine} {held : Array Word}
  {r : Except Error HaltReason}

/-! ## More input -/

theorem turn_rested_more (h : m.source = .owned held) (more : Array Word)
    (hr : r ≠ .ok .waitingForInput) (ht : m.turn t = (t', m', .rested r)) :
    (m.wire (.owned (held ++ more))).turn t =
      (t', m'.wire (.owned (held ++ more)), .rested r) := by
  have plan_more (hp : m.plan (m.unread? t) ≠ .ok .wait) :=
    (MoreToRead.owned (t := t) h more).plan hp
  obtain ⟨-, -, -, rfl⟩ | ⟨hp, rfl, rfl, rfl⟩ | ⟨fault, hp, rfl, rfl, rfl⟩ := turn_rested_iff.1 ht
  · exact absurd rfl hr
  · exact turn_rested_iff.2 (.inr (.inl ⟨(plan_more (by simp [hp])).trans hp, rfl, rfl, rfl⟩))
  · have hp' := (plan_more (by simp [hp])).trans hp
    exact turn_rested_iff.2 (.inr (.inr ⟨fault, hp', rfl, rfl, rfl⟩))

/-- What a machine does without waiting it does with more input as well. -/
theorem execute_more (h : m.source = .owned held) (more : Array Word)
    (hr : r ≠ .ok .waitingForInput) (hx : execute fuel t m = some (t', m', r)) :
    execute fuel t (m.wire (.owned (held ++ more))) =
      some (t', m'.wire (.owned (held ++ more)), r) := by
  induction fuel generalizing t m with
  | zero => cases hx
  | succ fuel ih =>
    rw [execute] at hx ⊢
    cases ht : m.turn t with
    | mk t₁ p =>
      rw [ht] at hx
      obtain ⟨m₁, _ | r₁⟩ := p
      · obtain ⟨hs, ht₁⟩ := turn_completed_more h more ht
        rw [ht₁]
        exact ih hs hx
      · cases hx
        rw [turn_rested_more h more hr ht]

theorem start_append (memory : Memory) (xs ys : List Word) :
    (start memory 0).wire (.owned (xs ++ ys).toArray) =
      ((start memory 0).wire (.owned xs.toArray)).wire (.owned (xs.toArray ++ ys.toArray)) := by
  rw [List.append_toArray]
  rfl

theorem solo_append {xs : List Word} (hr : r ≠ .ok .waitingForInput)
    (hx : solo fuel memory xs = some (t, m, r)) (ys : List Word) :
    ∃ m', solo fuel memory (xs ++ ys) = some (t, m', r) ∧ m'.output = m.output := by
  rw [← xs.toList_toArray, solo_eq] at hx
  refine ⟨m.wire (.owned (xs.toArray ++ ys.toArray)), ?_, rfl⟩
  rw [← (xs ++ ys).toList_toArray, solo_eq, start_append]
  exact execute_more rfl _ hr hx

/-- A machine that rests with some inputs rests with the first of them. -/
theorem exists_solo_of_append {xs ys : List Word}
    {out : Tapes × Machine × Except Error HaltReason}
    (hx : solo fuel memory (xs ++ ys) = some out) : ∃ out₁, solo fuel memory xs = some out₁ := by
  rw [← (xs ++ ys).toList_toArray, solo_eq, start_append] at hx
  rw [← xs.toList_toArray, solo_eq]
  exact exists_execute_of_more _ hx rfl

/-- A machine that waits after some inputs waits after the first of them. -/
theorem solo_waits_of_append {xs ys : List Word}
    (hx : solo fuel memory (xs ++ ys) = some (t, m, .ok .waitingForInput)) :
    ∃ t₁ m₁, solo fuel memory xs = some (t₁, m₁, .ok .waitingForInput) := by
  obtain ⟨⟨t₁, m₁, r₁⟩, hx₁⟩ := exists_solo_of_append hx
  by_cases hr : r₁ = .ok .waitingForInput
  · exact ⟨t₁, m₁, hr ▸ hx₁⟩
  · -- It would rest like this with the other inputs as well.
    obtain ⟨m₂, hx₂, -⟩ := solo_append hr hx₁ ys
    rw [hx] at hx₂
    cases hx₂
    exact absurd rfl hr

/-! ## What a program comes to -/

/-- An answer that does not ask for more input is the answer with more input. -/
theorem runProgram_append {xs : List Word} {answer : Except Error (Array Word)}
    (h : runProgram fuel memory xs = some answer)
    (ha : ∀ e, answer = .error e → e.kind ≠ .inputExhausted) (ys : List Word) :
    runProgram fuel memory (xs ++ ys) = some answer := by
  rw [runProgram_eq] at h ⊢
  obtain ⟨⟨t, m, r⟩, hx, rfl⟩ := Option.map_eq_some_iff.1 h
  have hr : r ≠ .ok .waitingForInput := by
    rintro rfl
    exact ha _ rfl rfl
  obtain ⟨m', hx', hout⟩ := solo_append hr hx ys
  rw [hx']
  cases r with
  | error e => rfl
  | ok reason =>
    cases reason with
    | waitingForInput => exact absurd rfl hr
    | haltInstruction => simp only [Option.map_some, answer, hout]

/-- The program asks for more than its inputs, and all of them have been read. -/
def Exhausts (fuel : Nat) (memory : Memory) (inputs : List Word) (e : Error) : Prop :=
  runProgram fuel memory inputs = some (.error e) ∧ e.kind = .inputExhausted ∧
    e.value? "consumed" = some (Text.decimal inputs.length)

theorem exhausts_of_solo {xs : List Word}
    (hx : solo fuel memory xs = some (t, m, .ok .waitingForInput)) :
    Exhausts fuel memory xs (starved m.pc xs.length) := by
  refine ⟨?_, rfl, rfl⟩
  rw [runProgram_eq, hx, ← cursor_of_solo hx]
  rfl

theorem solo_waits_of_kind {xs : List Word} {e : Error}
    (h : runProgram fuel memory xs = some (.error e)) (hk : e.kind = .inputExhausted) :
    ∃ t m, solo fuel memory xs = some (t, m, .ok .waitingForInput) := by
  obtain hs | hf := Attempt.cause_of_runProgram h
  · cases hs with
    | runProgram hx => exact ⟨_, _, hx⟩
  · have hm := hf.isMalformedProgram
    rw [Error.isMalformedProgram, hk] at hm
    cases hm

/-- **There is a threshold to the input of a program.** When a program ends with an output or with a
fault, it ends so with whatever inputs follow. When it asks for more, it has read all its inputs,
and it asks for more after each first part of them, which it has read as well. -/
theorem input_threshold (fuel : Nat) (memory : Memory) (xs : List Word) :
    (∀ out, runProgram fuel memory xs = some (.ok out) →
      ∀ ys, runProgram fuel memory (xs ++ ys) = some (.ok out)) ∧
    (∀ e, runProgram fuel memory xs = some (.error e) → e.kind ≠ .inputExhausted →
      ∀ ys, runProgram fuel memory (xs ++ ys) = some (.error e)) ∧
    (∀ e, runProgram fuel memory xs = some (.error e) → e.kind = .inputExhausted →
      Exhausts fuel memory xs e ∧ ∀ xs', xs' <+: xs → ∃ e', Exhausts fuel memory xs' e') := by
  refine ⟨fun out h => ?_, fun e h hk => ?_, fun e h hk => ⟨?_, ?_⟩⟩
  · exact runProgram_append h (by rintro e ⟨⟩)
  · exact runProgram_append h (by rintro e' ⟨⟩; exact hk)
  · obtain ⟨t, m, hx⟩ := solo_waits_of_kind h hk
    have hex := exhausts_of_solo hx
    cases h.symm.trans hex.1
    exact hex
  · rintro xs' ⟨ys, rfl⟩
    obtain ⟨t, m, hx⟩ := solo_waits_of_kind h hk
    obtain ⟨t₁, m₁, hx₁⟩ := solo_waits_of_append hx
    exact ⟨_, exhausts_of_solo hx₁⟩

/-- A program that carries out its first input. It halts, it has a fault, or it reads on. -/
theorem input_threshold_first_input :
    let memory := Memory.ofWords #[3, 2, 0, 5, 99] 9
    let fault := (Fault.unknownOpcode 42).errorAt 2
    runProgram 3 memory [99, 7] = some (.ok #[]) ∧
      runProgram 3 memory [42, 7] = some (.error fault) ∧
      Exhausts 3 memory [3] (starved 2 1) ∧ ∃ e, Exhausts 3 memory [] e := by
  have told := input_threshold 3 (Memory.ofWords #[3, 2, 0, 5, 99] 9)
  refine ⟨(told [99]).1 _ rfl [7], (told [42]).2.1 _ rfl (by decide) [7], ?_⟩
  obtain ⟨hone, hnone⟩ := (told [3]).2.2 (starved 2 1) rfl rfl
  exact ⟨hone, hnone [] (List.nil_prefix)⟩

end Machine
end Intcode
