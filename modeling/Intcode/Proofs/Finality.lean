import Intcode.Proofs.Cells
import Intcode.Proofs.Verdicts

/-!
# Intcode.Proofs.Finality

How long a rest lasts.

A machine that waits is where it was before the instruction that it could not carry out, so it waits
again when it is executed again. A machine that has halted does not go on for anything: it can be
given words, made to read elsewhere, and have its halt instruction written over.

* `waits_of_execute`, `halts_of_execute` : where a machine rests that was running.
* `Handled`                              : what can be done to a machine from outside.
* `Handled.of_halted`                    : a machine that has halted stays as it is.
* `rest_is_final`                        : the above in one.
-/

namespace Intcode
namespace Machine

/-- The word at the program counter is an instruction with this operation. -/
def StandsAt (m : Machine) (op : Opcode) : Prop :=
  ∃ word modes, m.cell m.pc = .ok word ∧ Instruction.decode word = .ok ⟨op, modes⟩

/-! ## Where a machine rests -/

theorem Runs.state {t t' : Tapes} {m m' : Machine} (h : Runs t m t' m') : m'.state = m.state := by
  induction h with
  | refl => rfl
  | cons ht _ ih =>
    obtain ⟨width, action, -, -, rfl⟩ := turn_completed_iff.1 ht
    exact ih.trans (act_state ..)

theorem planOf_eq_halt {m : Machine} {u : Option Word} {word : Word} {i : Instruction}
    (h : m.planOf u word i = .ok .halt) : i.opcode = .halt := by
  rw [planOf_eq] at h
  obtain ⟨-, -, hh⟩ | ⟨hop, -⟩ | ⟨action, hh⟩ := Instruction.plan_eq_ok_cases h
  · cases hh
  · exact hop
  · cases hh

/-- A running machine halts only at a halt instruction. -/
theorem stands_at_halt {m : Machine} {u : Option Word} (hs : m.state = .running)
    (h : m.plan u = .ok .halt) : m.StandsAt .halt := by
  obtain ⟨word, ⟨opcode, modes⟩, hc, hi, hp⟩ | ⟨fault, hp⟩ :=
    plan_cases (m := m) (by simp [isHalted, hs])
  · rw [hp] at h
    obtain rfl := planOf_eq_halt h
    exact ⟨word, modes, hc, hi⟩
  · rw [hp] at h
    cases h

variable {fuel : Nat} {t t' : Tapes} {m m' : Machine} {reason : HaltReason}

theorem at_rest_of_execute (h : execute fuel t m = some (t', m', .ok reason)) :
    m'.AtRest t' ∧ reason = m'.restReason :=
  ⟨at_rest_of_rests (rests_of_execute h) rfl, reason_of_rests (rests_of_execute h) rfl⟩

/-- A machine that waits has come to an input instruction, and there is nothing to read. -/
theorem waits_of_execute (h : execute fuel t m = some (t', m', .ok .waitingForInput)) :
    m'.state = .running ∧ m'.StandsAt .storeInput ∧ m'.unread? t' = none ∧ m'.pending t' = 0 := by
  obtain ⟨hrest, hreason⟩ := at_rest_of_execute h
  have hne : m'.state ≠ .halted := restReason_eq_waiting_iff.1 hreason.symm
  have hrun : m'.state = .running := by
    cases hs : m'.state with
    | running => rfl
    | halted => exact absurd hs hne
  obtain ⟨hstands, hpending⟩ := hrest.waits hne
  exact ⟨hrun, hstands, Array.getElem?_eq_none (Nat.sub_eq_zero_iff_le.1 hpending), hpending⟩

/-- A machine that halts has come to a halt instruction, unless it had halted before. -/
theorem halts_of_execute (hs : m.state = .running)
    (h : execute fuel t m = some (t', m', .ok .haltInstruction)) :
    m'.state = .halted ∧ m'.StandsAt .halt := by
  obtain ⟨t₁, m₁, hruns, hturn⟩ := (rests_of_execute h).exists_runs
  obtain ⟨-, -, -, hr⟩ | ⟨hp, -, hm', -⟩ | ⟨fault, -, -, -, hr⟩ := turn_rested_iff.1 hturn
  · cases hr
  · obtain ⟨word, modes, hc, hi⟩ := stands_at_halt (hruns.state.trans hs) hp
    cases hm'
    exact ⟨rfl, word, modes, hc, hi⟩
  · cases hr

/-! ## After the halt -/

/-- What is done to a machine from outside, with the words that are stored in its memory, first one
first. Words are given to it or written to any tape, it is made to read another tape, which may be
its own, it is patched, and it is executed. -/
inductive Handled (t : Tapes) (m : Machine) : List (Address × Word) → Tapes → Machine → Prop where
  | nothing : Handled t m [] t m
  | feed {t₁ : Tapes} {m₁ : Machine} {stores : List (Address × Word)} (words : List Word) :
      Handled t m stores t₁ m₁ →
      Handled t m stores (m₁.feed t₁ words).1 (m₁.feed t₁ words).2
  | write {t₁ : Tapes} {m₁ : Machine} {stores : List (Address × Word)} (i : TapeId)
      (words : List Word) :
      Handled t m stores t₁ m₁ → Handled t m stores (t₁.extend i words) m₁
  | wire {t₁ : Tapes} {m₁ : Machine} {stores : List (Address × Word)} (i : TapeId) :
      Handled t m stores t₁ m₁ → Handled t m stores t₁ (m₁.wire (.tape i))
  | poke {t₁ : Tapes} {m₁ : Machine} {stores : List (Address × Word)} (a : Address) (w : Word) :
      Handled t m stores t₁ m₁ → Handled t m (stores ++ [(a, w)]) t₁ (m₁.poke a w)
  | execute {t₁ t₂ : Tapes} {m₁ m₂ : Machine} {stores : List (Address × Word)} {fuel : Nat}
      {r : Except Error HaltReason} :
      Handled t m stores t₁ m₁ → execute fuel t₁ m₁ = some (t₂, m₂, r) →
      Handled t m stores t₂ m₂

theorem execute_of_halted (h : m.state = .halted) (t : Tapes) (fuel : Nat) :
    execute (fuel + 1) t m = some (t, m, .ok .haltInstruction) := by
  rw [execute, turn_of_halted h]

/-- After the halt only the patches are to be seen in a machine, and where it reads. -/
theorem Handled.of_halted {stores : List (Address × Word)} (h : Handled t m stores t' m')
    (hs : m.state = .halted) :
    m' = { m with memory := m.memory.setAll stores, source := m'.source } := by
  induction h with
  | nothing => rfl
  | @feed t₁ m₁ _ words _ ih =>
    exact congrArg (·.wire (m₁.feed t₁ words).2.source) ih
  | write i words _ ih => exact ih
  | wire i _ ih => exact congrArg (·.wire (.tape i)) ih
  | poke a w _ ih =>
    rw [Memory.setAll_append]
    exact congrArg (·.poke a w) ih
  | @execute _ _ _ _ _ fuel _ _ hx ih =>
    cases fuel with
    | zero => cases hx
    | succ fuel =>
      rw [execute_of_halted ((congrArg state ih).trans hs)] at hx
      cases hx
      exact ih

/-- **A rest lasts, and a halt is final.** A running machine that comes to rest has come to the
instruction that says why: to an input instruction with nothing to read, or to a halt instruction.
When it is executed again at once it rests for the same reason, and nothing changes. Whatever is
done to a machine that has halted, only the patches are to be seen in it, and where it reads;
wherever it is executed meanwhile, neither the machine nor any tape is changed. -/
theorem rest_is_final :
    (∀ fuel t m t' m' reason, execute fuel t m = some (t', m', .ok reason) →
      (m.state = .running →
        (reason = .waitingForInput →
          m'.state = .running ∧ m'.StandsAt .storeInput ∧ m'.unread? t' = none ∧
            m'.pending t' = 0) ∧
        (reason = .haltInstruction → m'.state = .halted ∧ m'.StandsAt .halt)) ∧
      ∀ fuel', execute (fuel' + 1) t' m' = some (t', m', .ok reason)) ∧
    ∀ t m stores t' m', m.state = .halted → Handled t m stores t' m' →
      m' = { m with memory := m.memory.setAll stores, source := m'.source } ∧
      ∀ fuel, execute (fuel + 1) t' m' = some (t', m', .ok .haltInstruction) := by
  refine ⟨fun fuel t m t' m' reason h => ⟨fun hs => ⟨?_, ?_⟩, fun fuel' => ?_⟩,
    fun t m stores t' m' hs hh => ⟨hh.of_halted hs, fun fuel => ?_⟩⟩
  · rintro rfl
    exact waits_of_execute h
  · rintro rfl
    exact halts_of_execute hs h
  · obtain ⟨hrest, rfl⟩ := at_rest_of_execute h
    exact hrest.execute fuel'
  · have hstate : m'.state = .halted := (congrArg state (hh.of_halted hs)).trans hs
    exact execute_of_halted hstate t' fuel

/-- A machine halts after it has read a word. Then its halt instruction is written over, and it is
made to read its own tape, to which a word is added. -/
theorem rest_is_final_patched :
    let m := (start (Memory.ofWords #[3, 0, 99] 9) 0).wire (.owned #[7])
    let halted := { m with
      memory := m.memory.set 0 7, cursor := 1, pc := 2, state := .halted, steps := 1 }
    let patched := (halted.poke 2 1).wire (.tape 0)
    let t : Tapes := ⟨#[#[5]]⟩
    m.state = .running ∧ execute 2 {} m = some ({}, halted, .ok .haltInstruction) ∧
      halted.StandsAt .halt ∧ Handled {} halted [(2, 1)] t patched ∧
      execute 1 t patched = some (t, patched, .ok .haltInstruction) := by
  have told {m halted patched : Machine} {t : Tapes} (hs : m.state = .running)
      (hx : execute 2 {} m = some ({}, halted, .ok .haltInstruction))
      (hh : Handled {} halted [(2, 1)] t patched) :
      m.state = .running ∧ execute 2 {} m = some ({}, halted, .ok .haltInstruction) ∧
        halted.StandsAt .halt ∧ Handled {} halted [(2, 1)] t patched ∧
        execute 1 t patched = some (t, patched, .ok .haltInstruction) := by
    obtain ⟨hhalted, hstands⟩ := ((rest_is_final.1 _ _ _ _ _ _ hx).1 hs).2 rfl
    exact ⟨hs, hx, hstands, hh, (rest_is_final.2 _ _ _ _ _ hhalted hh).2 0⟩
  exact told rfl rfl (.feed [5] (.wire 0 (.poke 2 1 .nothing)))

end Machine
end Intcode
