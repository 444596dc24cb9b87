import Intcode.Proofs.Runs

/-!
# Intcode.Proofs.Faults

What a fault leaves behind, and how long it lasts.

`Machine.step` can break off in the middle of an instruction, and the machine that executes
comes to rest where it broke off. `fault_atomic_permanent` says that nothing but completed
instructions is to be seen in that machine, and that no input will ever get it past the fault.
-/

namespace Intcode
namespace Machine

/-- What happens to a machine later: it is given words to read, words are written to a tape by
someone else, or it is executed. -/
inductive Aftermath : Tapes → Machine → Tapes → Machine → Prop where
  | refl {t : Tapes} {m : Machine} : Aftermath t m t m
  | feed {t t₁ : Tapes} {m m₁ : Machine} (words : List Word) :
      Aftermath t m t₁ m₁ → Aftermath t m (m₁.feed t₁ words).1 (m₁.feed t₁ words).2
  | write {t t₁ : Tapes} {m m₁ : Machine} (i : TapeId) (words : List Word) :
      Aftermath t m t₁ m₁ → Aftermath t m (t₁.extend i words) m₁
  | execute {t t₁ t₂ : Tapes} {m m₁ m₂ : Machine} {fuel : Nat}
      {r : Except Error HaltReason} :
      Aftermath t m t₁ m₁ → execute fuel t₁ m₁ = some (t₂, m₂, r) → Aftermath t m t₂ m₂

/-- The instruction at the program counter has a fault, which is reported as `e`. -/
def Faulty (t : Tapes) (m : Machine) (e : Error) : Prop :=
  ∃ fault, m.plan (m.unread? t) = .error fault ∧ e = fault.errorAt m.pc

theorem turn_of_faulty {t : Tapes} {m : Machine} {e : Error} (h : Faulty t m e) :
    m.turn t = (t, m, .rested (.error e)) := by
  obtain ⟨fault, hp, rfl⟩ := h
  exact turn_rested_iff.2 (.inr (.inr ⟨fault, hp, rfl, rfl, rfl⟩))

theorem execute_of_faulty {t : Tapes} {m : Machine} {e : Error} (h : Faulty t m e)
    (fuel : Nat) : execute (fuel + 1) t m = some (t, m, .error e) := by
  rw [execute, turn_of_faulty h]

/-- A machine that ends with an error rests on the instruction with the fault. -/
theorem faulty_of_turn {t t' : Tapes} {m m' : Machine} {e : Error}
    (h : m.turn t = (t', m', .rested (.error e))) : t' = t ∧ m' = m ∧ Faulty t m e := by
  obtain ⟨-, -, -, hr⟩ | ⟨-, -, -, hr⟩ | ⟨fault, hp, ht, hm, hr⟩ := turn_rested_iff.1 h
  · cases hr
  · cases hr
  · cases hr
    exact ⟨ht, hm, fault, hp, rfl⟩

/-- An execution that ends with an error leaves the machine at its fault. -/
theorem faulty_of_execute {fuel : Nat} {t t' : Tapes} {m m' : Machine} {e : Error}
    (h : execute fuel t m = some (t', m', .error e)) : Runs t m t' m' ∧ Faulty t' m' e := by
  obtain ⟨t₁, m₁, hr, ht⟩ := (rests_of_execute h).exists_runs
  obtain ⟨rfl, rfl, hf⟩ := faulty_of_turn ht
  exact ⟨hr, hf⟩

/-- The instruction itself, carried out cell by cell, moves the program counter at most. -/
theorem step_of_faulty {t : Tapes} {m : Machine} {e : Error} (h : Faulty t m e) :
    ∃ fault pc, step (t, m) = .error fault (t, m.goto pc) ∧ e = fault.errorAt m.pc := by
  obtain ⟨fault, hp, rfl⟩ := h
  have hh : m.isHalted = false := by
    cases hh : m.isHalted with
    | false => rfl
    | true => rw [plan, if_pos hh] at hp; cases hp
  have hg : Work.Gives (Work.Performed t m) t m (step (t, m)) (m.plan (m.unread? t)) :=
    Work.gives_step hh
  rw [hp] at hg
  obtain ⟨pc, hs⟩ := hg
  exact ⟨fault, pc, hs, rfl⟩

theorem Faulty.more {t t' : Tapes} {m m' : Machine} {e : Error} (h : Faulty t m e)
    (hm : MoreToRead t m t' m') : Faulty t' m' e := by
  obtain ⟨fault, hp, rfl⟩ := h
  have hpc : m'.pc = m.pc := by rw [hm.same]; rfl
  refine ⟨fault, ?_, by rw [hpc]⟩
  rw [hm.plan (by simp [hp]), hp]

theorem Faulty.aftermath {t t' : Tapes} {m m' : Machine} {e : Error} (h : Faulty t m e)
    (ha : Aftermath t m t' m') : Faulty t' m' e := by
  induction ha with
  | refl => exact h
  | feed words _ ih => exact (ih h).more (.feed _ _ words)
  | write i words _ ih => exact (ih h).more (.write _ _ i words)
  | @execute _ t₁ _ _ _ fuel _ _ he ih =>
    cases fuel with
    | zero => cases he
    | succ fuel =>
      rw [execute_of_faulty (ih h)] at he
      cases he
      exact ih h

/-- **A fault is atomic and permanent.** An execution that ends with an error has completed the
instructions before the one with the fault, and that one has changed nothing. Whatever is given
to the machine to read afterwards, every execution ends with the same error at once. -/
theorem fault_atomic_permanent {fuel : Nat} {t t' : Tapes} {m m' : Machine} {e : Error}
    (h : execute fuel t m = some (t', m', .error e)) :
    Runs t m t' m' ∧
    (∃ fault pc, step (t', m') = .error fault (t', m'.goto pc) ∧ e = fault.errorAt m'.pc) ∧
    ∀ t'' m'', Aftermath t' m' t'' m'' →
      ∀ fuel', execute (fuel' + 1) t'' m'' = some (t'', m'', .error e) := by
  obtain ⟨hr, hf⟩ := faulty_of_execute h
  exact ⟨hr, step_of_faulty hf, fun _ _ ha => execute_of_faulty (hf.aftermath ha)⟩

/-- After an output, an input instruction has its destination given by value. -/
theorem fault_after_output :
    let m := (Machine.start (Memory.ofWords #[104, 5, 103, 0] Memory.defaultLimit) 0).wire
      (.owned #[7])
    let m' := { m with pc := 2, lastEmitted := some 5, steps := 1 }
    let e := (Fault.immediateWrite 103).errorAt 2
    execute 5 {} m = some (⟨#[#[5]]⟩, m', .error e) ∧ Runs {} m ⟨#[#[5]]⟩ m' ∧
      execute 1 ⟨#[#[5, 9]]⟩ m' = some (⟨#[#[5, 9]]⟩, m', .error e) :=
  have h := @fault_atomic_permanent 5 {} ⟨#[#[5]]⟩ _ _ _ rfl
  ⟨rfl, h.1, h.2.2 ⟨#[#[5, 9]]⟩ _ (.write 0 [9] .refl) 0⟩

end Machine
end Intcode
