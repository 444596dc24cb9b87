import Intcode.Proofs.Plan

/-!
# Intcode.Proofs.Runs

Runs of a machine, without a bound on their length.

* `Runs t m t' m'`  : `m` on the tapes `t` completes instructions and comes to `m'` on `t'`.
* `Rests t m out`   : `m` on the tapes `t` runs until it rests, with the outcome `out`.
* `execute_iff`     : `Rests` is what `execute` computes.
* `MoreToRead`      : a machine with more to read does the same, unless it waited for it.
-/

namespace Intcode
namespace Machine

theorem turn_completed_iff {t t' : Tapes} {m m' : Machine} :
    m.turn t = (t', m', .completed) ↔
      ∃ width action, m.plan (m.unread? t) = .ok (.act width action) ∧
        t' = m.actOn t action ∧ m' = m.act width action := by
  rw [turn_eq]
  constructor
  · intro h
    split at h
    · rename_i width action hp
      cases h
      exact ⟨width, action, hp, rfl, rfl⟩
    all_goals cases h
  · rintro ⟨width, action, hp, rfl, rfl⟩
    rw [hp]

theorem turn_rested_iff {t t' : Tapes} {m m' : Machine} {r : Except Error HaltReason} :
    m.turn t = (t', m', .rested r) ↔
      (m.plan (m.unread? t) = .ok .wait ∧ t' = t ∧ m' = m ∧ r = .ok .waitingForInput) ∨
      (m.plan (m.unread? t) = .ok .halt ∧ t' = t ∧ m' = { m with state := .halted } ∧
        r = .ok .haltInstruction) ∨
      (∃ fault, m.plan (m.unread? t) = .error fault ∧ t' = t ∧ m' = m ∧
        r = .error (fault.errorAt m.pc)) := by
  rw [turn_eq]
  cases hp : m.plan (m.unread? t) with
  | error fault => simp [eq_comm]
  | ok p => cases p <;> simp [eq_comm]

/-- Where a machine rests, the tapes stay as they are, and the machine except for its state. -/
theorem turn_rested {t t' : Tapes} {m m' : Machine} {r : Except Error HaltReason}
    (h : m.turn t = (t', m', .rested r)) : t' = t ∧ m' = { m with state := m'.state } := by
  obtain ⟨-, rfl, rfl, -⟩ | ⟨-, rfl, rfl, -⟩ | ⟨fault, -, rfl, rfl, -⟩ := turn_rested_iff.1 h
  · exact ⟨rfl, rfl⟩
  · exact ⟨rfl, rfl⟩
  · exact ⟨rfl, rfl⟩

theorem turn_of_halted {m : Machine} (h : m.state = .halted) (t : Tapes) :
    m.turn t = (t, m, .rested (.ok .haltInstruction)) := by
  have hh : m.isHalted = true := by simp [isHalted, h]
  rw [turn, if_pos hh]

inductive Runs : Tapes → Machine → Tapes → Machine → Prop where
  | refl {t : Tapes} {m : Machine} : Runs t m t m
  | cons {t t₁ t₂ : Tapes} {m m₁ m₂ : Machine} :
      m.turn t = (t₁, m₁, .completed) → Runs t₁ m₁ t₂ m₂ → Runs t m t₂ m₂

/-- The machine runs until it rests. -/
inductive Rests : Tapes → Machine → Tapes × Machine × Except Error HaltReason → Prop where
  | rest {t t' : Tapes} {m m' : Machine} {r : Except Error HaltReason} :
      m.turn t = (t', m', .rested r) → Rests t m (t', m', r)
  | next {t t₁ : Tapes} {m m₁ : Machine} {out : Tapes × Machine × Except Error HaltReason} :
      m.turn t = (t₁, m₁, .completed) → Rests t₁ m₁ out → Rests t m out

theorem Rests.exists_runs {t : Tapes} {m : Machine}
    {out : Tapes × Machine × Except Error HaltReason} (h : Rests t m out) :
    ∃ t₁ m₁, Runs t m t₁ m₁ ∧ m₁.turn t₁ = (out.1, out.2.1, .rested out.2.2) := by
  induction h with
  | @rest t _ m _ _ hs => exact ⟨t, m, .refl, hs⟩
  | next hs _ ih =>
    obtain ⟨t₁, m₁, hr, ht⟩ := ih
    exact ⟨t₁, m₁, .cons hs hr, ht⟩

theorem rests_next_iff {t t₁ : Tapes} {m m₁ : Machine}
    {out : Tapes × Machine × Except Error HaltReason} (hs : m.turn t = (t₁, m₁, .completed)) :
    Rests t m out ↔ Rests t₁ m₁ out := by
  constructor
  · intro h
    cases h with
    | rest hs' => rw [hs] at hs'; cases hs'
    | next hs' hr => rw [hs] at hs'; cases hs'; exact hr
  · exact .next hs

theorem rests_rest_iff {t t₁ : Tapes} {m m₁ : Machine} {r : Except Error HaltReason}
    {out : Tapes × Machine × Except Error HaltReason} (hs : m.turn t = (t₁, m₁, .rested r)) :
    Rests t m out ↔ out = (t₁, m₁, r) := by
  constructor
  · intro h
    cases h with
    | rest hs' => rw [hs] at hs'; cases hs'; rfl
    | next hs' _ => rw [hs] at hs'; cases hs'
  · rintro rfl
    exact .rest hs

theorem rests_of_execute {fuel : Nat} {t : Tapes} {m : Machine}
    {out : Tapes × Machine × Except Error HaltReason} (h : execute fuel t m = some out) :
    Rests t m out := by
  induction fuel generalizing t m with
  | zero => cases h
  | succ fuel ih =>
    rw [execute] at h
    split at h
    · rename_i hs
      exact .next hs (ih h)
    · rename_i hs
      cases h
      exact .rest hs

theorem exists_execute_of_rests {t : Tapes} {m : Machine}
    {out : Tapes × Machine × Except Error HaltReason} (h : Rests t m out) :
    ∃ fuel, execute fuel t m = some out := by
  induction h with
  | rest hs => exact ⟨1, by simp only [execute, hs]⟩
  | next hs _ ih =>
    obtain ⟨fuel, hf⟩ := ih
    exact ⟨fuel + 1, by simp only [execute, hs, hf]⟩

theorem execute_iff {t : Tapes} {m : Machine}
    {out : Tapes × Machine × Except Error HaltReason} :
    (∃ fuel, execute fuel t m = some out) ↔ Rests t m out :=
  ⟨fun ⟨_, h⟩ => rests_of_execute h, exists_execute_of_rests⟩

theorem Rests.unique {t : Tapes} {m : Machine}
    {out out' : Tapes × Machine × Except Error HaltReason}
    (h : Rests t m out) (h' : Rests t m out') : out' = out := by
  induction h with
  | rest hs => exact (rests_rest_iff hs).1 h'
  | next hs _ ih => exact ih ((rests_next_iff hs).1 h')

/-! ## More to read -/

/-- `m'` is `m` but for its source, which holds all that the source of `m` holds. -/
structure MoreToRead (t : Tapes) (m : Machine) (t' : Tapes) (m' : Machine) : Prop where
  same : m' = m.wire m'.source
  kept : ∀ k w, m.source.get? t k = some w → m'.source.get? t' k = some w

theorem planOf_of_ne_wait {m : Machine} {word : Word} {i : Instruction}
    (h : m.planOf none word i ≠ .ok .wait) (w : Word) :
    m.planOf (some w) word i = m.planOf none word i := by
  obtain ⟨opcode, modes⟩ := i
  cases opcode with
  | storeInput => exact absurd rfl h
  | _ => rfl

/-- The next input word matters only to a machine that would wait for it. -/
theorem plan_of_ne_wait {m : Machine} (h : m.plan none ≠ .ok .wait) (u : Option Word) :
    m.plan u = m.plan none := by
  cases u with
  | none => rfl
  | some w =>
    by_cases hh : m.isHalted
    · rw [plan, plan, if_pos hh, if_pos hh]
    · obtain ⟨word, i, -, -, hp⟩ | ⟨fault, hp⟩ := plan_cases (Bool.eq_false_iff.2 hh)
      · rw [hp] at h
        rw [hp, hp, planOf_of_ne_wait h]
      · rw [hp, hp]

theorem getElem?_append_of_some {a b : Array Word} {k : Nat} {w : Word}
    (h : a[k]? = some w) : (a ++ b)[k]? = some w := by
  obtain ⟨hk, -⟩ := Array.getElem?_eq_some_iff.1 h
  rw [Array.getElem?_append_left hk, h]

theorem MoreToRead.unread {t t' : Tapes} {m m' : Machine} {w : Word}
    (h : MoreToRead t m t' m') (hu : m.unread? t = some w) : m'.unread? t' = some w := by
  have hc : m'.cursor = m.cursor := by rw [h.same]; rfl
  rw [unread?, hc]
  exact h.kept _ _ hu

theorem MoreToRead.plan {t t' : Tapes} {m m' : Machine} (h : MoreToRead t m t' m')
    (hw : m.plan (m.unread? t) ≠ .ok .wait) :
    m'.plan (m'.unread? t') = m.plan (m.unread? t) := by
  have hp : ∀ u, m'.plan u = m.plan u := by
    intro u
    rw [h.same]
    rfl
  rw [hp]
  cases hu : m.unread? t with
  | none =>
    rw [hu] at hw
    exact plan_of_ne_wait hw _
  | some w => rw [h.unread hu]

theorem MoreToRead.write (t : Tapes) (m : Machine) (i : TapeId) (words : List Word) :
    MoreToRead t m (t.extend i words) m := by
  refine ⟨rfl, fun k w h => ?_⟩
  cases hs : m.source with
  | owned held =>
    rw [hs] at h
    exact h
  | tape id =>
    rw [hs] at h
    replace h : (t.values id)[k]? = some w := h
    show ((t.extend i words).values id)[k]? = some w
    rw [Tapes.values_extend]
    split
    · rename_i hi
      rw [hi]
      exact getElem?_append_of_some h
    · exact h

theorem MoreToRead.feed (t : Tapes) (m : Machine) (words : List Word) :
    MoreToRead t m (m.feed t words).1 (m.feed t words).2 := by
  refine ⟨rfl, fun k w h => ?_⟩
  replace h : (m.source.values t)[k]? = some w := h
  show ((m.source.extend t words).2.values (m.source.extend t words).1)[k]? = some w
  rw [Source.values_extend]
  exact getElem?_append_of_some h

end Machine
end Intcode
