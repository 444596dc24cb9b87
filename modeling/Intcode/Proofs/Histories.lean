import Intcode.Proofs.Cells
import Intcode.Proofs.Runs
import Intcode.Proofs.Tapes

/-!
# Intcode.Proofs.Histories

What a machine does until it rests, as the list of the instructions that it completes.

A history tells how a machine and its tapes are changed by it, without the program that the
machine ran: `replay` and `replayOn` make the same changes to any machine and any tapes.

* `Completes`           : the machine completes the instructions of a history.
* `execute_eq_some_iff` : an execution is a history and one turn more, in which the machine rests.
* `Did`                 : what is to be seen of a history in the machine and on the tapes.
-/

namespace Intcode

/-- The cell that an action changes, and the word it stores there. -/
def Action.stored? : Action → Option (Address × Word)
  | .store a w => some (a, w)
  | .take a w => some (a, w)
  | _ => none

/-- The input word that an action takes. -/
def Action.taken? : Action → Option Word
  | .take _ w => some w
  | _ => none

def Action.emitted? : Action → Option Word
  | .emit w => some w
  | _ => none

/-- Completed instructions, first one first: how many cells each took up, and what it did. -/
abbrev History := List (Nat × Action)

namespace History

def stores (h : History) : List (Address × Word) := h.filterMap (·.2.stored?)

def taken (h : History) : List Word := h.filterMap (·.2.taken?)

def emitted (h : History) : List Word := h.filterMap (·.2.emitted?)

theorem stores_cons (width : Nat) (action : Action) (rest : History) :
    stores ((width, action) :: rest) = action.stored?.toList ++ rest.stores := by
  cases action <;> rfl

theorem taken_cons (width : Nat) (action : Action) (rest : History) :
    taken ((width, action) :: rest) = action.taken?.toList ++ rest.taken := by
  cases action <;> rfl

theorem emitted_cons (width : Nat) (action : Action) (rest : History) :
    emitted ((width, action) :: rest) = action.emitted?.toList ++ rest.emitted := by
  cases action <;> rfl

end History

namespace Machine

/-- The machine after the instructions of a history. -/
def replay (m : Machine) : History → Machine
  | [] => m
  | (width, action) :: rest => (m.act width action).replay rest

/-- The tapes after a machine completed the instructions of a history. -/
def replayOn (m : Machine) (t : Tapes) : History → Tapes
  | [] => t
  | (width, action) :: rest => (m.act width action).replayOn (m.actOn t action) rest

/-- The instructions that the machine completes next are those of the history. -/
inductive Completes : Tapes → Machine → History → Prop where
  | nil {t : Tapes} {m : Machine} : Completes t m []
  | cons {t : Tapes} {m : Machine} {width : Nat} {action : Action} {rest : History} :
      m.plan (m.unread? t) = .ok (.act width action) →
      Completes (m.actOn t action) (m.act width action) rest →
      Completes t m ((width, action) :: rest)

/-- What came of a machine that completed the instructions of a history and then rested. -/
structure Did (t : Tapes) (m : Machine) (h : History) (t' : Tapes) (m' : Machine) : Prop where
  tapes : t' = m.replayOn t h
  machine : m' = { m.replay h with state := m'.state }

/-! ## Executions are histories -/

/-- A history of an execution is shorter than its fuel. -/
theorem execute_eq_some_iff {fuel : Nat} {t : Tapes} {m : Machine}
    {out : Tapes × Machine × Except Error HaltReason} :
    execute fuel t m = some out ↔
      ∃ h : History, h.length < fuel ∧ Completes t m h ∧
        (m.replay h).turn (m.replayOn t h) = (out.1, out.2.1, .rested out.2.2) := by
  induction fuel generalizing t m with
  | zero => simp [execute]
  | succ fuel ih =>
    obtain ⟨⟨t₁, m₁, _ | r⟩, ht⟩ : ∃ next, m.turn t = next := ⟨_, rfl⟩
    · obtain ⟨width, action, hp, rfl, rfl⟩ := turn_completed_iff.1 ht
      rw [execute, ht]
      refine ih.trans ⟨?_, ?_⟩
      · rintro ⟨h, hlt, hc, hr⟩
        exact ⟨(width, action) :: h, Nat.succ_lt_succ hlt, .cons hp hc, hr⟩
      · rintro ⟨h, hlt, hc, hr⟩
        cases hc with
        | nil =>
          have hr : m.turn t = _ := hr
          simp [ht] at hr
        | cons hp' hc =>
          rw [hp] at hp'
          cases hp'
          exact ⟨_, Nat.lt_of_succ_lt_succ hlt, hc, hr⟩
    · rw [execute, ht]
      constructor
      · intro he
        cases he
        exact ⟨[], Nat.succ_pos _, .nil, ht⟩
      · rintro ⟨h, -, hc, hr⟩
        cases hc with
        | nil =>
          replace hr : m.turn t = _ := hr
          rw [ht] at hr
          cases hr
          rfl
        | cons hp' _ =>
          rw [turn_completed_iff.2 ⟨_, _, hp', rfl, rfl⟩] at ht
          cases ht

theorem did_of_turn {t t' : Tapes} {m m' : Machine} {h : History}
    {r : Except Error HaltReason}
    (hr : (m.replay h).turn (m.replayOn t h) = (t', m', .rested r)) : Did t m h t' m' :=
  ⟨(turn_rested hr).1, (turn_rested hr).2⟩

theorem exists_did {fuel : Nat} {t : Tapes} {m : Machine}
    {out : Tapes × Machine × Except Error HaltReason} (hx : execute fuel t m = some out) :
    ∃ h, Did t m h out.1 out.2.1 := by
  obtain ⟨h, -, -, hr⟩ := execute_eq_some_iff.1 hx
  exact ⟨h, did_of_turn hr⟩

/-! ## What a history changes -/

theorem act_memory (m : Machine) (width : Nat) (action : Action) :
    (m.act width action).memory = m.memory.setAll action.stored?.toList := by
  cases action <;> rfl

theorem act_cursor (m : Machine) (width : Nat) (action : Action) :
    (m.act width action).cursor = m.cursor + action.taken?.toList.length := by
  cases action <;> rfl

theorem values_actOn_output (m : Machine) (t : Tapes) (action : Action) :
    (m.actOn t action).values m.output =
      t.values m.output ++ action.emitted?.toList.toArray := by
  cases action with
  | emit w =>
    rw [actOn, Tapes.values_push, if_pos rfl, Array.push_eq_append]
    rfl
  | _ => exact (Array.append_empty ..).symm

@[simp] theorem replay_source (m : Machine) (h : History) : (m.replay h).source = m.source := by
  induction h generalizing m with
  | nil => rfl
  | cons e rest ih => rw [replay, ih, act_source]

@[simp] theorem replay_output (m : Machine) (h : History) : (m.replay h).output = m.output := by
  induction h generalizing m with
  | nil => rfl
  | cons e rest ih => rw [replay, ih, act_output]

theorem replay_steps (m : Machine) (h : History) :
    (m.replay h).steps = m.steps + h.length := by
  induction h generalizing m with
  | nil => rfl
  | cons e rest ih =>
    rw [replay, ih, act_steps, List.length_cons, Nat.add_assoc, Nat.add_comm 1]

theorem replay_cursor (m : Machine) (h : History) :
    (m.replay h).cursor = m.cursor + h.taken.length := by
  induction h generalizing m with
  | nil => rfl
  | cons e rest ih =>
    rw [replay, ih, act_cursor, History.taken_cons, List.length_append, Nat.add_assoc]

theorem replay_memory (m : Machine) (h : History) :
    (m.replay h).memory = m.memory.setAll h.stores := by
  induction h generalizing m with
  | nil => rfl
  | cons e rest ih => rw [replay, ih, act_memory, History.stores_cons, Memory.setAll_append]

/-- A machine adds to its own tape what it emits. -/
theorem values_replayOn_output (m : Machine) (t : Tapes) (h : History) :
    (m.replayOn t h).values m.output = t.values m.output ++ h.emitted.toArray := by
  induction h generalizing m t with
  | nil => exact (Array.append_empty ..).symm
  | cons e rest ih =>
    have hrest := ih (m.act e.1 e.2) (m.actOn t e.2)
    rw [act_output, values_actOn_output, Array.append_assoc] at hrest
    rw [replayOn, hrest, History.emitted_cons, List.append_toArray e.2.emitted?.toList]

theorem values_replayOn (m : Machine) (t : Tapes) (h : History) {i : TapeId}
    (hi : i ≠ m.output) : (m.replayOn t h).values i = t.values i := by
  induction h generalizing m t with
  | nil => rfl
  | cons e rest ih =>
    rw [replayOn, ih _ _ (by rwa [act_output]), values_actOn m t _ hi]

/-- A machine that does not read its own tape adds nothing to what it reads. -/
theorem input_actOn {m : Machine} (hm : m.source ≠ .tape m.output) (t : Tapes)
    (action : Action) : m.source.values (m.actOn t action) = m.source.values t := by
  refine Source.values_congr fun i hi => values_actOn m t action ?_
  rintro rfl
  exact hm hi

/-- Where a machine reads and writes does not matter to a history. -/
theorem replay_rehouse (m : Machine) (source : Source) (output : TapeId) (h : History) :
    ({ m with source, output } : Machine).replay h = { m.replay h with source, output } := by
  induction h generalizing m with
  | nil => rfl
  | cons e rest ih =>
    obtain ⟨width, action⟩ := e
    rw [replay, replay, ← ih]
    cases action <;> rfl

namespace Did

variable {t t' : Tapes} {m m' : Machine} {h : History}

theorem source (hd : Did t m h t' m') : m'.source = m.source := by
  rw [hd.machine]
  exact replay_source m h

theorem output (hd : Did t m h t' m') : m'.output = m.output := by
  rw [hd.machine]
  exact replay_output m h

theorem steps (hd : Did t m h t' m') : m'.steps = m.steps + h.length := by
  rw [hd.machine]
  exact replay_steps m h

theorem cursor (hd : Did t m h t' m') : m'.cursor = m.cursor + h.taken.length := by
  rw [hd.machine]
  exact replay_cursor m h

theorem memory (hd : Did t m h t' m') : m'.memory = m.memory.setAll h.stores := by
  rw [hd.machine]
  exact replay_memory m h

theorem emitted (hd : Did t m h t' m') :
    t'.values m.output = t.values m.output ++ h.emitted.toArray := by
  rw [hd.tapes]
  exact values_replayOn_output m t h

theorem others (hd : Did t m h t' m') {i : TapeId} (hi : i ≠ m.output) :
    t'.values i = t.values i := by
  rw [hd.tapes]
  exact values_replayOn m t h hi

theorem input (hd : Did t m h t' m') (hm : m.source ≠ .tape m.output) :
    m.source.values t' = m.source.values t := by
  refine Source.values_congr fun i hi => hd.others ?_
  rintro rfl
  exact hm hi

end Did

end Machine
end Intcode
