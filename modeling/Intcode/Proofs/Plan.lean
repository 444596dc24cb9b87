import Intcode.Machine.Execute

/-!
# Intcode.Proofs.Plan

What one instruction asks for, worked out in advance.

`Machine.step` moves through an instruction cell by cell. Here the same instruction is read off
the machine as it stands before it (`Machine.plan`), and carried out at one stroke
(`Machine.act` on the machine, `Machine.actOn` on its tapes).

* `turn_eq` : a turn is the plan, carried out; a plan that cannot be worked out changes nothing.

Everything that a machine does is derived from `turn_eq`.
-/

namespace Intcode

inductive Action where
  | store (address : Address) (word : Word)
  | take (address : Address) (word : Word)
  | emit (word : Word)
  | jump (target : Word)
  | pass
  | rebase (amount : Word)
deriving Repr, DecidableEq

/-- What the instruction at the program counter asks for. -/
inductive Plan where
  | act (width : Nat) (action : Action)
  | wait
  | halt
deriving Repr, DecidableEq

/-- What an instruction asks for, by what its parameters stand for as operands and as
destinations. -/
def Instruction.plan (i : Instruction) (operand : Fin 3 → Except Fault Word)
    (destination : Fin 3 → Except Fault Address) (unread : Option Word) : Except Fault Plan :=
  let act (action : Except Fault Action) : Except Fault Plan := action.map (.act i.width)
  let store (f : Word → Word → Word) : Except Fault Action := do
    let a ← operand 0
    let b ← operand 1
    let address ← destination 2
    return .store address (f a b)
  let jump (test : Word → Bool) : Except Fault Action := do
    let a ← operand 0
    let target ← operand 1
    return if test a then .jump target else .pass
  match i.opcode with
  | .add => act (store (· + ·))
  | .multiply => act (store (· * ·))
  | .lessThan => act (store fun a b => Word.ofBool (a < b))
  | .equals => act (store fun a b => Word.ofBool (a = b))
  | .storeInput =>
    match unread with
    | none => .ok .wait
    | some value => act (do return .take (← destination 0) value)
  | .output => act (do return .emit (← operand 0))
  | .jumpIfTrue => act (jump (· != 0))
  | .jumpIfFalse => act (jump (· == 0))
  | .adjustRelativeBase => act (do return .rebase (← operand 0))
  | .halt => .ok .halt

/-- An instruction asks to wait or to halt, or for an action of its width. -/
theorem Instruction.plan_eq_ok_cases {i : Instruction} {operand : Fin 3 → Except Fault Word}
    {destination : Fin 3 → Except Fault Address} {unread : Option Word} {plan : Plan}
    (h : i.plan operand destination unread = .ok plan) :
    (i.opcode = .storeInput ∧ unread = none ∧ plan = .wait) ∨
      (i.opcode = .halt ∧ plan = .halt) ∨ ∃ action, plan = .act i.width action := by
  obtain ⟨opcode, modes⟩ := i
  have acts {width : Nat} {e : Except Fault Action} (h : e.map (.act width) = .ok plan) :
      ∃ action, plan = .act width action := by
    cases e with
    | error fault => cases h
    | ok action =>
      cases h
      exact ⟨action, rfl⟩
  cases opcode with
  | storeInput =>
    cases unread with
    | none =>
      cases h
      exact .inl ⟨rfl, rfl, rfl⟩
    | some value => exact .inr (.inr (acts h))
  | halt =>
    cases h
    exact .inr (.inl ⟨rfl, rfl⟩)
  | _ => exact .inr (.inr (acts h))

namespace Machine

/-- The cell of a parameter, counted from zero. -/
def place (m : Machine) (i : Nat) : Word := m.pc + 1 + Int64.ofNat i

def operand (m : Machine) (modes : Modes) (i : Fin 3) : Except Fault Word := do
  let p ← m.cell (m.place i)
  match modes.get i with
  | .position => m.cell p
  | .immediate => return p
  | .relative => return m.memory.get (← m.relativeAddress p)

/-- The address that a parameter stands for as the destination of the instruction `word`. -/
def destination (m : Machine) (word : Word) (modes : Modes) (i : Fin 3) :
    Except Fault Address := do
  let p ← m.cell (m.place i)
  match modes.get i with
  | .position => Word.address p
  | .immediate => .error (.immediateWrite word)
  | .relative => m.relativeAddress p

def planStore (m : Machine) (word : Word) (modes : Modes) (f : Word → Word → Word) :
    Except Fault Action := do
  let a ← m.operand modes 0
  let b ← m.operand modes 1
  let address ← m.destination word modes 2
  return .store address (f a b)

def planJump (m : Machine) (modes : Modes) (test : Word → Bool) : Except Fault Action := do
  let a ← m.operand modes 0
  let target ← m.operand modes 1
  return if test a then .jump target else .pass

/-- What the instruction `i` asks for, if it is made of `word` and `unread` is the next input
word. -/
def planOf (m : Machine) (unread : Option Word) (word : Word) (i : Instruction) :
    Except Fault Plan :=
  let act (action : Except Fault Action) : Except Fault Plan := action.map (.act i.width)
  match i.opcode with
  | .add => act (m.planStore word i.modes (· + ·))
  | .multiply => act (m.planStore word i.modes (· * ·))
  | .lessThan => act (m.planStore word i.modes fun a b => Word.ofBool (a < b))
  | .equals => act (m.planStore word i.modes fun a b => Word.ofBool (a = b))
  | .storeInput =>
    match unread with
    | none => .ok .wait
    | some value => act (do return .take (← m.destination word i.modes 0) value)
  | .output => act (do return .emit (← m.operand i.modes 0))
  | .jumpIfTrue => act (m.planJump i.modes (· != 0))
  | .jumpIfFalse => act (m.planJump i.modes (· == 0))
  | .adjustRelativeBase => act (do return .rebase (← m.operand i.modes 0))
  | .halt => .ok .halt

/-- What the instruction at the program counter asks for. A machine that has halted halts
again. -/
def plan (m : Machine) (unread : Option Word) : Except Fault Plan :=
  if m.isHalted then .ok .halt
  else do
    let word ← m.cell m.pc
    m.planOf unread word (← Instruction.decode word)

def act (m : Machine) (width : Nat) (action : Action) : Machine :=
  let next := (m.goto (m.pc + Int64.ofNat width)).counted
  match action with
  | .store a w => { next with memory := m.memory.set a w }
  | .take a w => { next with memory := m.memory.set a w, cursor := m.cursor + 1 }
  | .emit w => { next with lastEmitted := some w }
  | .jump target => (m.goto target).counted
  | .pass => next
  | .rebase amount => { next with relativeBase := m.relativeBase + amount }

def actOn (m : Machine) (tapes : Tapes) : Action → Tapes
  | .emit w => tapes.push m.output w
  | _ => tapes

/-- The plan depends on the machine by its operands and destinations alone. -/
theorem planOf_eq (m : Machine) (unread : Option Word) (word : Word) (i : Instruction) :
    m.planOf unread word i = i.plan (m.operand i.modes) (m.destination word i.modes) unread := by
  obtain ⟨opcode, modes⟩ := i
  cases opcode <;> rfl

theorem bind_eq_ok_iff {ε α β : Type} {e : Except ε α} {f : α → Except ε β} {b : β} :
    e >>= f = .ok b ↔ ∃ a, e = .ok a ∧ f a = .ok b := by
  cases e with
  | error fault => simp [bind, Except.bind]
  | ok a => simp [bind, Except.bind]

theorem bind_eq_error_iff {ε α β : Type} {e : Except ε α} {f : α → Except ε β} {fault : ε} :
    e >>= f = .error fault ↔ e = .error fault ∨ ∃ a, e = .ok a ∧ f a = .error fault := by
  cases e with
  | error fault => simp [bind, Except.bind]
  | ok a => simp [bind, Except.bind]

theorem planStore_eq_ok_iff {m : Machine} {word : Word} {modes : Modes}
    {f : Word → Word → Word} {action : Action} :
    m.planStore word modes f = .ok action ↔
      ∃ x y d, m.operand modes 0 = .ok x ∧ m.operand modes 1 = .ok y ∧
        m.destination word modes 2 = .ok d ∧ action = .store d (f x y) := by
  simp only [planStore, bind_eq_ok_iff]
  constructor
  · rintro ⟨x, hx, y, hy, d, hd, h⟩
    cases h
    exact ⟨x, y, d, hx, hy, hd, rfl⟩
  · rintro ⟨x, y, d, hx, hy, hd, rfl⟩
    exact ⟨x, hx, y, hy, d, hd, rfl⟩

theorem planJump_eq_ok_iff {m : Machine} {modes : Modes} {test : Word → Bool}
    {action : Action} :
    m.planJump modes test = .ok action ↔
      ∃ x target, m.operand modes 0 = .ok x ∧ m.operand modes 1 = .ok target ∧
        action = if test x then .jump target else .pass := by
  simp only [planJump, bind_eq_ok_iff]
  constructor
  · rintro ⟨x, hx, target, ht, h⟩
    cases h
    exact ⟨x, target, hx, ht, rfl⟩
  · rintro ⟨x, target, hx, ht, rfl⟩
    exact ⟨x, hx, target, ht, rfl⟩

theorem map_act_eq_ok_iff {e : Except Fault Action} {width width' : Nat} {action : Action} :
    e.map (.act width) = .ok (Plan.act width' action) ↔ width = width' ∧ e = .ok action := by
  cases e with
  | error fault => simp [Except.map]
  | ok a => simp [Except.map]

theorem plan_of_decode {m : Machine} {word : Word} {i : Instruction} (h : m.isHalted = false)
    (hc : m.cell m.pc = .ok word) (hi : Instruction.decode word = .ok i) (u : Option Word) :
    m.plan u = m.planOf u word i := by
  rw [plan, h, hc]
  show (Instruction.decode word >>= _) = _
  rw [hi]
  rfl

/-- The instruction at the program counter can be read, or its fault is there whatever the next
input word is. -/
theorem plan_cases {m : Machine} (h : m.isHalted = false) :
    (∃ word i, m.cell m.pc = .ok word ∧ Instruction.decode word = .ok i ∧
      ∀ u, m.plan u = m.planOf u word i) ∨
    (∃ fault, ∀ u, m.plan u = .error fault) := by
  cases hc : m.cell m.pc with
  | error fault =>
    refine .inr ⟨fault, fun u => ?_⟩
    rw [plan, h, hc]
    rfl
  | ok word =>
    cases hi : Instruction.decode word with
    | error fault =>
      refine .inr ⟨fault, fun u => ?_⟩
      rw [plan, h, hc]
      show (Instruction.decode word >>= _) = _
      rw [hi]
      rfl
    | ok i => exact .inl ⟨word, i, rfl, hi, plan_of_decode h hc hi⟩

theorem place_zero (m : Machine) : m.place 0 = m.pc + 1 := Int64.add_zero _

theorem place_succ (m : Machine) (i : Nat) : m.place (i + 1) = m.place i + 1 := by
  rw [place, place, Int64.ofNat_add, ← Int64.add_assoc]
  rfl

/-- Behind the last parameter the next instruction begins. -/
theorem place_eq (m : Machine) (n : Nat) : m.place n = m.pc + Int64.ofNat (n + 1) := by
  rw [place, Int64.add_assoc, Int64.add_comm 1, Int64.ofNat_add]
  rfl

end Machine

namespace Work

open Machine

/-- What came of some work is what was worked out in advance. If that was a fault, the work came
to it and changed nothing but the program counter. -/
def Gives {α β : Type} (good : α → EStateM.Result Fault (Tapes × Machine) β → Prop)
    (tapes : Tapes) (m : Machine) (r : EStateM.Result Fault (Tapes × Machine) β) :
    Except Fault α → Prop
  | .ok a => good a r
  | .error fault => ∃ pc, r = .error fault (tapes, m.goto pc)

/-- A value was found, and the machine moved on to the cell `next`. -/
def Moved {α : Type} (tapes : Tapes) (m : Machine) (next : Word) (a : α)
    (r : EStateM.Result Fault (Tapes × Machine) α) : Prop :=
  r = .ok a (tapes, m.goto next)

/-- An effect was had; the instruction is not counted yet. -/
def Carried (tapes : Tapes) (m : Machine) (width : Nat) (action : Action)
    (r : EStateM.Result Fault (Tapes × Machine) Progress) : Prop :=
  ∃ n, r = .ok .done (m.actOn tapes action, n) ∧ n.counted = m.act width action

/-- A plan was carried out; the program counter is not put back yet. -/
def Performed (tapes : Tapes) (m : Machine) :
    Plan → EStateM.Result Fault (Tapes × Machine) Progress → Prop
  | .act width action, r => Carried tapes m width action r
  | .wait, r => ∃ pc, r = .ok .waiting (tapes, m.goto pc)
  | .halt, r => ∃ pc, r = .ok .halting (tapes, m.goto pc)

section Phases

variable {tapes : Tapes} {m : Machine}

theorem bind_ok {α β : Type} {x : Work α} {f : α → Work β} {s s' : Tapes × Machine} {a : α}
    (h : x s = .ok a s') : (x >>= f) s = f a s' := by
  show EStateM.bind x f s = f a s'
  simp only [EStateM.bind, h]

theorem bind_error {α β : Type} {x : Work α} {f : α → Work β} {s s' : Tapes × Machine}
    {fault : Fault} (h : x s = .error fault s') : (x >>= f) s = .error fault s' := by
  show EStateM.bind x f s = .error fault s'
  simp only [EStateM.bind, h]

theorem gives_bind {α β γ : Type} {x : Work α} {f : α → Work β} {e : Except Fault α}
    {g : α → Except Fault γ} {good : γ → EStateM.Result Fault (Tapes × Machine) β → Prop}
    {here next : Word} (hx : Gives (Moved tapes m next) tapes m (x (tapes, m.goto here)) e)
    (hf : ∀ a, Gives good tapes m (f a (tapes, m.goto next)) (g a)) :
    Gives good tapes m ((x >>= f) (tapes, m.goto here)) (e >>= g) := by
  cases e with
  | ok a =>
    rw [bind_ok hx]
    exact hf a
  | error fault =>
    obtain ⟨pc, hx⟩ := hx
    exact ⟨pc, bind_error hx⟩

theorem gives_check {α : Type} (e : Except Fault α) (pc : Word) :
    Gives (Moved tapes m pc) tapes m (check e (tapes, m.goto pc)) e := by
  cases e with
  | ok a => exact rfl
  | error fault => exact ⟨pc, rfl⟩

theorem gives_fetch (pc : Word) :
    Gives (Moved tapes m (pc + 1)) tapes m (fetch (tapes, m.goto pc)) (m.cell pc) := by
  have h : Gives (Moved tapes m (pc + 1)) tapes m (fetch (tapes, m.goto pc))
      (m.cell pc >>= pure) :=
    gives_bind (gives_check (m.cell pc) pc) fun w => rfl
  cases hc : m.cell pc <;> rw [hc] at h <;> exact h

theorem gives_operand (modes : Modes) (i : Fin 3) :
    Gives (Moved tapes m (m.place (i + 1))) tapes m
      (operand (modes.get i) (tapes, m.goto (m.place i))) (m.operand modes i) := by
  refine gives_bind (gives_fetch (m.place i)) fun p => ?_
  rw [← place_succ]
  cases modes.get i with
  | position => exact gives_check (m.cell p) _
  | immediate => exact rfl
  | relative => exact gives_bind (gives_check (m.relativeAddress p) _) fun a => rfl

theorem gives_destination (word : Word) (modes : Modes) (i : Fin 3) :
    Gives (Moved tapes m (m.place (i + 1))) tapes m
      (destination word (modes.get i) (tapes, m.goto (m.place i)))
      (m.destination word modes i) := by
  refine gives_bind (gives_fetch (m.place i)) fun p => ?_
  rw [← place_succ]
  cases modes.get i with
  | position => exact gives_check (Word.address p) _
  | immediate => exact gives_check (.error (.immediateWrite word)) _
  | relative => exact gives_check (m.relativeAddress p) _

theorem gives_combine (word : Word) (modes : Modes) (f : Word → Word → Word) :
    Gives (Carried tapes m 4) tapes m (combine word modes f (tapes, m.goto (m.place 0)))
      (m.planStore word modes f) := by
  refine gives_bind (gives_operand modes 0) fun a => ?_
  refine gives_bind (gives_operand modes 1) fun b => ?_
  refine gives_bind (gives_destination word modes 2) fun address => ?_
  rw [m.place_eq]
  exact ⟨_, rfl, rfl⟩

theorem gives_jump (modes : Modes) (test : Word → Bool) :
    Gives (Carried tapes m 3) tapes m (jump modes test (tapes, m.goto (m.place 0)))
      (m.planJump modes test) := by
  refine gives_bind (gives_operand modes 0) fun a => ?_
  refine gives_bind (gives_operand modes 1) fun target => ?_
  rw [m.place_eq]
  cases test a with
  | true => exact ⟨_, rfl, rfl⟩
  | false => exact ⟨_, rfl, rfl⟩

theorem gives_performed {r : EStateM.Result Fault (Tapes × Machine) Progress} {width : Nat}
    {e : Except Fault Action} (h : Gives (Carried tapes m width) tapes m r e) :
    Gives (Performed tapes m) tapes m r (e.map (.act width)) := by
  cases e with
  | ok action => exact h
  | error fault => exact h

theorem gives_take (word : Word) (modes : Modes) :
    Gives (Performed tapes m) tapes m (take word modes (tapes, m.goto (m.place 0)))
      (m.planOf (m.unread? tapes) word ⟨.storeInput, modes⟩) := by
  have hu : Gives (Moved tapes m (m.place 0)) tapes m (unread (tapes, m.goto (m.place 0)))
      (.ok (m.unread? tapes)) := rfl
  refine gives_bind (g := fun u => m.planOf u word ⟨.storeInput, modes⟩) hu fun u => ?_
  cases u with
  | none => exact ⟨_, rfl⟩
  | some value =>
    refine gives_performed (gives_bind (gives_destination word modes 0) fun address => ?_)
    rw [m.place_eq]
    exact ⟨_, rfl, rfl⟩

theorem gives_step (h : m.isHalted = false) :
    Gives (Performed tapes m) tapes m (step (tapes, m)) (m.plan (m.unread? tapes)) := by
  rw [plan, h]
  refine gives_bind (gives_fetch m.pc) fun word => ?_
  refine gives_bind (gives_check (Instruction.decode word) (m.pc + 1)) fun i => ?_
  rw [← place_zero]
  obtain ⟨opcode, modes⟩ := i
  cases opcode with
  | add => exact gives_performed (gives_combine word modes (· + ·))
  | multiply => exact gives_performed (gives_combine word modes (· * ·))
  | lessThan => exact gives_performed (gives_combine word modes fun a b => Word.ofBool (a < b))
  | equals => exact gives_performed (gives_combine word modes fun a b => Word.ofBool (a = b))
  | storeInput => exact gives_take word modes
  | output =>
    refine gives_performed (gives_bind (gives_operand modes 0) fun a => ?_)
    rw [m.place_eq]
    exact ⟨_, rfl, rfl⟩
  | jumpIfTrue => exact gives_performed (gives_jump modes (· != 0))
  | jumpIfFalse => exact gives_performed (gives_jump modes (· == 0))
  | adjustRelativeBase =>
    refine gives_performed (gives_bind (gives_operand modes 0) fun a => ?_)
    rw [m.place_eq]
    exact ⟨_, rfl, rfl⟩
  | halt => exact ⟨_, rfl⟩

end Phases
end Work

namespace Machine

/-- **A turn is its plan, carried out.** If the plan cannot be worked out, nothing changes. -/
theorem turn_eq (tapes : Tapes) (m : Machine) :
    m.turn tapes =
      match m.plan (m.unread? tapes) with
      | .ok (.act width action) => (m.actOn tapes action, m.act width action, .completed)
      | .ok .wait => (tapes, m, .rested (.ok .waitingForInput))
      | .ok .halt => (tapes, { m with state := .halted }, .rested (.ok .haltInstruction))
      | .error fault => (tapes, m, .rested (.error (fault.errorAt m.pc))) := by
  by_cases h : m.isHalted
  · have hs : m.state = .halted := by simpa [isHalted] using h
    rw [turn, plan, if_pos h, if_pos h, ← hs]
  · have hg : Work.Gives (Work.Performed tapes m) tapes m (step (tapes, m))
        (m.plan (m.unread? tapes)) := Work.gives_step (Bool.eq_false_iff.2 h)
    rw [turn, if_neg h]
    cases hp : m.plan (m.unread? tapes) with
    | error fault =>
      rw [hp] at hg
      obtain ⟨pc, hg⟩ := hg
      rw [hg]
      rfl
    | ok p =>
      rw [hp] at hg
      cases p with
      | act width action =>
        obtain ⟨n, hr, hn⟩ := hg
        simp only [hr, hn]
      | wait =>
        obtain ⟨pc, hg⟩ := hg
        rw [hg]
        rfl
      | halt =>
        obtain ⟨pc, hg⟩ := hg
        rw [hg]
        rfl

@[simp] theorem act_source (m : Machine) (width : Nat) (action : Action) :
    (m.act width action).source = m.source := by
  cases action <;> rfl

@[simp] theorem act_output (m : Machine) (width : Nat) (action : Action) :
    (m.act width action).output = m.output := by
  cases action <;> rfl

@[simp] theorem act_state (m : Machine) (width : Nat) (action : Action) :
    (m.act width action).state = m.state := by
  cases action <;> rfl

@[simp] theorem act_steps (m : Machine) (width : Nat) (action : Action) :
    (m.act width action).steps = m.steps + 1 := by
  cases action <;> rfl

/-- A machine writes to its own tape only. -/
theorem values_actOn (m : Machine) (tapes : Tapes) (action : Action) {i : TapeId}
    (h : i ≠ m.output) : (m.actOn tapes action).values i = tapes.values i := by
  cases action with
  | emit w => rw [actOn, Tapes.values_push, if_neg h.symm]
  | _ => rfl

end Machine
end Intcode
