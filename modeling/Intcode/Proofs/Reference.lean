import Intcode.Proofs.Addresses
import Intcode.Proofs.Decode
import Intcode.Proofs.Runs

/-!
# Intcode.Proofs.Reference

The machine against the rules of its language.

`Reference.Step` is written down rule by rule, one rule for each operation and for each way a
jump can go. It knows no cells side by side or one by one, no program counter that moves through
an instruction, and no order in which operands are read: a `View` has a word at every address,
parameter `i` lies `i` cells behind the instruction word, and all operands are read in the view
before the step. Addresses are integers, and only those below `2 ^ 63` can be named.

* `turn_refines_reference` : the instructions that a running machine completes are exactly the
  steps of its view.
-/

namespace Intcode
namespace Reference

/-- What is to be seen of a machine, apart from what it reads. -/
structure View where
  cells : Address → Word
  pc : Word
  base : Word
  cursor : Nat
  output : List Word
  lastEmitted : Option Word
  steps : Nat

/-- Cell `n` holds the word `w`. -/
def Holds (v : View) (n : Int) (w : Word) : Prop :=
  ∃ a : Address, (a.toNat : Int) = n ∧ n < 2 ^ 63 ∧ v.cells a = w

/-- The word at the program counter is the number of the instruction `i`. -/
def Fetches (v : View) (i : Instruction) : Prop :=
  ∃ w, Holds v v.pc.toInt w ∧ w.toInt = i.number

inductive Operand (v : View) (i : Nat) : Mode → Word → Prop where
  | position {p x : Word} :
      Holds v (v.pc.toInt + i) p → Holds v p.toInt x → Operand v i .position x
  | immediate {p : Word} : Holds v (v.pc.toInt + i) p → Operand v i .immediate p
  | relative {p x : Word} :
      Holds v (v.pc.toInt + i) p → Holds v (p.toInt + v.base.toInt) x →
        Operand v i .relative x

/-- The address that parameter `i` stands for as a destination. -/
inductive Target (v : View) (i : Nat) : Mode → Address → Prop where
  | position {p : Word} {a : Address} :
      Holds v (v.pc.toInt + i) p → (a.toNat : Int) = p.toInt → Target v i .position a
  | relative {p : Word} {a : Address} :
      Holds v (v.pc.toInt + i) p → (a.toNat : Int) = p.toInt + v.base.toInt →
        a.toNat < 2 ^ 63 → Target v i .relative a

def View.past (v : View) (op : Opcode) : View :=
  { v with pc := Int64.ofInt (v.pc.toInt + 1 + op.arity), steps := v.steps + 1 }

def View.jumped (v : View) (target : Word) : View :=
  { v with pc := target, steps := v.steps + 1 }

def View.stored (v : View) (d : Address) (w : Word) : View :=
  { v with cells := fun a => if a = d then w else v.cells a }

/-- One instruction; `input` is what there is to read, by place. -/
inductive Step (input : Nat → Option Word) (v : View) : View → Prop where
  | add {ms : Modes} {x y : Word} {d : Address} :
      Fetches v ⟨.add, ms⟩ → Operand v 1 ms.first x → Operand v 2 ms.second y →
      Target v 3 ms.third d →
      Step input v ((v.past .add).stored d (Int64.ofInt (x.toInt + y.toInt)))
  | multiply {ms : Modes} {x y : Word} {d : Address} :
      Fetches v ⟨.multiply, ms⟩ → Operand v 1 ms.first x → Operand v 2 ms.second y →
      Target v 3 ms.third d →
      Step input v ((v.past .multiply).stored d (Int64.ofInt (x.toInt * y.toInt)))
  | lessThan {ms : Modes} {x y : Word} {d : Address} :
      Fetches v ⟨.lessThan, ms⟩ → Operand v 1 ms.first x → Operand v 2 ms.second y →
      Target v 3 ms.third d →
      Step input v ((v.past .lessThan).stored d (if x.toInt < y.toInt then 1 else 0))
  | equals {ms : Modes} {x y : Word} {d : Address} :
      Fetches v ⟨.equals, ms⟩ → Operand v 1 ms.first x → Operand v 2 ms.second y →
      Target v 3 ms.third d →
      Step input v ((v.past .equals).stored d (if x.toInt = y.toInt then 1 else 0))
  | storeInput {ms : Modes} {w : Word} {d : Address} :
      Fetches v ⟨.storeInput, ms⟩ → input v.cursor = some w → Target v 1 ms.first d →
      Step input v { (v.past .storeInput).stored d w with cursor := v.cursor + 1 }
  | output {ms : Modes} {x : Word} :
      Fetches v ⟨.output, ms⟩ → Operand v 1 ms.first x →
      Step input v { v.past .output with output := v.output ++ [x], lastEmitted := some x }
  | jumpIfTrue {ms : Modes} {x target : Word} :
      Fetches v ⟨.jumpIfTrue, ms⟩ → Operand v 1 ms.first x → Operand v 2 ms.second target →
      x.toInt ≠ 0 → Step input v (v.jumped target)
  | passIfTrue {ms : Modes} {x target : Word} :
      Fetches v ⟨.jumpIfTrue, ms⟩ → Operand v 1 ms.first x → Operand v 2 ms.second target →
      x.toInt = 0 → Step input v (v.past .jumpIfTrue)
  | jumpIfFalse {ms : Modes} {x target : Word} :
      Fetches v ⟨.jumpIfFalse, ms⟩ → Operand v 1 ms.first x → Operand v 2 ms.second target →
      x.toInt = 0 → Step input v (v.jumped target)
  | passIfFalse {ms : Modes} {x target : Word} :
      Fetches v ⟨.jumpIfFalse, ms⟩ → Operand v 1 ms.first x → Operand v 2 ms.second target →
      x.toInt ≠ 0 → Step input v (v.past .jumpIfFalse)
  | adjustRelativeBase {ms : Modes} {x : Word} :
      Fetches v ⟨.adjustRelativeBase, ms⟩ → Operand v 1 ms.first x →
      Step input v
        { v.past .adjustRelativeBase with base := Int64.ofInt (v.base.toInt + x.toInt) }

/-- What an action of the operation `op` does to a view. -/
def View.carried (v : View) (op : Opcode) : Action → View
  | .store d w => (v.past op).stored d w
  | .take d w => { (v.past op).stored d w with cursor := v.cursor + 1 }
  | .emit w => { v.past op with output := v.output ++ [w], lastEmitted := some w }
  | .jump target => v.jumped target
  | .pass => v.past op
  | .rebase amount => { v.past op with base := Int64.ofInt (v.base.toInt + amount.toInt) }

end Reference

namespace Machine

open Reference

def view (m : Machine) (t : Tapes) : View where
  cells := m.memory.get
  pc := m.pc
  base := m.relativeBase
  cursor := m.cursor
  output := (t.values m.output).toList
  lastEmitted := m.lastEmitted
  steps := m.steps

variable {m : Machine} {t : Tapes}

theorem holds_view_iff {p w : Word} : Holds (m.view t) p.toInt w ↔ m.cell p = .ok w := by
  rw [cell_eq_ok_iff]
  constructor
  · rintro ⟨a, ha, -, hw⟩
    exact ⟨a, ha, hw⟩
  · rintro ⟨a, ha, hw⟩
    exact ⟨a, ha, p.toInt_lt, hw⟩

theorem fetches_view_iff {i : Instruction} :
    Fetches (m.view t) i ↔ ∃ w, m.cell m.pc = .ok w ∧ Instruction.decode w = .ok i := by
  constructor
  · rintro ⟨w, hw, hi⟩
    exact ⟨w, holds_view_iff.1 hw, Instruction.decode_eq_ok_iff.2 hi⟩
  · rintro ⟨w, hw, hi⟩
    exact ⟨w, holds_view_iff.2 hw, Instruction.decode_eq_ok_iff.1 hi⟩

/-- A parameter that would lie beyond the last cell is one that the machine cannot read. -/
theorem holds_place_iff {i : Fin 3} {p : Word} :
    Holds (m.view t) (m.pc.toInt + (i + 1)) p ↔ m.cell (m.place i) = .ok p := by
  rcases m.place_toInt i with h | ⟨hneg, hbig⟩
  · rw [← h, holds_view_iff]
  · constructor
    · rintro ⟨a, -, hlt, -⟩
      omega
    · intro hc
      obtain ⟨a, ha, -⟩ := cell_eq_ok_iff.1 hc
      omega

theorem holds_relative_iff {p x : Word} :
    Holds (m.view t) (p.toInt + m.relativeBase.toInt) x ↔
      ∃ a, m.relativeAddress p = .ok a ∧ m.memory.get a = x := by
  constructor
  · rintro ⟨a, ha, hlt, hx⟩
    exact ⟨a, relativeAddress_eq_ok_iff.2 ⟨ha, by omega⟩, hx⟩
  · rintro ⟨a, ha, hx⟩
    obtain ⟨ha, hlt⟩ := relativeAddress_eq_ok_iff.1 ha
    exact ⟨a, ha, by omega, hx⟩

theorem operand_view_iff {modes : Modes} {i : Fin 3} {x : Word} :
    Operand (m.view t) (i + 1) (modes.get i) x ↔ m.operand modes i = .ok x := by
  rw [operand, bind_eq_ok_iff]
  generalize modes.get i = mode
  constructor
  · intro h
    cases h with
    | position hp hx =>
      exact ⟨_, holds_place_iff.1 (by exact_mod_cast hp), holds_view_iff.1 hx⟩
    | immediate hp => exact ⟨_, holds_place_iff.1 (by exact_mod_cast hp), rfl⟩
    | relative hp hx =>
      obtain ⟨a, ha, rfl⟩ := holds_relative_iff.1 hx
      exact ⟨_, holds_place_iff.1 (by exact_mod_cast hp), bind_eq_ok_iff.2 ⟨a, ha, rfl⟩⟩
  · rintro ⟨p, hp, hx⟩
    have hp : Holds (m.view t) ((m.view t).pc.toInt + (i + 1 : Nat)) p := by
      exact_mod_cast holds_place_iff.2 hp
    cases mode with
    | position => exact .position hp (holds_view_iff.2 hx)
    | immediate =>
      cases hx
      exact .immediate hp
    | relative =>
      obtain ⟨a, ha, hx⟩ := bind_eq_ok_iff.1 hx
      cases hx
      exact .relative hp (holds_relative_iff.2 ⟨a, ha, rfl⟩)

theorem target_view_iff {word : Word} {modes : Modes} {i : Fin 3} {d : Address} :
    Target (m.view t) (i + 1) (modes.get i) d ↔ m.destination word modes i = .ok d := by
  rw [destination, bind_eq_ok_iff]
  generalize modes.get i = mode
  constructor
  · intro h
    cases h with
    | position hp hd =>
      exact ⟨_, holds_place_iff.1 (by exact_mod_cast hp), Word.address_eq_ok_iff.2 hd⟩
    | relative hp hd hlt =>
      exact ⟨_, holds_place_iff.1 (by exact_mod_cast hp),
        relativeAddress_eq_ok_iff.2 ⟨hd, hlt⟩⟩
  · rintro ⟨p, hp, hd⟩
    have hp : Holds (m.view t) ((m.view t).pc.toInt + (i + 1 : Nat)) p := by
      exact_mod_cast holds_place_iff.2 hp
    cases mode with
    | position => exact .position hp (Word.address_eq_ok_iff.1 hd)
    | immediate => cases hd
    | relative =>
      obtain ⟨hd, hlt⟩ := relativeAddress_eq_ok_iff.1 hd
      exact .relative hp hd hlt

theorem ofInt_add_toInt (a b : Word) : Int64.ofInt (a.toInt + b.toInt) = a + b := by
  rw [Int64.ofInt_add, Int64.ofInt_toInt, Int64.ofInt_toInt]

theorem ofInt_mul_toInt (a b : Word) : Int64.ofInt (a.toInt * b.toInt) = a * b := by
  rw [Int64.ofInt_mul, Int64.ofInt_toInt, Int64.ofInt_toInt]

theorem past_view (op : Opcode) :
    (m.view t).past op = (m.goto (m.pc + Int64.ofNat (op.arity + 1))).counted.view t := by
  have hpc : Int64.ofInt (m.pc.toInt + 1 + op.arity) = m.pc + Int64.ofNat (op.arity + 1) := by
    rw [Int.add_assoc, Int64.ofInt_add, Int64.ofInt_toInt, Int.add_comm, ← Int64.ofInt_eq_ofNat]
    rfl
  show View.mk _ (Int64.ofInt (m.pc.toInt + 1 + op.arity)) _ _ _ _ _ = _
  rw [hpc]
  rfl

theorem stored_view (d : Address) (w : Word) :
    (m.view t).stored d w = { m with memory := m.memory.set d w }.view t := by
  have hget : (m.memory.set d w).get = fun a => if a = d then w else m.memory.get a := by
    funext a
    rw [Memory.get_set]
    simp only [eq_comm]
  show View.mk _ _ _ _ _ _ _ = View.mk (m.memory.set d w).get _ _ _ _ _ _
  rw [hget]
  rfl

theorem carried_view (op : Opcode) (action : Action) :
    (m.view t).carried op action =
      (m.act (op.arity + 1) action).view (m.actOn t action) := by
  cases action with
  | store d w =>
    rw [View.carried, past_view, stored_view]
    rfl
  | take d w =>
    rw [View.carried, past_view, stored_view]
    rfl
  | emit w =>
    rw [View.carried, past_view]
    show View.mk _ _ _ _ _ _ _ = View.mk _ _ _ _ ((t.push m.output w).values m.output).toList _ _
    rw [Tapes.values_push, if_pos rfl, Array.toList_push]
    rfl
  | jump target => rfl
  | pass => exact past_view op
  | rebase amount =>
    rw [View.carried, past_view]
    show View.mk _ _ (Int64.ofInt (m.relativeBase.toInt + amount.toInt)) _ _ _ _ = _
    rw [ofInt_add_toInt]
    rfl

theorem plan_of_fetches {i : Instruction} {u : Option Word} {p : Plan}
    (h : m.isHalted = false) (hf : Fetches (m.view t) i)
    (hp : ∀ word, m.planOf u word i = .ok p) : m.plan u = .ok p := by
  obtain ⟨word, hc, hi⟩ := fetches_view_iff.1 hf
  rw [plan_of_decode h hc hi]
  exact hp word

theorem planStore_of_view {word x y : Word} {ms : Modes} {d : Address}
    (f : Word → Word → Word) (hx : Operand (m.view t) 1 ms.first x)
    (hy : Operand (m.view t) 2 ms.second y) (hd : Target (m.view t) 3 ms.third d) :
    (m.planStore word ms f).map (Plan.act 4) = .ok (.act 4 (.store d (f x y))) :=
  map_act_eq_ok_iff.2 ⟨rfl, planStore_eq_ok_iff.2 ⟨x, y, d,
    operand_view_iff (i := 0) |>.1 hx, operand_view_iff (i := 1) |>.1 hy,
    target_view_iff (i := 2) |>.1 hd, rfl⟩⟩

theorem planJump_of_view {x target : Word} {ms : Modes} {b : Bool} (test : Word → Bool)
    (hx : Operand (m.view t) 1 ms.first x) (ht : Operand (m.view t) 2 ms.second target)
    (hb : test x = b) :
    (m.planJump ms test).map (Plan.act 3) = .ok (.act 3 (if b then .jump target else .pass)) :=
  map_act_eq_ok_iff.2 ⟨rfl, planJump_eq_ok_iff.2 ⟨x, target,
    operand_view_iff (i := 0) |>.1 hx, operand_view_iff (i := 1) |>.1 ht, by rw [hb]⟩⟩

theorem eq_zero_iff {x : Word} : x = 0 ↔ x.toInt = 0 := Int64.toInt_inj.symm

theorem plan_of_step {v : View} (h : m.isHalted = false)
    (hs : Step (m.source.get? t) (m.view t) v) :
    ∃ op action, m.plan (m.unread? t) = .ok (.act (op.arity + 1) action) ∧
      v = (m.view t).carried op action := by
  cases hs with
  | @add ms x y d hf hx hy hd =>
    refine ⟨.add, .store d (x + y), plan_of_fetches h hf fun word => ?_, ?_⟩
    · exact planStore_of_view (· + ·) hx hy hd
    · rw [View.carried, ofInt_add_toInt]
  | @multiply ms x y d hf hx hy hd =>
    refine ⟨.multiply, .store d (x * y), plan_of_fetches h hf fun word => ?_, ?_⟩
    · exact planStore_of_view (· * ·) hx hy hd
    · rw [View.carried, ofInt_mul_toInt]
  | @lessThan ms x y d hf hx hy hd =>
    refine ⟨.lessThan, .store d (Word.ofBool (x < y)), plan_of_fetches h hf fun word => ?_, ?_⟩
    · exact planStore_of_view (fun a b => Word.ofBool (a < b)) hx hy hd
    · simp only [View.carried, Word.ofBool, decide_eq_true_eq, Int64.lt_iff_toInt_lt]
  | @equals ms x y d hf hx hy hd =>
    refine ⟨.equals, .store d (Word.ofBool (x = y)), plan_of_fetches h hf fun word => ?_, ?_⟩
    · exact planStore_of_view (fun a b => Word.ofBool (a = b)) hx hy hd
    · simp only [View.carried, Word.ofBool, decide_eq_true_eq, Int64.toInt_inj]
  | @storeInput ms w d hf hw hd =>
    have hu : m.unread? t = some w := hw
    refine ⟨.storeInput, .take d w, plan_of_fetches h hf fun word => ?_, rfl⟩
    rw [hu]
    exact map_act_eq_ok_iff.2 ⟨rfl, bind_eq_ok_iff.2 ⟨d, target_view_iff (i := 0) |>.1 hd, rfl⟩⟩
  | @output ms x hf hx =>
    refine ⟨.output, .emit x, plan_of_fetches h hf fun word => ?_, rfl⟩
    exact map_act_eq_ok_iff.2 ⟨rfl, bind_eq_ok_iff.2 ⟨x, operand_view_iff (i := 0) |>.1 hx, rfl⟩⟩
  | @jumpIfTrue ms x target hf hx ht hne =>
    have hb : (x != 0) = true := by simpa [eq_zero_iff] using hne
    refine ⟨.jumpIfTrue, .jump target, plan_of_fetches h hf fun word => ?_, rfl⟩
    exact planJump_of_view (· != 0) hx ht hb
  | @passIfTrue ms x target hf hx ht hz =>
    have hb : (x != 0) = false := by simpa [eq_zero_iff] using hz
    refine ⟨.jumpIfTrue, .pass, plan_of_fetches h hf fun word => ?_, rfl⟩
    exact planJump_of_view (· != 0) hx ht hb
  | @jumpIfFalse ms x target hf hx ht hz =>
    have hb : (x == 0) = true := by simpa [eq_zero_iff] using hz
    refine ⟨.jumpIfFalse, .jump target, plan_of_fetches h hf fun word => ?_, rfl⟩
    exact planJump_of_view (· == 0) hx ht hb
  | @passIfFalse ms x target hf hx ht hne =>
    have hb : (x == 0) = false := by simpa [eq_zero_iff] using hne
    refine ⟨.jumpIfFalse, .pass, plan_of_fetches h hf fun word => ?_, rfl⟩
    exact planJump_of_view (· == 0) hx ht hb
  | @adjustRelativeBase ms x hf hx =>
    refine ⟨.adjustRelativeBase, .rebase x, plan_of_fetches h hf fun word => ?_, rfl⟩
    exact map_act_eq_ok_iff.2 ⟨rfl, bind_eq_ok_iff.2 ⟨x, operand_view_iff (i := 0) |>.1 hx, rfl⟩⟩

theorem step_of_plan {width : Nat} {action : Action}
    (hp : m.plan (m.unread? t) = .ok (.act width action)) :
    ∃ op : Opcode, width = op.arity + 1 ∧
      Step (m.source.get? t) (m.view t) ((m.view t).carried op action) := by
  have h : m.isHalted = false := by
    cases hh : m.isHalted with
    | false => rfl
    | true => rw [plan, if_pos hh] at hp; cases hp
  obtain ⟨word, ⟨op, ms⟩, hc, hi, hplan⟩ | ⟨fault, hplan⟩ := plan_cases h
  · rw [hplan] at hp
    have hf : Fetches (m.view t) ⟨op, ms⟩ := fetches_view_iff.2 ⟨word, hc, hi⟩
    cases op with
    | add =>
      obtain ⟨rfl, hs⟩ := map_act_eq_ok_iff.1 hp
      obtain ⟨x, y, d, hx, hy, hd, rfl⟩ := planStore_eq_ok_iff.1 hs
      refine ⟨.add, rfl, ?_⟩
      rw [View.carried, ← ofInt_add_toInt]
      exact .add hf (operand_view_iff.2 hx) (operand_view_iff.2 hy) (target_view_iff.2 hd)
    | multiply =>
      obtain ⟨rfl, hs⟩ := map_act_eq_ok_iff.1 hp
      obtain ⟨x, y, d, hx, hy, hd, rfl⟩ := planStore_eq_ok_iff.1 hs
      refine ⟨.multiply, rfl, ?_⟩
      rw [View.carried, ← ofInt_mul_toInt]
      exact .multiply hf (operand_view_iff.2 hx) (operand_view_iff.2 hy) (target_view_iff.2 hd)
    | lessThan =>
      obtain ⟨rfl, hs⟩ := map_act_eq_ok_iff.1 hp
      obtain ⟨x, y, d, hx, hy, hd, rfl⟩ := planStore_eq_ok_iff.1 hs
      refine ⟨.lessThan, rfl, ?_⟩
      simp only [View.carried, Word.ofBool, decide_eq_true_eq, Int64.lt_iff_toInt_lt]
      exact .lessThan hf (operand_view_iff.2 hx) (operand_view_iff.2 hy) (target_view_iff.2 hd)
    | equals =>
      obtain ⟨rfl, hs⟩ := map_act_eq_ok_iff.1 hp
      obtain ⟨x, y, d, hx, hy, hd, rfl⟩ := planStore_eq_ok_iff.1 hs
      refine ⟨.equals, rfl, ?_⟩
      simp only [View.carried, Word.ofBool, decide_eq_true_eq, ← Int64.toInt_inj]
      exact .equals hf (operand_view_iff.2 hx) (operand_view_iff.2 hy) (target_view_iff.2 hd)
    | storeInput =>
      cases hu : m.unread? t with
      | none => rw [hu] at hp; cases hp
      | some w =>
        rw [hu] at hp
        obtain ⟨rfl, hs⟩ := map_act_eq_ok_iff.1 hp
        obtain ⟨d, hd, hs⟩ := bind_eq_ok_iff.1 hs
        cases hs
        exact ⟨.storeInput, rfl, .storeInput hf hu (target_view_iff.2 hd)⟩
    | output =>
      obtain ⟨rfl, hs⟩ := map_act_eq_ok_iff.1 hp
      obtain ⟨x, hx, hs⟩ := bind_eq_ok_iff.1 hs
      cases hs
      exact ⟨.output, rfl, .output hf (operand_view_iff.2 hx)⟩
    | jumpIfTrue =>
      obtain ⟨rfl, hs⟩ := map_act_eq_ok_iff.1 hp
      obtain ⟨x, target, hx, ht, rfl⟩ := planJump_eq_ok_iff.1 hs
      refine ⟨.jumpIfTrue, rfl, ?_⟩
      by_cases hz : x = 0
      · rw [if_neg (by simpa using hz)]
        exact .passIfTrue hf (operand_view_iff.2 hx) (operand_view_iff.2 ht) (eq_zero_iff.1 hz)
      · rw [if_pos (by simpa using hz)]
        exact .jumpIfTrue hf (operand_view_iff.2 hx) (operand_view_iff.2 ht)
          (hz ∘ eq_zero_iff.2)
    | jumpIfFalse =>
      obtain ⟨rfl, hs⟩ := map_act_eq_ok_iff.1 hp
      obtain ⟨x, target, hx, ht, rfl⟩ := planJump_eq_ok_iff.1 hs
      refine ⟨.jumpIfFalse, rfl, ?_⟩
      by_cases hz : x = 0
      · rw [if_pos (by simpa using hz)]
        exact .jumpIfFalse hf (operand_view_iff.2 hx) (operand_view_iff.2 ht) (eq_zero_iff.1 hz)
      · rw [if_neg (by simpa using hz)]
        exact .passIfFalse hf (operand_view_iff.2 hx) (operand_view_iff.2 ht)
          (hz ∘ eq_zero_iff.2)
    | adjustRelativeBase =>
      obtain ⟨rfl, hs⟩ := map_act_eq_ok_iff.1 hp
      obtain ⟨x, hx, hs⟩ := bind_eq_ok_iff.1 hs
      cases hs
      exact ⟨.adjustRelativeBase, rfl, .adjustRelativeBase hf (operand_view_iff.2 hx)⟩
    | halt => cases hp
  · rw [hplan] at hp
    cases hp

/-- **The machine follows the rules of its language.** An instruction that a running machine
completes is a step of its view and leaves alone what is not in view; and whatever step the rules
allow, the machine takes it. -/
theorem turn_refines_reference (h : m.state = .running) :
    (∀ t' m', m.turn t = (t', m', .completed) →
      Step (m.source.get? t) (m.view t) (m'.view t') ∧
        m'.source = m.source ∧ m'.output = m.output ∧ m'.state = .running ∧
        (∀ i, i ≠ m.output → t'.values i = t.values i) ∧
        ∀ fuel, execute (fuel + 1) t m = execute fuel t' m') ∧
    ∀ v, Step (m.source.get? t) (m.view t) v →
      ∃ t' m', m.turn t = (t', m', .completed) ∧ m'.view t' = v := by
  have hh : m.isHalted = false := by simp [isHalted, h]
  constructor
  · intro t' m' ht
    have he : ∀ fuel, execute (fuel + 1) t m = execute fuel t' m' := fun fuel => by
      rw [execute, ht]
    obtain ⟨width, action, hp, rfl, rfl⟩ := turn_completed_iff.1 ht
    obtain ⟨op, rfl, hs⟩ := step_of_plan hp
    rw [carried_view] at hs
    exact ⟨hs, act_source .., act_output .., (act_state ..).trans h,
      fun i hi => values_actOn m t action hi, he⟩
  · intro v hs
    obtain ⟨op, action, hp, rfl⟩ := plan_of_step hh hs
    exact ⟨_, _, turn_completed_iff.2 ⟨_, _, hp, rfl, rfl⟩, (carried_view op action).symm⟩

/-- The first instruction of `1, 0, 0, 0, 99` stores a sum in its own first cell. -/
theorem turn_refines_overlapping :
    let m := Machine.start (Memory.ofWords #[1, 0, 0, 0, 99] Memory.defaultLimit) 0
    m.state = .running ∧ ∃ t' m', m.turn {} = (t', m', .completed) ∧
      Step (m.source.get? {}) (m.view {}) (m'.view t') ∧ m'.memory.get 0 = 2 :=
  ⟨rfl, _, _, rfl, ((turn_refines_reference rfl).1 _ _ rfl).1, rfl⟩

end Machine
end Intcode
