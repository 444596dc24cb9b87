import Intcode.Proofs.Addresses
import Intcode.Proofs.Faults

/-!
# Intcode.Proofs.Diagnosis

Which fault an instruction has, if it has one.

`Machine.checks` lists what has to hold of an instruction, in the order in which it matters, and
beside each check the fault that it stands for. The checks are said in exact integers, of a memory
with a word at every address: no program counter moves and nothing wraps in them. What is to be
checked of a parameter depends on its mode and on whether it is read or written to
(`Opcode.roles`).

* `fault?_plan`          : the fault of an instruction is that of the first check that fails.
* `fault_of_first_check` : a turn ends with an error if and only if a check fails, and with which.
-/

namespace Intcode

structure Check where
  holds : Bool
  /-- What is wrong with the instruction if this is the first check to fail. -/
  fault : Fault

def Check.firstFault (checks : List Check) : Option Fault :=
  (checks.find? fun c => !c.holds).map (·.fault)

/-- What an instruction does with a parameter. -/
inductive Role where
  | operand
  | destination
deriving Repr, DecidableEq

def Opcode.roles : Opcode → List Role
  | .add | .multiply | .lessThan | .equals => [.operand, .operand, .destination]
  | .jumpIfTrue | .jumpIfFalse => [.operand, .operand]
  | .storeInput => [.destination]
  | .output | .adjustRelativeBase => [.operand]
  | .halt => []

namespace Machine

/-- The word that lies `k` cells behind the program counter. -/
def ahead (m : Machine) (k : Nat) : Word :=
  m.memory.get (UInt64.ofNat (m.pc.toInt + k).toNat)

/-- A program counter that has to go beyond the highest word wraps to the lowest one. -/
def placeCheck (m : Machine) (k : Nat) : Check where
  holds := m.pc.toInt + k < 2 ^ 63
  fault := .negativeAddress Int64.minValue

def relativeCheck (m : Machine) (p : Word) : Check :=
  let sum := p.toInt + m.relativeBase.toInt
  { holds := 0 ≤ sum ∧ sum < 2 ^ 63
    fault :=
      if -2 ^ 63 ≤ sum ∧ sum < 2 ^ 63 then .negativeAddress (Int64.ofInt sum)
      else .addressOverflow p m.relativeBase }

/-- The checks of a parameter `p` of the instruction `word`, once it is read. -/
def modeChecks (m : Machine) (word p : Word) : Role → Mode → List Check
  | _, .position => [⟨0 ≤ p.toInt, .negativeAddress p⟩]
  | _, .relative => [m.relativeCheck p]
  | .operand, .immediate => []
  | .destination, .immediate => [⟨false, .immediateWrite word⟩]

/-- The checks of parameter `k` and of those behind it, from left to right. -/
def checksFrom (m : Machine) (word : Word) (k : Nat) : List (Role × Mode) → List Check
  | [] => []
  | (role, mode) :: rest =>
    m.placeCheck k :: m.modeChecks word (m.ahead k) role mode ++ m.checksFrom word (k + 1) rest

/-- The checks of the instruction at the program counter. An input instruction is not looked at any
further if there is nothing to read. -/
def checks (m : Machine) (unread : Option Word) : List Check :=
  ⟨0 ≤ m.pc.toInt, .negativeAddress m.pc⟩ ::
    match Instruction.decode (m.ahead 0) with
    | .error fault => [⟨false, fault⟩]
    | .ok i =>
      if i.opcode = .storeInput ∧ unread = none then []
      else m.checksFrom (m.ahead 0) 1 (i.opcode.roles.zip i.modes.toList)

end Machine

/-! ## The first fault -/

def fault? {α : Type} : Except Fault α → Option Fault
  | .ok _ => none
  | .error fault => some fault

theorem fault?_eq_some_iff {α : Type} {e : Except Fault α} {fault : Fault} :
    fault? e = some fault ↔ e = .error fault := by
  cases e <;> simp [fault?]

/-- Of two pieces of work the second one matters only if the first one has no fault. -/
theorem fault?_bind {α β : Type} {e : Except Fault α} {f : α → Except Fault β}
    {d : Option Fault} (h : ∀ a, e = .ok a → fault? (f a) = d) :
    fault? (e >>= f) = (fault? e).or d := by
  cases e with
  | error fault => rfl
  | ok a => exact h a rfl

theorem fault?_map {α β : Type} (f : α → β) (e : Except Fault α) :
    fault? (e.map f) = fault? e := by
  cases e <;> rfl

namespace Check

theorem firstFault_cons (c : Check) (cs : List Check) :
    firstFault (c :: cs) = if c.holds then firstFault cs else some c.fault := by
  unfold firstFault
  cases hc : c.holds <;> simp [hc]

theorem firstFault_cons_pos {p : Prop} [Decidable p] (hp : p) (fault : Fault)
    (cs : List Check) : firstFault (⟨p, fault⟩ :: cs) = firstFault cs := by
  rw [firstFault_cons, if_pos (decide_eq_true hp)]

theorem firstFault_cons_neg {p : Prop} [Decidable p] (hp : ¬ p) (fault : Fault)
    (cs : List Check) : firstFault (⟨p, fault⟩ :: cs) = some fault := by
  rw [firstFault_cons, if_neg (by simpa using hp)]

theorem firstFault_append (cs ds : List Check) :
    firstFault (cs ++ ds) = (firstFault cs).or (firstFault ds) := by
  simp [firstFault, List.find?_append, Option.map_or]

theorem firstFault_isSome_iff {cs : List Check} :
    (firstFault cs).isSome ↔ ∃ c ∈ cs, c.holds = false := by
  simp [firstFault]

end Check

open Check

/-! ## Addresses -/

theorem Word.fault?_address (w : Word) :
    fault? w.address = firstFault [⟨0 ≤ w.toInt, .negativeAddress w⟩] := by
  rw [address, address?]
  by_cases h : 0 ≤ w.toInt
  · rw [firstFault_cons_pos h, if_neg (by omega)]
    rfl
  · rw [firstFault_cons_neg h, if_pos (by omega)]
    rfl

namespace Machine

variable {m : Machine}

theorem fault?_cell (m : Machine) (p : Word) :
    fault? (m.cell p) = firstFault [⟨0 ≤ p.toInt, .negativeAddress p⟩] := by
  rw [cell, fault?_bind (d := none) fun a _ => rfl, Option.or_none, Word.fault?_address]

theorem fault?_relativeAddress (m : Machine) (p : Word) :
    fault? (m.relativeAddress p) = firstFault [m.relativeCheck p] := by
  rw [relativeAddress, relativeCheck]
  cases hs : p.exactSum? m.relativeBase with
  | none =>
    have hfits : ¬ (-2 ^ 63 ≤ p.toInt + m.relativeBase.toInt ∧
        p.toInt + m.relativeBase.toInt < 2 ^ 63) := by
      rintro ⟨hle, hlt⟩
      rw [Word.exactSum?_eq_some_iff.2 (Int64.toInt_ofInt_of_le hle hlt)] at hs
      cases hs
    rw [firstFault_cons_neg (by omega), if_neg hfits]
    rfl
  | some s =>
    have hsum := Word.exactSum?_eq_some_iff.1 hs
    have hle := s.le_toInt
    have hlt := s.toInt_lt
    show fault? s.address = _
    rw [Word.fault?_address, ← hsum, if_pos ⟨hle, hlt⟩, Int64.ofInt_toInt]
    by_cases h : 0 ≤ s.toInt
    · rw [firstFault_cons_pos h, firstFault_cons_pos ⟨h, hlt⟩]
    · rw [firstFault_cons_neg h, firstFault_cons_neg (by omega)]

/-! ## Parameters -/

theorem place_eq_ofInt (m : Machine) (n : Nat) :
    m.place n = Int64.ofInt (m.pc.toInt + (n + 1 : Nat)) := by
  rw [place_eq, Int64.ofInt_add, Int64.ofInt_toInt, ← Int64.ofInt_eq_ofNat]

theorem place_toInt_of_lt {n : Nat} (hpc : 0 ≤ m.pc.toInt)
    (hlt : m.pc.toInt + (n + 1 : Nat) < 2 ^ 63) :
    (m.place n).toInt = m.pc.toInt + (n + 1 : Nat) := by
  rw [place_eq_ofInt]
  exact Int64.toInt_ofInt_of_le (by omega) (by omega)

/-- The parameters in front of this one could be read, so this one can, or its cell is the first
one behind the highest word. -/
theorem fault?_place {n : Nat} (hpc : 0 ≤ m.pc.toInt)
    (hle : m.pc.toInt + (n + 1 : Nat) ≤ 2 ^ 63) :
    fault? (m.cell (m.place n)) = firstFault [m.placeCheck (n + 1)] := by
  rw [fault?_cell, placeCheck]
  by_cases hlt : m.pc.toInt + (n + 1 : Nat) < 2 ^ 63
  · have hplace := place_toInt_of_lt hpc hlt
    rw [firstFault_cons_pos (by omega), firstFault_cons_pos hlt]
  · have hmin : m.place n = Int64.minValue := by
      rw [place_eq_ofInt, show m.pc.toInt + (n + 1 : Nat) = 2 ^ 63 by omega]
      rfl
    rw [hmin, firstFault_cons_neg (by decide), firstFault_cons_neg hlt]

theorem cell_ahead {k : Nat} {place : Word} (hplace : place.toInt = m.pc.toInt + k)
    (h : 0 ≤ place.toInt) : m.cell place = .ok (m.ahead k) := by
  refine cell_eq_ok_iff.2 ⟨UInt64.ofNat (m.pc.toInt + k).toNat, ?_, rfl⟩
  have hlt := place.toInt_lt
  rw [← hplace, UInt64.toNat_ofNat_of_lt' (by simp only [UInt64.size]; omega)]
  omega

theorem ahead_of_cell {k : Nat} {place w : Word} (hplace : place.toInt = m.pc.toInt + k)
    (hc : m.cell place = .ok w) : w = m.ahead k := by
  obtain ⟨a, ha, -⟩ := cell_eq_ok_iff.1 hc
  rw [cell_ahead hplace (by omega)] at hc
  cases hc
  rfl

/-- A parameter that could be read lies below the end of the words, and is the word that lies
there. -/
theorem place_of_cell {n : Nat} {p : Word} (hpc : 0 ≤ m.pc.toInt)
    (hle : m.pc.toInt + (n + 1 : Nat) ≤ 2 ^ 63) (hc : m.cell (m.place n) = .ok p) :
    m.pc.toInt + (n + 1 : Nat) < 2 ^ 63 ∧ p = m.ahead (n + 1) := by
  by_cases hlt : m.pc.toInt + (n + 1 : Nat) < 2 ^ 63
  · exact ⟨hlt, ahead_of_cell (place_toInt_of_lt hpc hlt) hc⟩
  · have hf := fault?_place hpc hle
    rw [hc, placeCheck, firstFault_cons_neg hlt] at hf
    cases hf

variable {modes : Modes} {i : Fin 3} {word : Word}

theorem fault?_operand (hpc : 0 ≤ m.pc.toInt) (hle : m.pc.toInt + (i + 1 : Nat) ≤ 2 ^ 63) :
    fault? (m.operand modes i) =
      firstFault (m.placeCheck (i + 1) ::
        m.modeChecks word (m.ahead (i + 1)) .operand (modes.get i)) := by
  rw [← List.singleton_append, firstFault_append, ← fault?_place hpc hle, operand]
  refine fault?_bind fun p hp => ?_
  obtain ⟨-, rfl⟩ := place_of_cell hpc hle hp
  cases modes.get i with
  | position => exact fault?_cell m _
  | immediate => rfl
  | relative =>
    show fault? (m.relativeAddress _ >>= _) = _
    rw [fault?_bind (d := none) fun a _ => rfl, Option.or_none]
    exact fault?_relativeAddress m _

theorem fault?_destination (hpc : 0 ≤ m.pc.toInt) (hle : m.pc.toInt + (i + 1 : Nat) ≤ 2 ^ 63) :
    fault? (m.destination word modes i) =
      firstFault (m.placeCheck (i + 1) ::
        m.modeChecks word (m.ahead (i + 1)) .destination (modes.get i)) := by
  rw [← List.singleton_append, firstFault_append, ← fault?_place hpc hle, destination]
  refine fault?_bind fun p hp => ?_
  obtain ⟨-, rfl⟩ := place_of_cell hpc hle hp
  cases modes.get i with
  | position => exact Word.fault?_address _
  | immediate => rfl
  | relative => exact fault?_relativeAddress m _

/-- What is behind an operand is looked at only if the operand could be read; its cell was then not
the last one. -/
theorem fault?_operand_bind {α : Type} {f : Word → Except Fault α} {rest : List Check}
    (hpc : 0 ≤ m.pc.toInt) (hle : m.pc.toInt + (i + 1 : Nat) ≤ 2 ^ 63)
    (hrest : m.pc.toInt + (i + 2 : Nat) ≤ 2 ^ 63 → ∀ x, fault? (f x) = firstFault rest) :
    fault? (m.operand modes i >>= f) =
      firstFault (m.placeCheck (i + 1) ::
        m.modeChecks word (m.ahead (i + 1)) .operand (modes.get i) ++ rest) := by
  rw [firstFault_append, ← fault?_operand hpc hle]
  refine fault?_bind fun x hx => ?_
  obtain ⟨p, hp, -⟩ := bind_eq_ok_iff.1 hx
  obtain ⟨hlt, -⟩ := place_of_cell hpc hle hp
  exact hrest (by omega) x

/-! ## Instructions -/

/-- The first parameter lies right behind a word that a program counter can name. -/
theorem first_place_le (m : Machine) : m.pc.toInt + ((0 : Fin 3) + 1 : Nat) ≤ 2 ^ 63 := by
  have hlt := m.pc.toInt_lt
  show m.pc.toInt + ((0 + 1 : Nat) : Int) ≤ 2 ^ 63
  omega

theorem fault?_last_operand {α : Type} {f : Word → Except Fault α} (hpc : 0 ≤ m.pc.toInt)
    (hle : m.pc.toInt + (i + 1 : Nat) ≤ 2 ^ 63) (hf : ∀ x, fault? (f x) = none) :
    fault? (m.operand modes i >>= f) =
      firstFault (m.checksFrom word (i + 1) [(.operand, modes.get i)]) :=
  fault?_operand_bind hpc hle fun _ => hf

theorem fault?_last_destination {α : Type} {f : Address → Except Fault α} (hpc : 0 ≤ m.pc.toInt)
    (hle : m.pc.toInt + (i + 1 : Nat) ≤ 2 ^ 63) (hf : ∀ d, fault? (f d) = none) :
    fault? (m.destination word modes i >>= f) =
      firstFault (m.checksFrom word (i + 1) [(.destination, modes.get i)]) := by
  rw [fault?_bind fun d _ => hf d, Option.or_none, fault?_destination hpc hle, checksFrom,
    checksFrom, List.append_nil]

theorem fault?_planStore (hpc : 0 ≤ m.pc.toInt) (f : Word → Word → Word) :
    fault? (m.planStore word modes f) = firstFault (m.checksFrom word 1
      ([.operand, .operand, .destination].zip modes.toList)) := by
  refine fault?_operand_bind (i := 0) hpc m.first_place_le fun hle x => ?_
  refine fault?_operand_bind (i := 1) hpc hle fun hle y => ?_
  exact fault?_last_destination (i := 2) hpc hle fun _ => rfl

theorem fault?_planJump (hpc : 0 ≤ m.pc.toInt) (test : Word → Bool) :
    fault? (m.planJump modes test) = firstFault (m.checksFrom word 1
      ([.operand, .operand].zip modes.toList)) := by
  refine fault?_operand_bind (i := 0) hpc m.first_place_le fun hle x => ?_
  exact fault?_last_operand (i := 1) hpc hle fun _ => rfl

theorem fault?_planOf (hpc : 0 ≤ m.pc.toInt) (unread : Option Word) (word : Word)
    (i : Instruction) :
    fault? (m.planOf unread word i) =
      if i.opcode = .storeInput ∧ unread = none then none
      else firstFault (m.checksFrom word 1 (i.opcode.roles.zip i.modes.toList)) := by
  have hfirst := m.first_place_le
  obtain ⟨opcode, modes⟩ := i
  cases opcode with
  | add => exact (fault?_map _ _).trans (fault?_planStore hpc _)
  | multiply => exact (fault?_map _ _).trans (fault?_planStore hpc _)
  | lessThan => exact (fault?_map _ _).trans (fault?_planStore hpc _)
  | equals => exact (fault?_map _ _).trans (fault?_planStore hpc _)
  | storeInput =>
    cases unread with
    | none => rfl
    | some value =>
      exact (fault?_map _ _).trans (fault?_last_destination (i := 0) hpc hfirst fun _ => rfl)
  | output => exact (fault?_map _ _).trans (fault?_last_operand (i := 0) hpc hfirst fun _ => rfl)
  | jumpIfTrue => exact (fault?_map _ _).trans (fault?_planJump hpc _)
  | jumpIfFalse => exact (fault?_map _ _).trans (fault?_planJump hpc _)
  | adjustRelativeBase =>
    exact (fault?_map _ _).trans (fault?_last_operand (i := 0) hpc hfirst fun _ => rfl)
  | halt => rfl

/-- The fault of an instruction is that of the first check that fails. -/
theorem fault?_plan (h : m.isHalted = false) (unread : Option Word) :
    fault? (m.plan unread) = firstFault (m.checks unread) := by
  rw [plan, h, checks, ← List.singleton_append, firstFault_append, ← fault?_cell]
  refine fault?_bind fun word hword => ?_
  have hpc : 0 ≤ m.pc.toInt := by
    obtain ⟨a, ha, -⟩ := cell_eq_ok_iff.1 hword
    omega
  rw [ahead_of_cell (k := 0) (by simp) hword]
  cases hd : Instruction.decode (m.ahead 0) with
  | error fault => rfl
  | ok i =>
    show fault? (m.planOf unread (m.ahead 0) i) = firstFault (if _ then _ else _)
    rw [fault?_planOf hpc]
    split <;> rfl

end Machine

/-! ## Errors -/

/-- The error is of a kind, it comes from an execution, and it says what is wrong and where. -/
structure Error.Tells (e : Error) (kind : Error.Kind) (entries : List (String × String))
    (pc : Word) : Prop where
  kind : e.kind = kind
  trail : e.trail = ["machine::execute"]
  context : e.context = entries ++ [("pc", pc.text)]

theorem Fault.tells_errorAt (f : Fault) (pc : Word) :
    (f.errorAt pc).Tells f.error.kind f.error.context pc := by
  cases f <;> exact ⟨rfl, rfl, rfl⟩

namespace Machine

theorem turn_waits {m : Machine} {t : Tapes} {i : Instruction} (h : m.isHalted = false)
    (hpc : 0 ≤ m.pc.toInt) (hi : Instruction.decode (m.ahead 0) = .ok i)
    (hop : i.opcode = .storeInput) (hu : m.unread? t = none) :
    m.turn t = (t, m, .rested (.ok .waitingForInput)) := by
  have hc : m.cell m.pc = .ok (m.ahead 0) := cell_ahead (by simp) hpc
  have hp : m.plan (m.unread? t) = .ok .wait := by
    rw [plan_of_decode h hc hi, hu, planOf, hop]
  exact turn_rested_iff.2 (.inl ⟨hp, rfl, rfl, rfl⟩)

/-- **An instruction has the fault of the first check that fails, and no other one.** A running
machine comes to an error in its next turn if and only if one of the checks of its instruction
fails; the error is that of the first one, and nothing else changes. An input instruction with
nothing to read waits, whatever its destination. -/
theorem fault_of_first_check {m : Machine} (h : m.state = .running) (t : Tapes) :
    ((∃ t' m' e, m.turn t = (t', m', .rested (.error e))) ↔
      ∃ c ∈ m.checks (m.unread? t), c.holds = false) ∧
    (∀ t' m' e, m.turn t = (t', m', .rested (.error e)) ↔
      t' = t ∧ m' = m ∧
        ∃ fault, firstFault (m.checks (m.unread? t)) = some fault ∧ e = fault.errorAt m.pc) ∧
    (∀ i, 0 ≤ m.pc.toInt → Instruction.decode (m.ahead 0) = .ok i → i.opcode = .storeInput →
      m.unread? t = none → m.turn t = (t, m, .rested (.ok .waitingForInput))) ∧
    (∀ fault : Fault, (fault.errorAt m.pc).Tells fault.error.kind fault.error.context m.pc) ∧
    (∀ a, ((Fault.negativeAddress a).errorAt m.pc).Tells
      .invalidAddress [("address", a.text)] m.pc) ∧
    (∀ p base, ((Fault.addressOverflow p base).errorAt m.pc).Tells
      .invalidAddress [("address", p.text), ("relative_base", base.text)] m.pc) ∧
    ∀ word, ((Fault.immediateWrite word).errorAt m.pc).Tells
      .invalidWrite [("word", word.text)] m.pc := by
  have hh : m.isHalted = false := by simp [isHalted, h]
  have hfault : ∀ t' m' e, m.turn t = (t', m', .rested (.error e)) ↔
      t' = t ∧ m' = m ∧
        ∃ fault, firstFault (m.checks (m.unread? t)) = some fault ∧ e = fault.errorAt m.pc := by
    intro t' m' e
    rw [← fault?_plan hh]
    constructor
    · intro ht
      obtain ⟨rfl, rfl, fault, hp, he⟩ := faulty_of_turn ht
      exact ⟨rfl, rfl, fault, fault?_eq_some_iff.2 hp, he⟩
    · rintro ⟨rfl, rfl, fault, hp, rfl⟩
      exact turn_of_faulty ⟨fault, fault?_eq_some_iff.1 hp, rfl⟩
  refine ⟨?_, hfault, fun i hpc hi hop hu => turn_waits hh hpc hi hop hu,
    fun fault => fault.tells_errorAt m.pc, fun a => Fault.tells_errorAt _ m.pc,
    fun p base => Fault.tells_errorAt _ m.pc, fun word => Fault.tells_errorAt _ m.pc⟩
  rw [← firstFault_isSome_iff, Option.isSome_iff_exists]
  constructor
  · rintro ⟨t', m', e, ht⟩
    obtain ⟨-, -, fault, hf, -⟩ := (hfault t' m' e).1 ht
    exact ⟨fault, hf⟩
  · rintro ⟨fault, hf⟩
    exact ⟨t, m, _, (hfault t m _).2 ⟨rfl, rfl, fault, hf, rfl⟩⟩

/-- Three things are wrong with this addition. The first one is that its first parameter and the
relative base add up to no word. -/
theorem fault_of_first_check_overflow :
    let m := { Machine.start (Memory.ofWords #[10201, 1, -1, 0] 9) 0 with
      relativeBase := Int64.maxValue }
    m.state = .running ∧ (m.checks none).countP (!·.holds) = 3 ∧
      ∃ e, m.turn {} = ({}, m, .rested (.error e)) ∧
        e.Tells .invalidAddress [("address", "1"), ("relative_base", "9223372036854775807")] 0 :=
  have told := @fault_of_first_check { Machine.start (Memory.ofWords #[10201, 1, -1, 0] 9) 0 with
    relativeBase := Int64.maxValue } rfl {}
  ⟨rfl, rfl, _, (told.2.1 _ _ _).2 ⟨rfl, rfl, _, rfl, rfl⟩, told.2.2.2.2.2.1 1 Int64.maxValue⟩

end Machine
end Intcode
