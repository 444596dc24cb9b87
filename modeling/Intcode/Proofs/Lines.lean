import Intcode.Listing
import Intcode.Proofs.Diagnosis
import Intcode.Proofs.Layouts

/-!
# Intcode.Proofs.Lines

Listings against the machine.

A listing takes the width of an instruction from a table, and its words from the memory at one
stroke; the machine moves through the instruction cell by cell. `Machine.planOn` says what an
instruction asks for whose words are given, so that none of them is looked up; it is compared with
what the machine does when it comes to the line.

The two part where words end: a listing goes on to the extent of the memory, which can lie beyond
the last cell that a program counter can name.

* `Listing.split_upTo`            : a line is the one that belongs to its address, and the next one
  begins where it ends.
* `listed_line_executed`          : the machine does what the line says.
* `listed_line_beyond_words`      : no machine can do so if the line ends beyond the words.
-/

namespace Intcode

namespace Machine

/-- The value that the parameter `p` stands for. -/
def operandOf (m : Machine) (mode : Mode) (p : Word) : Except Fault Word :=
  match mode with
  | .position => m.cell p
  | .immediate => .ok p
  | .relative => do return m.memory.get (← m.relativeAddress p)

/-- The address that the parameter `p` stands for as a destination of the instruction `word`. -/
def destinationOf (m : Machine) (word : Word) (mode : Mode) (p : Word) : Except Fault Address :=
  match mode with
  | .position => Word.address p
  | .immediate => .error (.immediateWrite word)
  | .relative => m.relativeAddress p

/-- What the instruction `i` asks for if it is made of `words`. -/
def planOn (m : Machine) (unread : Option Word) (i : Instruction) (words : List Word) :
    Except Fault Plan :=
  i.plan (fun k => m.operandOf (i.modes.get k) (words.getD (k + 1) 0))
    (fun k => m.destinationOf (words.getD 0 0) (i.modes.get k) (words.getD (k + 1) 0)) unread

/-- The turn in which a plan is carried out. -/
def carry (t : Tapes) (m : Machine) : Except Fault Plan → Tapes × Machine × Turn
  | .ok (.act width action) => (m.actOn t action, m.act width action, .completed)
  | .ok .wait => (t, m, .rested (.ok .waitingForInput))
  | .ok .halt => (t, { m with state := .halted }, .rested (.ok .haltInstruction))
  | .error fault => (t, m, .rested (.error (fault.errorAt m.pc)))

/-- The next instruction is a jump that is taken. -/
def Jumps (t : Tapes) (m : Machine) : Prop :=
  ∃ width target, m.plan (m.unread? t) = .ok (.act width (.jump target))

end Machine

/-! ## Sweeps -/

namespace Listing

variable {m : Memory} {stop a : Nat}

theorem upTo_of_lt (h : a < stop) :
    upTo m stop a = lineAt m stop a :: upTo m stop (a + (lineAt m stop a).cells) := by
  rw [upTo, if_pos h]

theorem upTo_of_le (h : stop ≤ a) : upTo m stop a = [] := by
  rw [upTo, if_neg (Nat.not_lt.2 h)]

theorem upTo_eq_cons_iff {line : Line} {lines : List Line} :
    upTo m stop a = line :: lines ↔
      a < stop ∧ lineAt m stop a = line ∧ upTo m stop (a + line.cells) = lines := by
  by_cases h : a < stop
  · rw [upTo_of_lt h, List.cons.injEq]
    constructor
    · rintro ⟨rfl, hrest⟩
      exact ⟨h, rfl, hrest⟩
    · rintro ⟨-, rfl, hrest⟩
      exact ⟨rfl, hrest⟩
  · simp [upTo_of_le (Nat.not_lt.1 h), h]

theorem upTo_eq_cons {line : Line} {lines : List Line} (h : a < stop)
    (hl : lineAt m stop a = line) (hrest : upTo m stop (a + line.cells) = lines) :
    upTo m stop a = line :: lines :=
  upTo_eq_cons_iff.2 ⟨h, hl, hrest⟩

theorem address_lineAt (m : Memory) (stop a : Nat) : (lineAt m stop a).address = a := by
  unfold lineAt
  dsimp only
  split
  · split <;> rfl
  · rfl

theorem lineAt_eq_code_iff {b : Nat} {i : Instruction} {words : List Word} :
    lineAt m stop a = .code b i words ↔
      b = a ∧ Instruction.decode (m.get (UInt64.ofNat a)) = .ok i ∧ a + i.width ≤ stop ∧
        words = m.slice (UInt64.ofNat a) i.width := by
  unfold lineAt
  dsimp only
  constructor
  · intro h
    split at h
    · split at h
      · cases h
        exact ⟨rfl, ‹_›, ‹_›, rfl⟩
      · cases h
    · cases h
  · rintro ⟨rfl, hi, hfits, rfl⟩
    rw [hi]
    exact if_pos hfits

theorem lineAt_eq_data_iff {b : Nat} {word : Word} :
    lineAt m stop a = .data b word ↔
      b = a ∧ word = m.get (UInt64.ofNat a) ∧
        ∀ i, Instruction.decode word = .ok i → stop < a + i.width := by
  unfold lineAt
  dsimp only
  constructor
  · intro h
    split at h
    · split at h
      · cases h
      · cases h
        refine ⟨rfl, rfl, fun i hi => ?_⟩
        simp_all
    · cases h
      refine ⟨rfl, rfl, fun i hi => ?_⟩
      simp_all
  · rintro ⟨rfl, rfl, hi⟩
    split
    · next i h => exact if_neg (Nat.not_le.2 (hi i h))
    · rfl

/-- A line ends within the extent. -/
theorem lineAt_le (h : a < stop) : a + (lineAt m stop a).cells ≤ stop := by
  cases hl : lineAt m stop a with
  | code b i words => exact (lineAt_eq_code_iff.1 hl).2.2.1
  | data b word => exact h

/-- The address at which a listing of the lines begins. -/
def next (stop : Nat) (lines : List Line) : Nat := (lines.head?.map Line.address).getD stop

theorem next_upTo (h : a ≤ stop) : next stop (upTo m stop a) = a := by
  by_cases hlt : a < stop
  · rw [upTo_of_lt hlt, next, List.head?_cons, Option.map_some, address_lineAt]
    rfl
  · rw [upTo_of_le (Nat.not_lt.1 hlt)]
    exact Nat.le_antisymm (Nat.not_lt.1 hlt) h

/-- A listing resumed at a line goes on as it did. -/
theorem resume_upTo {before after : List Line} {line : Line}
    (h : upTo m stop a = before ++ line :: after) :
    line.address < stop ∧ upTo m stop line.address = line :: after := by
  induction before generalizing a with
  | nil =>
    obtain ⟨hlt, rfl, -⟩ := upTo_eq_cons_iff.1 h
    rw [address_lineAt]
    exact ⟨hlt, h⟩
  | cons first before ih => exact ih (upTo_eq_cons_iff.1 h).2.2

/-- A line is the one that belongs to its address, and the next one begins where it ends. -/
theorem split_upTo {before after : List Line} {line : Line}
    (h : upTo m stop a = before ++ line :: after) :
    line.address < stop ∧ line = lineAt m stop line.address ∧
      next stop after = line.address + line.cells := by
  obtain ⟨hlt, hline, hafter⟩ := upTo_eq_cons_iff.1 (resume_upTo h).2
  have hle : line.address + (lineAt m stop line.address).cells ≤ stop := lineAt_le hlt
  rw [hline] at hle
  exact ⟨hlt, hline.symm, by rw [← hafter, next_upTo hle]⟩

end Listing

namespace Instruction

theorem kind_of_modeAt {word : Word} {parameter : Nat} {place : Int} {fault : Fault}
    (h : modeAt word parameter place = .error fault) : fault.error.kind = .invalidMode := by
  simp only [modeAt] at h
  split at h <;> cases h
  rfl

/-- A word that is no instruction has a wrong opcode or a wrong mode. -/
theorem kind_of_decode {word : Word} {fault : Fault} (h : decode word = .error fault) :
    fault.error.kind = .invalidOpcode ∨ fault.error.kind = .invalidMode := by
  unfold decode at h
  split at h
  · cases h
    exact .inl rfl
  split at h
  · cases h
    exact .inl rfl
  simp only [Machine.bind_eq_error_iff] at h
  obtain h | ⟨_, _, h | ⟨_, _, h | ⟨_, _, h⟩⟩⟩ := h
  · exact .inr (kind_of_modeAt h)
  · exact .inr (kind_of_modeAt h)
  · exact .inr (kind_of_modeAt h)
  · split at h <;> cases h
    exact .inr rfl

theorem width_le (i : Instruction) : i.width ≤ 4 := by
  cases h : i.opcode <;> simp [width, Opcode.arity, h]

end Instruction

namespace Machine

variable {m : Machine} {t : Tapes}

/-! ## Words of a line -/

/-- The words of a line are those that the machine finds ahead. -/
theorem getD_slice {a n k : Nat} (hpc : m.pc.toInt = a) (hk : k < n) (hn : n ≤ 4) :
    (m.memory.slice (UInt64.ofNat a) n).getD k 0 = m.ahead k := by
  have hlt := m.pc.toInt_lt
  have ha : (UInt64.ofNat a).toNat = a :=
    UInt64.toNat_ofNat_of_lt' (by simp only [UInt64.size]; omega)
  have hmin : min (a + k) Address.top = a + k := by
    simp only [Address.top, UInt64.size]
    omega
  have hahead : (m.pc.toInt + k).toNat = a + k := by omega
  rw [ahead, hahead, Memory.slice, List.getD_eq_getElem?_getD, List.getElem?_map,
    List.getElem?_range hk, Option.map_some, Option.getD_some, Address.advance, ha, hmin]

theorem plan_eq_of_arity {i : Instruction} {unread : Option Word}
    {operand operand' : Fin 3 → Except Fault Word}
    {destination destination' : Fin 3 → Except Fault Address}
    (ho : ∀ k : Fin 3, k < i.opcode.arity → operand k = operand' k)
    (hd : ∀ k : Fin 3, k < i.opcode.arity → destination k = destination' k) :
    i.plan operand destination unread = i.plan operand' destination' unread := by
  obtain ⟨opcode, modes⟩ := i
  cases opcode <;> simp_all [Instruction.plan, Opcode.arity, Fin.forall_fin_succ]

theorem operand_of_lt {modes : Modes} {k : Fin 3} (hpc : 0 ≤ m.pc.toInt)
    (hlt : m.pc.toInt + (k + 1 : Nat) < 2 ^ 63) :
    m.operand modes k = m.operandOf (modes.get k) (m.ahead (k + 1)) := by
  have hplace := place_toInt_of_lt hpc hlt
  rw [operand, cell_ahead hplace (by omega)]
  cases modes.get k <;> rfl

theorem destination_of_lt {word : Word} {modes : Modes} {k : Fin 3} (hpc : 0 ≤ m.pc.toInt)
    (hlt : m.pc.toInt + (k + 1 : Nat) < 2 ^ 63) :
    m.destination word modes k = m.destinationOf word (modes.get k) (m.ahead (k + 1)) := by
  have hplace := place_toInt_of_lt hpc hlt
  rw [destination, cell_ahead hplace (by omega)]
  cases modes.get k <;> rfl

/-- An instruction whose cells can all be named asks for what its words ask for. -/
theorem planOf_eq_planOn {a : Nat} {i : Instruction} (hpc : m.pc.toInt = a)
    (hend : a + i.width ≤ 2 ^ 63) (unread : Option Word) :
    m.planOf unread (m.ahead 0) i =
      m.planOn unread i (m.memory.slice (UInt64.ofNat a) i.width) := by
  have hwidth := i.width_le
  have hpos : 0 < i.width := Nat.succ_pos _
  rw [planOf_eq, planOn]
  refine plan_eq_of_arity (fun k hk => ?_) (fun k hk => ?_)
  · have hk' : k + 1 < i.width := Nat.succ_lt_succ hk
    rw [getD_slice hpc hk' hwidth, operand_of_lt (by omega) (by omega)]
  · have hk' : k + 1 < i.width := Nat.succ_lt_succ hk
    rw [getD_slice hpc hk' hwidth, getD_slice hpc hpos hwidth,
      destination_of_lt (by omega) (by omega)]

/-! ## The next line -/

theorem width_of_plan {i : Instruction} {operand : Fin 3 → Except Fault Word}
    {destination : Fin 3 → Except Fault Address} {unread : Option Word} {width : Nat}
    {action : Action} (h : i.plan operand destination unread = .ok (.act width action)) :
    width = i.width := by
  obtain ⟨-, -, ha⟩ | ⟨-, ha⟩ | ⟨action', ha⟩ := Instruction.plan_eq_ok_cases h
  · cases ha
  · cases ha
  · cases ha
    rfl

theorem act_pc {action : Action} (h : ∀ target, action ≠ .jump target) (width : Nat) :
    (m.act width action).pc = m.pc + Int64.ofNat width := by
  cases action with
  | jump target => exact absurd rfl (h target)
  | _ => rfl

/-- Without a jump, a machine goes on right behind the instruction. -/
theorem pc_of_completed {t' : Tapes} {m' : Machine} {a : Nat} {i : Instruction}
    (h : m.isHalted = false) (hpc : m.pc.toInt = a)
    (hi : Instruction.decode (m.ahead 0) = .ok i) (hend : a + i.width < 2 ^ 63)
    (ht : m.turn t = (t', m', .completed)) (hj : ¬ m.Jumps t) :
    m'.pc.toInt = (a + i.width : Nat) := by
  obtain ⟨width, action, hp, -, rfl⟩ := turn_completed_iff.1 ht
  have hjump : ∀ target, action ≠ .jump target := by
    rintro target rfl
    exact hj ⟨width, target, hp⟩
  rw [plan_of_decode h (cell_ahead (by simp) (by omega)) hi, planOf_eq] at hp
  cases width_of_plan hp
  rw [Instruction.width] at hend
  rw [act_pc hjump, Instruction.width, ← place_eq,
    place_toInt_of_lt (by omega) (by omega), hpc]
  omega

/-! ## Beyond the words -/

theorem placeCheck_mem {word : Word} {pairs : List (Role × Mode)} {j : Nat}
    (hj : j < pairs.length) (k : Nat) : m.placeCheck (k + j) ∈ m.checksFrom word k pairs := by
  induction pairs generalizing j k with
  | nil => simp at hj
  | cons pair rest ih =>
    obtain ⟨role, mode⟩ := pair
    cases j with
    | zero => simp [checksFrom]
    | succ j =>
      have hmem := ih (Nat.lt_of_succ_lt_succ hj) (k + 1)
      rw [Nat.add_right_comm] at hmem
      exact List.mem_append_right _ hmem

theorem length_roles (op : Opcode) : op.roles.length = op.arity := by
  cases op <;> rfl

/-- An instruction with a cell that no program counter can name is not completed. -/
theorem turn_beyond {a : Nat} {i : Instruction} (h : m.isHalted = false) (hpc : m.pc.toInt = a)
    (hi : Instruction.decode (m.ahead 0) = .ok i) (hend : 2 ^ 63 < a + i.width) :
    (∃ e, m.turn t = (t, m, .rested (.error e))) ∨
      i.opcode = .storeInput ∧ m.unread? t = none ∧
        m.turn t = (t, m, .rested (.ok .waitingForInput)) := by
  by_cases hw : i.opcode = .storeInput ∧ m.unread? t = none
  · exact .inr ⟨hw.1, hw.2, turn_waits h (by omega) hi hw.1 hw.2⟩
  · left
    have hlt := m.pc.toInt_lt
    have hwidth : i.width = i.opcode.arity + 1 := rfl
    have hlen : i.opcode.arity - 1 < (i.opcode.roles.zip i.modes.toList).length := by
      have hle := i.width_le
      rw [List.length_zip, length_roles]
      show _ < min i.opcode.arity 3
      omega
    -- The last parameter cannot be reached, whatever is wrong with those before it.
    have hmem : m.placeCheck _ ∈ m.checksFrom (m.ahead 0) 1 _ := placeCheck_mem hlen 1
    have hfail : (m.placeCheck (1 + (i.opcode.arity - 1))).holds = false := by
      rw [placeCheck, decide_eq_false_iff_not]
      omega
    have hchecks : ∃ c ∈ m.checks (m.unread? t), c.holds = false := by
      refine ⟨_, List.mem_cons_of_mem _ ?_, hfail⟩
      rw [hi]
      show _ ∈ if i.opcode = .storeInput ∧ m.unread? t = none then _ else _
      rwa [if_neg hw]
    rw [← Check.firstFault_isSome_iff, Option.isSome_iff_exists] at hchecks
    obtain ⟨fault, hf⟩ := hchecks
    rw [← fault?_plan h] at hf
    exact ⟨_, turn_of_faulty ⟨fault, fault?_eq_some_iff.1 hf, rfl⟩⟩

/-! ## Lines -/

theorem get_ofNat_eq_ahead {a : Nat} (hpc : m.pc.toInt = a) :
    m.memory.get (UInt64.ofNat a) = m.ahead 0 := by
  rw [ahead, hpc]
  rfl

theorem planOf_turn {a : Nat} {i : Instruction} (h : m.isHalted = false) (hpc : m.pc.toInt = a)
    (hi : Instruction.decode (m.ahead 0) = .ok i) :
    m.turn t = m.carry t (m.planOf (m.unread? t) (m.ahead 0) i) := by
  have hc : m.cell m.pc = .ok (m.ahead 0) := cell_ahead (by simp) (by omega)
  rw [turn_eq, plan_of_decode h hc hi]
  rfl

theorem turn_of_decode_error {a : Nat} {fault : Fault} (h : m.isHalted = false)
    (hpc : m.pc.toInt = a) (hf : Instruction.decode (m.ahead 0) = .error fault) :
    m.turn t = (t, m, .rested (.error (fault.errorAt m.pc))) := by
  have hc : m.cell m.pc = .ok (m.ahead 0) := cell_ahead (by simp) (by omega)
  refine turn_of_faulty ⟨fault, ?_, rfl⟩
  rw [plan, h, hc]
  show (Instruction.decode (m.ahead 0) >>= _) = _
  rw [hf]
  rfl

/-- **The machine does what the line says.** A running machine whose program counter is the
address of a line of a listing of its memory carries out the instruction of the line on the words
of the line, if a program counter can name the cells of the line; if not, its turn is not completed.
Without a jump it goes on at the next line, or at the extent. A word of data that is no instruction
is the fault; one that is has its last cells behind the extent. -/
theorem listed_line_executed {start : Address} {before after : List Line} {line : Line}
    (h : m.state = .running) (hl : Listing.sweep m.memory start = before ++ line :: after)
    (hpc : m.pc.toInt = line.address) (t : Tapes) :
    (∀ a i words, line = .code a i words →
      (a + i.width ≤ 2 ^ 63 → m.turn t = m.carry t (m.planOn (m.unread? t) i words)) ∧
      (2 ^ 63 < a + i.width →
        (∃ e, m.turn t = (t, m, .rested (.error e))) ∨
          i.opcode = .storeInput ∧ m.unread? t = none ∧
            m.turn t = (t, m, .rested (.ok .waitingForInput))) ∧
      (∀ t' m', m.turn t = (t', m', .completed) → ¬ m.Jumps t → a + i.width < 2 ^ 63 →
        m'.pc.toInt = Listing.next m.memory.extent after)) ∧
    (∀ a word, line = .data a word →
      (∀ fault, Instruction.decode word = .error fault →
        m.turn t = (t, m, .rested (.error (fault.errorAt m.pc))) ∧
          ((fault.errorAt m.pc).kind = .invalidOpcode ∨
            (fault.errorAt m.pc).kind = .invalidMode)) ∧
      (∀ i, Instruction.decode word = .ok i →
        a < m.memory.extent ∧ m.memory.extent ≤ a + 3 ∧
          m.memory.extent < a + i.width)) := by
  have hh : m.isHalted = false := by simp [isHalted, h]
  obtain ⟨hlt, hline, hnext⟩ := Listing.split_upTo hl
  refine ⟨?_, ?_⟩
  · rintro a i words rfl
    obtain ⟨-, hi, hfits, hwords⟩ := Listing.lineAt_eq_code_iff.1 hline.symm
    rw [get_ofNat_eq_ahead hpc] at hi
    refine ⟨fun hend => ?_, turn_beyond hh hpc hi, fun t' m' ht hj hend => ?_⟩
    · rw [planOf_turn hh hpc hi, planOf_eq_planOn hpc hend, hwords]
      rfl
    · rw [hnext]
      exact pc_of_completed hh hpc hi hend ht hj
  · rintro a word rfl
    obtain ⟨-, hword, hcut⟩ := Listing.lineAt_eq_data_iff.1 hline.symm
    refine ⟨fun fault hf => ⟨?_, ?_⟩, fun i hi => ?_⟩
    · rw [hword, get_ofNat_eq_ahead hpc] at hf
      exact turn_of_decode_error hh hpc hf
    · rw [(fault.tells_errorAt m.pc).kind]
      exact Instruction.kind_of_decode hf
    · have hpast : m.memory.extent < a + i.width := hcut i hi
      have hwidth := i.width_le
      exact ⟨hlt, by omega, hpast⟩

/-- A running machine in front of an instruction that stores a product over its own word. -/
def overwriting : Machine :=
  { Machine.start (Memory.ofWords #[0, 0, 0, 0, 1102, 6, 7, 4, 1] 9) 0 with pc := 4 }

/-- The line of the product is followed by a word of data, which is the word of an instruction. -/
theorem listed_line_executed_overwriting :
    let i := Instruction.mk .multiply ⟨.immediate, .immediate, .position⟩
    overwriting.state = .running ∧
      Listing.sweep overwriting.memory 4 = [] ++ .code 4 i [1102, 6, 7, 4] :: [.data 8 1] ∧
      overwriting.turn {} = overwriting.carry {} (overwriting.planOn none i [1102, 6, 7, 4]) ∧
      overwriting.planOn none i [1102, 6, 7, 4] = .ok (.act 4 (.store 4 42)) := by
  intro i
  have hline : Listing.sweep overwriting.memory 4 =
      [] ++ .code 4 i [1102, 6, 7, 4] :: [.data 8 1] := by
    rw [Listing.sweep, show overwriting.memory.extent = 9 from Memory.extent_ofWords _ _]
    exact Listing.upTo_eq_cons (by decide) rfl <|
      Listing.upTo_eq_cons (by decide) (by decide) (Listing.upTo_of_le (by decide))
  have told := (listed_line_executed (m := overwriting) rfl hline rfl {}).1 _ _ _ rfl
  exact ⟨rfl, hline, told.1 (by decide), rfl⟩

/-- A running machine whose program lies around the highest cell that a program counter can name. -/
def atLastCell : Machine :=
  let memory := Memory.ofWords #[1106, 0, 9223372036854775807, 104, 7, 99] 6
  let memory := ((memory.set 9223372036854775807 1105).set 9223372036854775808 1).set
    9223372036854775809 3
  { Machine.start memory 0 with pc := Int64.maxValue }

theorem extent_atLastCell : atLastCell.memory.extent = 9223372036854775810 := by
  have h := Memory.extent_setAll (m := Memory.ofWords #[1106, 0, 9223372036854775807, 104, 7, 99] 6)
    (by decide) [(9223372036854775807, 1105), (9223372036854775808, 1), (9223372036854775809, 3)]
  rw [Memory.extent_ofWords] at h
  exact h

/-- The memory goes on behind the last cell that a program counter can name, and so does a line. The
machine comes to a fault instead of taking the jump that the line shows. -/
theorem listed_line_beyond_words :
    ¬ ∀ (m : Machine) (start : Address) (before after : List Line) (a : Nat) (i : Instruction)
        (words : List Word) (t : Tapes), m.state = .running →
      Listing.sweep m.memory start = before ++ .code a i words :: after → m.pc.toInt = a →
      m.turn t = m.carry t (m.planOn (m.unread? t) i words) := by
  intro hcarries
  have hline : Listing.sweep atLastCell.memory 9223372036854775807 =
      [] ++ .code 9223372036854775807 ⟨.jumpIfTrue, ⟨.immediate, .immediate, .position⟩⟩
        [1105, 1, 3] :: [] := by
    rw [Listing.sweep, extent_atLastCell]
    exact Listing.upTo_eq_cons (by decide) rfl (Listing.upTo_of_le (by decide))
  have h := hcarries atLastCell _ _ _ _ _ _ {} rfl hline rfl
  have hpc : Int64.maxValue = 3 := congrArg (fun r => r.2.1.pc) h
  exact absurd hpc (by decide)

end Machine
end Intcode
