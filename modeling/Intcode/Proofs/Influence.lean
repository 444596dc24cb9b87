import Intcode.Proofs.Histories

/-!
# Intcode.Proofs.Influence

What can have an influence on an execution: the registers, the word at every address, and the
input that was not read yet. Nothing else has, not the layout of the memory, not what was read or
written before, not the number of instructions completed.

* `Alike`         : two machines agree in what can have an influence.
* `Alike.execute` : such machines have the same history and agree again where they rest.
* `execute_alike` : the same in terms of what is to be seen of the two machines.
-/

namespace Intcode
namespace Machine

/-- The machines agree in their registers, in the word at every address, and in what there is
left to read. -/
structure Alike (t : Tapes) (m : Machine) (t' : Tapes) (m' : Machine) : Prop where
  pc : m'.pc = m.pc
  relativeBase : m'.relativeBase = m.relativeBase
  state : m'.state = m.state
  cells : ∀ a, m'.memory.get a = m.memory.get a
  unread : ∀ k, m'.source.get? t' (m'.cursor + k) = m.source.get? t (m.cursor + k)

namespace Alike

variable {t t' : Tapes} {m m' : Machine}

theorem symm (h : Alike t m t' m') : Alike t' m' t m :=
  ⟨h.pc.symm, h.relativeBase.symm, h.state.symm, fun a => (h.cells a).symm,
    fun k => (h.unread k).symm⟩

/-! ## One instruction -/

theorem cell (h : Alike t m t' m') (p : Word) : m'.cell p = m.cell p := by
  simp only [Machine.cell, h.cells]

theorem relativeAddress (h : Alike t m t' m') (p : Word) :
    m'.relativeAddress p = m.relativeAddress p := by
  simp only [Machine.relativeAddress, h.relativeBase]

theorem operand (h : Alike t m t' m') (modes : Modes) (i : Fin 3) :
    m'.operand modes i = m.operand modes i := by
  simp only [Machine.operand, place, h.pc, h.cell, h.relativeAddress, h.cells]

theorem destination (h : Alike t m t' m') (word : Word) (modes : Modes) (i : Fin 3) :
    m'.destination word modes i = m.destination word modes i := by
  simp only [Machine.destination, place, h.pc, h.cell, h.relativeAddress]

theorem planOf (h : Alike t m t' m') (u : Option Word) (word : Word) (i : Instruction) :
    m'.planOf u word i = m.planOf u word i := by
  simp only [Machine.planOf, planStore, planJump, h.operand, h.destination]

theorem plan (h : Alike t m t' m') : m'.plan (m'.unread? t') = m.plan (m.unread? t) := by
  have hu : m'.unread? t' = m.unread? t := h.unread 0
  have hh : m'.isHalted = m.isHalted := by rw [isHalted, isHalted, h.state]
  rw [Machine.plan, Machine.plan, hh, hu, h.pc, h.cell]
  simp only [h.planOf]

/-- What is done to both machines leaves them alike, unless one of them reads what it writes. -/
theorem act (h : Alike t m t' m') (hm : m.source ≠ .tape m.output)
    (hm' : m'.source ≠ .tape m'.output) (width : Nat) (action : Action) :
    Alike (m.actOn t action) (m.act width action) (m'.actOn t' action) (m'.act width action) := by
  have hin := input_actOn hm t action
  have hin' := input_actOn hm' t' action
  refine ⟨?_, ?_, ?_, fun a => ?_, fun k => ?_⟩
  · cases action with
    | jump target => rfl
    | _ => exact congrArg (· + Int64.ofNat width) h.pc
  · cases action with
    | rebase amount => exact congrArg (· + amount) h.relativeBase
    | _ => exact h.relativeBase
  · rw [act_state, act_state, h.state]
  · rw [act_memory, act_memory, Memory.get_setAll, Memory.get_setAll, h.cells]
  · simp only [act_source, act_cursor, Source.get?, hin, hin', Nat.add_assoc]
    exact h.unread _

/-! ## Whole runs -/

/-- Where one machine completes the instructions of a history, the other does. -/
theorem completes (h : Alike t m t' m') (hm : m.source ≠ .tape m.output)
    (hm' : m'.source ≠ .tape m'.output) {history : History} (hc : Completes t m history) :
    Completes t' m' history ∧
      Alike (m.replayOn t history) (m.replay history)
        (m'.replayOn t' history) (m'.replay history) := by
  induction hc generalizing t' m' with
  | nil => exact ⟨.nil, h⟩
  | @cons t m width action rest hp _ ih =>
    have hp' : m'.plan (m'.unread? t') = .ok (.act width action) := h.plan.trans hp
    have hnext := h.act hm hm' width action
    obtain ⟨hc', ha⟩ := ih hnext (by rwa [act_source, act_output]) (by rwa [act_source, act_output])
    exact ⟨.cons hp' hc', ha⟩

/-- Where one machine rests, the other rests for the same reason. -/
theorem turn_rested (h : Alike t m t' m') {t₁ : Tapes} {m₁ : Machine}
    {r : Except Error HaltReason} (ht : m.turn t = (t₁, m₁, .rested r)) :
    ∃ m₁', m'.turn t' = (t', m₁', .rested r) ∧ Alike t₁ m₁ t' m₁' := by
  obtain ⟨hp, rfl, rfl, rfl⟩ | ⟨hp, rfl, rfl, rfl⟩ | ⟨fault, hp, rfl, rfl, rfl⟩ :=
    turn_rested_iff.1 ht
  · exact ⟨m', turn_rested_iff.2 (.inl ⟨h.plan.trans hp, rfl, rfl, rfl⟩), h⟩
  · refine ⟨{ m' with state := .halted }, ?_, h.pc, h.relativeBase, rfl, h.cells, h.unread⟩
    exact turn_rested_iff.2 (.inr (.inl ⟨h.plan.trans hp, rfl, rfl, rfl⟩))
  · refine ⟨m', turn_rested_iff.2 (.inr (.inr ⟨fault, h.plan.trans hp, rfl, rfl, ?_⟩)), h⟩
    rw [h.pc]

/-- Machines that are alike do the same and rest for the same reason. -/
theorem execute (h : Alike t m t' m') (hm : m.source ≠ .tape m.output)
    (hm' : m'.source ≠ .tape m'.output) {fuel : Nat}
    {out : Tapes × Machine × Except Error HaltReason} (hx : execute fuel t m = some out) :
    ∃ history t₁' m₁', Machine.execute fuel t' m' = some (t₁', m₁', out.2.2) ∧
      Did t m history out.1 out.2.1 ∧ Did t' m' history t₁' m₁' ∧
      Alike out.1 out.2.1 t₁' m₁' := by
  obtain ⟨history, hlt, hc, hr⟩ := execute_eq_some_iff.1 hx
  obtain ⟨hc', ha⟩ := h.completes hm hm' hc
  obtain ⟨m₁', hr', ha'⟩ := ha.turn_rested hr
  exact ⟨history, _, m₁', execute_eq_some_iff.2 ⟨history, hlt, hc', hr'⟩, did_of_turn hr,
    did_of_turn hr', ha'⟩

end Alike

/-- **Registers, memory contents and unread input decide what a machine does.** Of two machines
that agree in them, and do not read what they write, either both come to rest or neither does.
They rest for the same reason or with the same error, agree again in registers, memory contents
and unread input, and have completed as many instructions, read as many words and written the
same words. -/
theorem execute_alike {t t' : Tapes} {m m' : Machine} (h : Alike t m t' m')
    (hm : m.source ≠ .tape m.output) (hm' : m'.source ≠ .tape m'.output) :
    (∀ fuel, (execute fuel t m).isSome = (execute fuel t' m').isSome) ∧
    ∀ fuel fuel' out out', execute fuel t m = some out → execute fuel' t' m' = some out' →
      out'.2.2 = out.2.2 ∧ Alike out.1 out.2.1 out'.1 out'.2.1 ∧
      ∃ (completed taken : Nat) (emitted : Array Word),
        out.2.1.steps = m.steps + completed ∧ out'.2.1.steps = m'.steps + completed ∧
        out.2.1.cursor = m.cursor + taken ∧ out'.2.1.cursor = m'.cursor + taken ∧
        out.1.values m.output = t.values m.output ++ emitted ∧
        out'.1.values m'.output = t'.values m'.output ++ emitted := by
  constructor
  · intro fuel
    rw [Bool.eq_iff_iff, Option.isSome_iff_exists, Option.isSome_iff_exists]
    constructor
    · rintro ⟨out, hx⟩
      obtain ⟨history, t₁', m₁', hx', -⟩ := h.execute hm hm' hx
      exact ⟨_, hx'⟩
    · rintro ⟨out', hx'⟩
      obtain ⟨history, t₁, m₁, hx, -⟩ := h.symm.execute hm' hm hx'
      exact ⟨_, hx⟩
  · intro fuel fuel' out out' hx hx'
    obtain ⟨history, t₁', m₁', hx₁', hd, hd', ha⟩ := h.execute hm hm' hx
    obtain rfl := (rests_of_execute hx₁').unique (rests_of_execute hx')
    exact ⟨rfl, ha, history.length, history.taken.length, history.emitted.toArray,
      hd.steps, hd'.steps, hd.cursor, hd'.cursor, hd.emitted, hd'.emitted⟩

/-- One machine has its program side by side and an input of its own. The other one keeps the
halt instruction by itself, has words behind it that it read and wrote, and reads a tape. -/
theorem execute_alike_split :
    let m := (Machine.start (Memory.ofWords #[3, 0, 4, 0, 99] 9) 0).wire (.owned #[7])
    let m' : Machine := {
      memory := (Memory.ofWords #[3, 0, 4, 0] 0).set 4 99, source := .tape 1, cursor := 1
      output := 0, lastEmitted := some 2, steps := 8 }
    let t' : Tapes := ⟨#[#[2], #[5, 7]]⟩
    Alike {} m t' m' ∧ (execute 3 t' m').isSome ∧
      ∀ out', execute 3 t' m' = some out' → out'.2.2 = .ok .haltInstruction ∧
        out'.2.1.steps = 10 ∧ out'.2.1.cursor = 2 ∧ out'.1.values 0 = #[2, 7] := by
  intro m m' t'
  have cells (a : Address) : m'.memory.get a = m.memory.get a := by
    have hpush : m.memory.get a = (#[3, 0, 4, 0].push 99).getD a.toNat (0 : Word) :=
      Memory.get_ofWords ..
    have hset : m'.memory.get a = if 4 = a then 99 else #[3, 0, 4, 0].getD a.toNat (0 : Word) := by
      rw [← Memory.get_ofWords _ 0]
      exact Memory.get_set ..
    rw [hset, hpush]
    by_cases ha : 4 = a
    · subst ha
      rfl
    · have hne : ¬ a.toNat = (#[3, 0, 4, 0] : Array Word).size :=
        fun h => ha (UInt64.toNat_inj.1 h.symm)
      rw [if_neg ha, Array.getD_eq_getD_getElem?, Array.getD_eq_getD_getElem?,
        Array.getElem?_push, if_neg hne]
  have unread (k : Nat) : (#[5, 7] : Array Word)[1 + k]? = #[7][0 + k]? := by
    cases k with
    | zero => rfl
    | succ k => simp [Nat.add_comm 1]
  have h : Alike {} m t' m' := ⟨rfl, rfl, rfl, cells, unread⟩
  have hx : execute 3 {} ((Machine.start (Memory.ofWords #[3, 0, 4, 0, 99] 9) 0).wire
      (.owned #[7])) = some _ := rfl
  obtain ⟨hsome, hsame⟩ := execute_alike h (by simp [m, wire]) (by simp [m'])
  refine ⟨h, (hsome 3).symm.trans (congrArg Option.isSome hx), fun out' hx' => ?_⟩
  obtain ⟨hr, -, completed, taken, emitted, hs, hs', hc, hc', ho, ho'⟩ := hsame 3 3 _ out' hx hx'
  obtain rfl : 2 = completed := hs.trans (Nat.zero_add _)
  obtain rfl : 1 = taken := hc.trans (Nat.zero_add _)
  obtain rfl : #[7] = emitted := ho.trans (Array.empty_append ..)
  exact ⟨hr, hs', hc', ho'⟩

end Machine
end Intcode
