import Intcode.Pipeline
import Intcode.Proofs.Runs

/-!
# Intcode.Proofs.Passes

Executions of the machines of a network, one after the other.

* `Network.Schedule`        : machines are executed in any order, and none comes to a fault.
* `Network.AtRest`          : every machine has halted, or there is nothing for it to read.
* `Network.reasons_of_pass` : the reasons of a pass can be read off the machines behind it.
* `Pipeline.run_at_rest`    : a run of a pipeline is a schedule that ends at rest.
-/

namespace Intcode

theorem HaltReason.mem_waitingFrom_iff {first i : Nat} {reasons : List HaltReason} :
    i ∈ waitingFrom first reasons ↔
      ∃ j, reasons[j]? = some .waitingForInput ∧ i = first + j := by
  induction reasons generalizing first with
  | nil => simp [waitingFrom]
  | cons reason rest ih =>
    have hrest : i ∈ waitingFrom (first + 1) rest ↔
        ∃ j, (reason :: rest)[j + 1]? = some .waitingForInput ∧ i = first + (j + 1) := by
      simp only [ih, List.getElem?_cons_succ, Nat.add_assoc, Nat.add_comm 1]
    rw [← Nat.or_exists_add_one, ← hrest]
    cases reason with
    | haltInstruction => simp [waitingFrom]
    | waitingForInput => simp [waitingFrom]

namespace Machine

/-- The machine has halted, or it has come to an input instruction and the word that it would
read is not there. -/
def AtRest (t : Tapes) (m : Machine) : Prop :=
  m.state = .halted ∨
    ∃ word modes, m.cell m.pc = .ok word ∧
      Instruction.decode word = .ok ⟨.storeInput, modes⟩ ∧ m.unread? t = none

/-- Why a machine rests that is at rest. -/
def restReason (m : Machine) : HaltReason :=
  if m.isHalted then .haltInstruction else .waitingForInput

theorem restReason_eq_waiting_iff {m : Machine} :
    m.restReason = .waitingForInput ↔ m.state ≠ .halted := by
  by_cases h : m.state = .halted
  · simp [restReason, isHalted, h]
  · simp [restReason, isHalted, h]

theorem restReason_eq_halt_iff {m : Machine} :
    m.restReason = .haltInstruction ↔ m.state = .halted := by
  by_cases h : m.state = .halted
  · simp [restReason, isHalted, h]
  · simp [restReason, isHalted, h]

/-- A machine that is at rest stays as it is when it is executed. -/
theorem AtRest.turn {t : Tapes} {m : Machine} (h : m.AtRest t) :
    m.turn t = (t, m, .rested (.ok m.restReason)) := by
  by_cases hh : m.isHalted
  · rw [restReason, if_pos hh]
    exact turn_of_halted (by simpa [isHalted] using hh) t
  · obtain hs | ⟨word, modes, hc, hi, hu⟩ := h
    · simp [isHalted, hs] at hh
    · have hp : m.plan (m.unread? t) = .ok .wait := by
        rw [plan_of_decode (Bool.eq_false_iff.2 hh) hc hi, hu]
        rfl
      rw [restReason, if_neg hh]
      exact turn_rested_iff.2 (.inl ⟨hp, rfl, rfl, rfl⟩)

theorem planOf_eq_wait {m : Machine} {u : Option Word} {word : Word} {i : Instruction}
    (h : m.planOf u word i = .ok .wait) : i.opcode = .storeInput ∧ u = none := by
  rw [planOf_eq] at h
  obtain ⟨hop, hu, -⟩ | ⟨-, hw⟩ | ⟨action, hw⟩ := Instruction.plan_eq_ok_cases h
  · exact ⟨hop, hu⟩
  · cases hw
  · cases hw

/-- A machine waits only at an input instruction without a word to read. -/
theorem at_rest_of_wait {t : Tapes} {m : Machine} (h : m.plan (m.unread? t) = .ok .wait) :
    m.AtRest t := by
  by_cases hh : m.isHalted
  · rw [plan, if_pos hh] at h
    cases h
  · obtain ⟨word, ⟨opcode, modes⟩, hc, hi, hp⟩ | ⟨fault, hp⟩ := plan_cases (Bool.eq_false_iff.2 hh)
    · rw [hp] at h
      obtain ⟨rfl, hu⟩ := planOf_eq_wait h
      exact .inr ⟨word, modes, hc, hi, hu⟩
    · rw [hp] at h
      cases h

/-- A machine that was executed has completed an instruction, or the tapes are as they were. -/
theorem steps_of_rests {t : Tapes} {m : Machine}
    {out : Tapes × Machine × Except Error HaltReason} (h : Rests t m out) :
    m.steps < out.2.1.steps ∨ out.2.1.steps = m.steps ∧ out.1 = t := by
  induction h with
  | rest ht =>
    obtain ⟨rfl, hm⟩ := turn_rested ht
    right
    rw [hm]
    exact ⟨rfl, rfl⟩
  | next ht _ ih =>
    left
    obtain ⟨width, action, -, -, rfl⟩ := turn_completed_iff.1 ht
    have hs := act_steps _ width action ▸ ih
    omega

theorem at_rest_of_rests {t : Tapes} {m : Machine}
    {out : Tapes × Machine × Except Error HaltReason} {reason : HaltReason}
    (h : Rests t m out) (ho : out.2.2 = .ok reason) : out.2.1.AtRest out.1 := by
  obtain ⟨t₁, m₁, -, ht⟩ := h.exists_runs
  obtain ⟨hp, ht', hm, -⟩ | ⟨-, -, hm, -⟩ | ⟨fault, -, -, -, hr⟩ := turn_rested_iff.1 ht
  · rw [ht', hm]
    exact at_rest_of_wait hp
  · rw [hm]
    exact .inl rfl
  · rw [ho] at hr
    cases hr

theorem reason_of_rests {t : Tapes} {m : Machine}
    {out : Tapes × Machine × Except Error HaltReason} {reason : HaltReason}
    (h : Rests t m out) (ho : out.2.2 = .ok reason) : reason = out.2.1.restReason := by
  obtain ⟨t₁, m₁, -, ht⟩ := h.exists_runs
  obtain ⟨hp, -, hm, hr⟩ | ⟨-, -, hm, hr⟩ | ⟨fault, -, -, -, hr⟩ := turn_rested_iff.1 ht
  · have hh : ¬ m₁.isHalted := by
      intro hh
      rw [plan, if_pos hh] at hp
      cases hp
    rw [ho] at hr
    cases hr
    rw [hm, restReason, if_neg hh]
  · rw [ho] at hr
    cases hr
    rw [hm]
    rfl
  · rw [ho] at hr
    cases hr

end Machine

namespace Network

/-- The machines named by `is` are executed in turn, and no execution ends with an error. -/
inductive Schedule : Network → List Nat → Network → Prop where
  | done {net : Network} : Schedule net [] net
  | execute {net net₁ net₂ : Network} {i : Nat} {is : List Nat} {fuel : Nat}
      {reason : HaltReason} :
      net.execute fuel i = some (net₁, some (.ok reason)) → Schedule net₁ is net₂ →
      Schedule net (i :: is) net₂

def AtRest (net : Network) : Prop := ∀ m ∈ net.machines, m.AtRest net.tapes

theorem Schedule.append {a b c : Network} {is js : List Nat} (h : a.Schedule is b)
    (h' : b.Schedule js c) : a.Schedule (is ++ js) c := by
  induction h with
  | done => exact h'
  | execute hx _ ih => exact .execute hx (ih h')

/-- A machine of the network is executed, unless there is none with this number. -/
theorem execute_cases {fuel i : Nat} {net net' : Network} {r : Option (Except Error HaltReason)}
    (h : net.execute fuel i = some (net', r)) :
    (net.machine? i = none ∧ net' = net ∧ r = none) ∨
    ∃ m t m' result, net.machine? i = some m ∧ m.execute fuel net.tapes = some (t, m', result) ∧
      net' = { tapes := t, machines := net.machines.set i m' } ∧ r = some result := by
  rw [execute] at h
  cases hm : net.machine? i with
  | none =>
    rw [hm] at h
    cases h
    exact .inl ⟨rfl, rfl, rfl⟩
  | some m =>
    rw [hm] at h
    obtain ⟨⟨t, m', result⟩, hx, h⟩ := Option.map_eq_some_iff.1 h
    cases h
    exact .inr ⟨m, t, m', result, rfl, hx, rfl, rfl⟩

theorem execute_of_machine? {fuel i : Nat} {net : Network} {t : Tapes} {m m' : Machine}
    {r : Except Error HaltReason} (hm : net.machine? i = some m)
    (hx : m.execute fuel net.tapes = some (t, m', r)) :
    net.execute fuel i = some ({ tapes := t, machines := net.machines.set i m' }, some r) := by
  simp [execute, hm, hx]

theorem execute_at {fuel : Nat} {t t₁ : Tapes} {m m₁ : Machine} {r : Except Error HaltReason}
    (hx : m.execute fuel t = some (t₁, m₁, r)) (done rest : List Machine) :
    execute fuel { tapes := t, machines := done ++ m :: rest } done.length =
      some ({ tapes := t₁, machines := done ++ m₁ :: rest }, some r) := by
  simp [execute, machine?, hx]

theorem passFrom_cons {fuel index : Nat} {t t' : Tapes} {m : Machine} {rest ms' : List Machine}
    {r : Except Error (List HaltReason)}
    (h : passFrom fuel index t (m :: rest) = some (t', ms', r)) :
    ∃ t₁ m₁ r₁, m.execute fuel t = some (t₁, m₁, r₁) ∧
      ((∃ e, r₁ = .error e ∧ t' = t₁ ∧ ms' = m₁ :: rest ∧
          r = .error ((e.within "pipeline::run").noting "machine" (Text.decimal index))) ∨
        ∃ reason rest₁ reasons, r₁ = .ok reason ∧
          passFrom fuel (index + 1) t₁ rest = some (t', rest₁, reasons) ∧
          ms' = m₁ :: rest₁ ∧ r = reasons.map (reason :: ·)) := by
  rw [passFrom] at h
  obtain ⟨⟨t₁, m₁, r₁⟩, hx, h⟩ := Option.bind_eq_some_iff.1 h
  refine ⟨t₁, m₁, r₁, hx, ?_⟩
  cases r₁ with
  | error e =>
    cases h
    exact .inl ⟨e, rfl, rfl, rfl, rfl⟩
  | ok reason =>
    obtain ⟨⟨t₂, rest₁, reasons⟩, hp, h⟩ := Option.bind_eq_some_iff.1 h
    cases h
    exact .inr ⟨reason, rest₁, reasons, rfl, hp, rfl, rfl⟩

theorem passFrom_cons_ok {fuel index : Nat} {t t' : Tapes} {m : Machine}
    {rest ms' : List Machine} {reasons : List HaltReason}
    (h : passFrom fuel index t (m :: rest) = some (t', ms', .ok reasons)) :
    ∃ t₁ m₁ reason rest₁ reasons₁, m.execute fuel t = some (t₁, m₁, .ok reason) ∧
      passFrom fuel (index + 1) t₁ rest = some (t', rest₁, .ok reasons₁) ∧
      ms' = m₁ :: rest₁ ∧ reasons = reason :: reasons₁ := by
  obtain ⟨t₁, m₁, r₁, hx, ⟨e, -, -, -, hr⟩ | ⟨reason, rest₁, r₂, rfl, hp, rfl, hr⟩⟩ :=
    passFrom_cons h
  · cases hr
  · cases r₂ with
    | error e => cases hr
    | ok reasons₁ =>
      cases hr
      exact ⟨t₁, m₁, reason, rest₁, reasons₁, hx, hp, rfl, rfl⟩

/-- A pass executes the machines behind those in `done` in their order. -/
theorem schedule_of_passFrom {fuel : Nat} {t t' : Tapes} {ms ms' : List Machine}
    {reasons : List HaltReason} (done : List Machine)
    (h : passFrom fuel done.length t ms = some (t', ms', .ok reasons)) :
    Schedule { tapes := t, machines := done ++ ms } (List.range' done.length ms.length)
      { tapes := t', machines := done ++ ms' } := by
  induction ms generalizing t ms' reasons done with
  | nil =>
    cases h
    exact .done
  | cons m rest ih =>
    obtain ⟨t₁, m₁, reason, rest₁, reasons₁, hx, hp, rfl, rfl⟩ := passFrom_cons_ok h
    have hrest := ih (done ++ [m₁]) (by rwa [List.length_append])
    rw [List.append_assoc, List.append_assoc, List.length_append] at hrest
    exact .execute (execute_at hx done rest) hrest

/-- No machine is touched again after it was executed, so its reason can be read off it. -/
theorem reasons_of_passFrom {fuel index : Nat} {t t' : Tapes} {ms ms' : List Machine}
    {reasons : List HaltReason} (h : passFrom fuel index t ms = some (t', ms', .ok reasons)) :
    reasons = ms'.map Machine.restReason := by
  induction ms generalizing index t ms' reasons with
  | nil =>
    cases h
    rfl
  | cons m rest ih =>
    obtain ⟨t₁, m₁, reason, rest₁, reasons₁, hx, hp, rfl, rfl⟩ := passFrom_cons_ok h
    rw [List.map_cons, ← ih hp, ← Machine.reason_of_rests (Machine.rests_of_execute hx) rfl]

theorem mem_waiting_iff {net : Network} {i : Nat} :
    i ∈ HaltReason.waitingFrom 0 (net.machines.map Machine.restReason) ↔
      ∃ m, net.machine? i = some m ∧ m.state ≠ .halted := by
  simp only [HaltReason.mem_waitingFrom_iff, List.getElem?_map, Option.map_eq_some_iff,
    Machine.restReason_eq_waiting_iff, Nat.zero_add, machine?]
  constructor
  · rintro ⟨j, hm, rfl⟩
    exact hm
  · intro hm
    exact ⟨i, hm, rfl⟩

theorem waiting_eq_nil_iff {net : Network} :
    HaltReason.waitingFrom 0 (net.machines.map Machine.restReason) = [] ↔
      ∀ m ∈ net.machines, m.state = .halted := by
  rw [List.eq_nil_iff_forall_not_mem]
  constructor
  · intro h m hm
    obtain ⟨i, hi⟩ := List.mem_iff_getElem?.1 hm
    cases hs : m.state with
    | halted => rfl
    | running => exact absurd (mem_waiting_iff.2 ⟨m, hi, by simp [hs]⟩) (h i)
  · intro h i hi
    obtain ⟨m, hm, hs⟩ := mem_waiting_iff.1 hi
    exact hs (h m (List.mem_of_getElem? hm))

theorem totalSteps_cons (t : Tapes) (m : Machine) (ms : List Machine) :
    totalSteps { tapes := t, machines := m :: ms } =
      m.steps + totalSteps { tapes := t, machines := ms } := rfl

/-- A pass completes an instruction, or the tapes are as they were and every machine rests. -/
theorem at_rest_of_passFrom {fuel index : Nat} {t t' : Tapes} {ms ms' : List Machine}
    {reasons : List HaltReason} (h : passFrom fuel index t ms = some (t', ms', .ok reasons)) :
    totalSteps { tapes := t, machines := ms } < totalSteps { tapes := t', machines := ms' } ∨
      totalSteps { tapes := t', machines := ms' } = totalSteps { tapes := t, machines := ms } ∧
        t' = t ∧ ∀ m ∈ ms', m.AtRest t := by
  induction ms generalizing index t ms' reasons with
  | nil =>
    cases h
    exact .inr ⟨rfl, rfl, List.forall_mem_nil _⟩
  | cons m rest ih =>
    obtain ⟨t₁, m₁, reason, rest₁, reasons₁, hx, hp, rfl, rfl⟩ := passFrom_cons_ok h
    rw [totalSteps_cons, totalSteps_cons]
    have hrests := Machine.rests_of_execute hx
    have hm := Machine.at_rest_of_rests hrests rfl
    obtain hlt | ⟨hs, ht⟩ := Machine.steps_of_rests hrests
    · -- The first machine has gone on; the others have at least not gone back.
      left
      obtain hrest | ⟨hs', -, -⟩ := ih hp
      · exact Nat.add_lt_add hlt hrest
      · rw [show totalSteps { tapes := t', machines := rest₁ } = _ from hs']
        exact Nat.add_lt_add_right hlt _
    · subst ht
      rw [show m₁.steps = m.steps from hs]
      obtain hrest | ⟨hs', ht', hrest⟩ := ih hp
      · exact .inl (Nat.add_lt_add_left hrest _)
      · exact .inr ⟨congrArg (m.steps + ·) hs', ht', List.forall_mem_cons.2 ⟨hm, hrest⟩⟩

theorem pass_eq_some_iff {fuel : Nat} {net net' : Network}
    {r : Except Error (List HaltReason)} :
    net.pass fuel = some (net', r) ↔
      passFrom fuel 0 net.tapes net.machines = some (net'.tapes, net'.machines, r) := by
  rw [pass]
  constructor
  · intro h
    obtain ⟨⟨t', ms', r'⟩, hp, h⟩ := Option.bind_eq_some_iff.1 h
    cases h
    exact hp
  · intro h
    rw [h]
    rfl

theorem schedule_of_pass {fuel : Nat} {net net' : Network} {reasons : List HaltReason}
    (h : net.pass fuel = some (net', .ok reasons)) :
    net.Schedule (List.range' 0 net.machines.length) net' :=
  schedule_of_passFrom [] (pass_eq_some_iff.1 h)

theorem reasons_of_pass {fuel : Nat} {net net' : Network} {reasons : List HaltReason}
    (h : net.pass fuel = some (net', .ok reasons)) :
    reasons = net'.machines.map Machine.restReason :=
  reasons_of_passFrom (pass_eq_some_iff.1 h)

/-- No machine waits after the pass, or none completed an instruction in it. -/
theorem at_rest_of_pass {fuel : Nat} {net net' : Network} {reasons : List HaltReason}
    (h : net.pass fuel = some (net', .ok reasons))
    (hr : HaltReason.waitingFrom 0 reasons = [] ∨ net'.totalSteps = net.totalSteps) :
    net'.AtRest := by
  have hp := pass_eq_some_iff.1 h
  intro m hm
  cases hr with
  | inl hw =>
    rw [reasons_of_pass h, waiting_eq_nil_iff] at hw
    exact .inl (hw m hm)
  | inr hs =>
    obtain hlt | ⟨-, ht, hrest⟩ := at_rest_of_passFrom hp
    · exact absurd hs (Nat.ne_of_gt hlt)
    · exact ht ▸ hrest m hm

end Network

/-- The report of a run whose last pass was number `passes` and gave these reasons. -/
def Report.ofReasons (passes : Nat) (reasons : List HaltReason) : Report where
  passes := passes
  reasons := reasons
  outcome :=
    if HaltReason.waitingFrom 0 reasons = [] then .halted
    else .stalled (HaltReason.waitingFrom 0 reasons)

namespace Pipeline

/-- A run ends after a pass in which no machine waits or none completes an instruction. -/
theorem runFrom_succ {fuel passes limit : Nat} {net net' : Network} {r : Except Error Report}
    (h : runFrom fuel passes net (limit + 1) = some (net', r)) :
    (∃ e, net.pass fuel = some (net', .error e) ∧ r = .error e) ∨
    (∃ reasons, net.pass fuel = some (net', .ok reasons) ∧
      r = .ok (.ofReasons (passes + 1) reasons) ∧
      (HaltReason.waitingFrom 0 reasons = [] ∨ net'.totalSteps = net.totalSteps)) ∨
    (∃ net₁ reasons, net.pass fuel = some (net₁, .ok reasons) ∧
      HaltReason.waitingFrom 0 reasons ≠ [] ∧ net₁.totalSteps ≠ net.totalSteps ∧
      runFrom fuel (passes + 1) net₁ limit = some (net', r)) := by
  rw [runFrom] at h
  obtain ⟨⟨net₁, r₁⟩, hp, h⟩ := Option.bind_eq_some_iff.1 h
  cases r₁ with
  | error e =>
    cases h
    exact .inl ⟨e, hp, rfl⟩
  | ok reasons =>
    right
    dsimp only at h
    split at h
    · next hw =>
      cases h
      have hw := List.isEmpty_iff.1 hw
      exact .inl ⟨reasons, hp, by rw [Report.ofReasons, if_pos hw], .inl hw⟩
    · next hw =>
      have hw := mt List.isEmpty_iff.2 hw
      split at h
      · next hs =>
        cases h
        exact .inl ⟨reasons, hp, by rw [Report.ofReasons, if_neg hw], .inr hs⟩
      · next hs => exact .inr ⟨net₁, reasons, hp, hw, hs, h⟩

/-- What every pass does to a network, a run does to it, if it adds up. -/
theorem runFrom_of_passes {fuel passes limit : Nat} {net net' : Network} {r : Except Error Report}
    {R : Network → Network → Prop} (htrans : ∀ {a b c}, R a b → R b c → R a c)
    (hpass : ∀ {a b reasons}, a.pass fuel = some (b, reasons) → R a b)
    (h : runFrom fuel passes net limit = some (net', r)) : R net net' := by
  induction limit generalizing passes net with
  | zero => cases h
  | succ limit ih =>
    obtain ⟨e, hp, -⟩ | ⟨reasons, hp, -, -⟩ | ⟨net₁, reasons, hp, -, -, h⟩ := runFrom_succ h
    · exact hpass hp
    · exact hpass hp
    · exact htrans (hpass hp) (ih h)

theorem runFrom_at_rest {fuel passes limit : Nat} {net net' : Network} {report : Report}
    (h : runFrom fuel passes net limit = some (net', .ok report)) :
    (∃ is, net.Schedule is net') ∧ net'.AtRest := by
  induction limit generalizing passes net with
  | zero => cases h
  | succ limit ih =>
    obtain ⟨e, -, hr⟩ | ⟨reasons, hp, -, hr⟩ | ⟨net₁, reasons, hp, -, -, h⟩ :=
      runFrom_succ h
    · cases hr
    · exact ⟨⟨_, Network.schedule_of_pass hp⟩, Network.at_rest_of_pass hp hr⟩
    · obtain ⟨⟨is, hs⟩, hrest⟩ := ih h
      exact ⟨⟨_, (Network.schedule_of_pass hp).append hs⟩, hrest⟩

theorem run_eq_some_iff {fuel : Nat} {p q : Pipeline} {r : Except Error Report} :
    p.run fuel = some (q, r) ↔
      runFrom fuel 0 p.network fuel = some (q.network, r) ∧ q.topology = p.topology := by
  rw [run, Option.map_eq_some_iff]
  constructor
  · rintro ⟨⟨net, r'⟩, hr, h⟩
    cases h
    exact ⟨hr, rfl⟩
  · rintro ⟨hr, ht⟩
    exact ⟨_, hr, by rw [← ht]⟩

/-- **A run that ends without a fault is a schedule that ends at rest.** -/
theorem run_at_rest {fuel : Nat} {p q : Pipeline} {report : Report}
    (h : p.run fuel = some (q, .ok report)) :
    (∃ is, p.network.Schedule is q.network) ∧ q.network.AtRest :=
  runFrom_at_rest (run_eq_some_iff.1 h).1

end Pipeline
end Intcode
