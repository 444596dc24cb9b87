import Intcode.Proofs.Writers

/-!
# Intcode.Proofs.Verdicts

What the report of a run says, and how long it stays true.

A run is ended by a pass in which no machine waits or none completes an instruction. Either way
the machines are at rest then, and machines at rest are left as they are by another pass, so the
report would be the same again.

* `Network.pass_of_at_rest` : a pass leaves a network at rest as it is.
* `Pipeline.verdict_stable` : a report tells which machines wait, and waiting lasts.
-/

namespace Intcode

namespace HaltReason

/-- The waiting machines are named in their order. -/
theorem waitingFrom_pairwise (first : Nat) (reasons : List HaltReason) :
    (waitingFrom first reasons).Pairwise (· < ·) := by
  induction reasons generalizing first with
  | nil => exact .nil
  | cons reason rest ih =>
    cases reason with
    | haltInstruction => exact ih (first + 1)
    | waitingForInput =>
      refine .cons (fun i hi => ?_) (ih (first + 1))
      obtain ⟨j, -, rfl⟩ := mem_waitingFrom_iff.1 hi
      omega

end HaltReason

namespace Machine

/-- A machine at rest that has not halted has come to an input instruction, and nothing is
there to be read. -/
theorem AtRest.waits {t : Tapes} {m : Machine} (h : m.AtRest t) (hs : m.state ≠ .halted) :
    (∃ word modes, m.cell m.pc = .ok word ∧
      Instruction.decode word = .ok ⟨.storeInput, modes⟩) ∧ m.pending t = 0 := by
  obtain hh | ⟨word, modes, hc, hi, hu⟩ := h
  · exact absurd hh hs
  · refine ⟨⟨word, modes, hc, hi⟩, ?_⟩
    exact Nat.sub_eq_zero_of_le (Array.getElem?_eq_none_iff.1 hu)

theorem AtRest.execute {t : Tapes} {m : Machine} (h : m.AtRest t) (fuel : Nat) :
    execute (fuel + 1) t m = some (t, m, .ok m.restReason) := by
  rw [Machine.execute, h.turn]

end Machine

namespace Network

theorem passFrom_of_at_rest {t : Tapes} {ms : List Machine} (h : ∀ m ∈ ms, m.AtRest t)
    (fuel index : Nat) :
    passFrom (fuel + 1) index t ms = some (t, ms, .ok (ms.map Machine.restReason)) := by
  induction ms generalizing index with
  | nil => rfl
  | cons m rest ih =>
    obtain ⟨hm, hrest⟩ := List.forall_mem_cons.1 h
    have hx := hm.execute fuel
    have hp := ih hrest (index + 1)
    rw [passFrom, hx]
    show (passFrom (fuel + 1) (index + 1) t rest).bind _ = _
    rw [hp]
    rfl

/-- **A pass leaves a network at rest as it is.** -/
theorem pass_of_at_rest {net : Network} (h : net.AtRest) (fuel : Nat) :
    net.pass (fuel + 1) = some (net, .ok (net.machines.map Machine.restReason)) :=
  pass_eq_some_iff.2 (passFrom_of_at_rest h fuel 0)

end Network

namespace Pipeline

/-- The report of a run is that of the machines as they are at its end. -/
theorem report_of_runFrom {fuel passes limit : Nat} {net net' : Network} {report : Report}
    (h : runFrom fuel passes net limit = some (net', .ok report)) :
    ∃ n, report = .ofReasons n (net'.machines.map Machine.restReason) := by
  induction limit generalizing passes net with
  | zero => cases h
  | succ limit ih =>
    obtain ⟨e, -, hr⟩ | ⟨reasons, hp, hr, -⟩ | ⟨net₁, reasons, -, -, -, h⟩ := runFrom_succ h
    · cases hr
    · cases hr
      exact ⟨passes + 1, by rw [← Network.reasons_of_pass hp]⟩
    · exact ih h

/-- At rest, the first pass is the last one. -/
theorem runFrom_of_at_rest {net : Network} (h : net.AtRest) (fuel passes limit : Nat) :
    runFrom (fuel + 1) passes net (limit + 1) =
      some (net, .ok (.ofReasons (passes + 1) (net.machines.map Machine.restReason))) := by
  rw [runFrom, Network.pass_of_at_rest h]
  by_cases hw : HaltReason.waitingFrom 0 (net.machines.map Machine.restReason) = []
  · simp [Report.ofReasons, hw]
  · simp [Report.ofReasons, hw]

theorem outcome_ofReasons_iff {n : Nat} {reasons : List HaltReason} :
    (Report.ofReasons n reasons).outcome = .halted ↔ HaltReason.waitingFrom 0 reasons = [] := by
  by_cases h : HaltReason.waitingFrom 0 reasons = []
  · simp [Report.ofReasons, h]
  · simp [Report.ofReasons, h]

theorem outcome_of_run_iff {fuel : Nat} {p q : Pipeline} {report : Report}
    (h : p.run fuel = some (q, .ok report)) :
    report.outcome = .halted ↔ ∀ m ∈ q.network.machines, m.state = .halted := by
  obtain ⟨n, rfl⟩ := report_of_runFrom (run_eq_some_iff.1 h).1
  rw [outcome_ofReasons_iff, Network.waiting_eq_nil_iff]

theorem size_of_run {fuel : Nat} {p q : Pipeline} {r : Except Error Report}
    (h : p.run fuel = some (q, r)) : q.size = p.size :=
  (runFrom_keeps (run_eq_some_iff.1 h).1).size

/-- **A report tells which machines wait, and what it tells lasts.** A run that ends without a
fault ends with all machines halted, or with a list of those that are not; each of those has come
to an input instruction with nothing to read. Another run reports the same after one pass and
changes nothing. -/
theorem verdict_stable {fuel : Nat} {p q : Pipeline} {report : Report}
    (h : p.run fuel = some (q, .ok report)) :
    report.reasons.length = q.size ∧ q.size = p.size ∧
    (report.outcome = .halted ↔ ∀ m ∈ q.network.machines, m.state = .halted) ∧
    (report.outcome ≠ .halted → ∃ waiting, report.outcome = .stalled waiting ∧
      waiting ≠ [] ∧ waiting.Pairwise (· < ·) ∧
      ∀ i, i ∈ waiting ↔ ∃ m, q.network.machine? i = some m ∧ m.state ≠ .halted) ∧
    (∀ m ∈ q.network.machines, m.state ≠ .halted →
      (∃ word modes, m.cell m.pc = .ok word ∧
        Instruction.decode word = .ok ⟨.storeInput, modes⟩) ∧ m.pending q.network.tapes = 0) ∧
    ∀ fuel', q.run (fuel' + 1) = some (q, .ok { report with passes := 1 }) := by
  have hrest : q.network.AtRest := (run_at_rest h).2
  have hhalted := outcome_of_run_iff h
  obtain ⟨n, rfl⟩ := report_of_runFrom (run_eq_some_iff.1 h).1
  refine ⟨List.length_map .., size_of_run h, hhalted, fun hne => ?_,
    fun m hm => (hrest m hm).waits, fun fuel' => ?_⟩
  · rw [ne_eq, outcome_ofReasons_iff] at hne
    exact ⟨_, if_neg hne, hne, HaltReason.waitingFrom_pairwise .., fun i =>
      Network.mem_waiting_iff⟩
  · exact run_eq_some_iff.2 ⟨runFrom_of_at_rest hrest fuel' 0 fuel', rfl⟩

/-- The first machine passes on a word and waits for another, the second one halts. -/
theorem verdict_stable_chain :
    let m : Machine := {
      memory := Memory.ofWords #[3, 0, 4, 0, 3, 0, 99] 9, source := .owned #[5], output := 0 }
    let n : Machine := { memory := Memory.ofWords #[3, 0, 99] 9, source := .tape 0, output := 1 }
    let p : Pipeline := {
      network := { tapes := ⟨#[#[], #[]]⟩, machines := [m, n] }, topology := .chain }
    let m' : Machine := { m with
      memory := m.memory.set 0 5, cursor := 1, lastEmitted := some 5, pc := 4, steps := 2 }
    let n' : Machine := { n with
      memory := n.memory.set 0 5, cursor := 1, pc := 2, state := .halted, steps := 1 }
    let q : Pipeline := {
      network := { tapes := ⟨#[#[5], #[]]⟩, machines := [m', n'] }, topology := .chain }
    let report : Report := {
      passes := 2, reasons := [.waitingForInput, .haltInstruction], outcome := .stalled [0] }
    p.run 3 = some (q, .ok report) ∧ m'.pending q.network.tapes = 0 ∧
      q.run 1 = some (q, .ok { report with passes := 1 }) := by
  have told {p q : Pipeline} {report : Report} {m : Machine}
      (hr : p.run 3 = some (q, .ok report)) (hm : m ∈ q.network.machines)
      (hs : m.state ≠ .halted) :
      p.run 3 = some (q, .ok report) ∧ m.pending q.network.tapes = 0 ∧
        q.run 1 = some (q, .ok { report with passes := 1 }) := by
    obtain ⟨-, -, -, -, hwaits, hagain⟩ := verdict_stable hr
    exact ⟨hr, (hwaits m hm hs).2, hagain 0⟩
  exact told rfl (.head _) (by decide)

end Pipeline
end Intcode
