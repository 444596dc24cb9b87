import Intcode.Proofs.Seeds

/-!
# Intcode.Proofs.Chains

A chain does what its machines do one after the other, each by itself.

What a machine emits stands on its tape after the seeds of the machine behind it. The first pass
executes the machines in the order in which the words flow, so each of them finds all that the one
before it will ever emit, and is done with it when its turn is over.

* `chainInput`     : what a machine of a chain has to read in the end.
* `chain_composes` : each machine ends as one that is executed by itself on that input.
-/

namespace Intcode

namespace Pipeline

/-- What machine `i` of a chain has to read in the end: its seeds, and after them what the machine
before it emitted. -/
def chainInput (given emitted : Nat → List Word) : Nat → List Word
  | 0 => given 0
  | i + 1 => given (i + 1) ++ emitted i

/-- What the machines of a chain emitted, if `t` are its tapes. -/
def chainEmitted (given : Nat → List Word) (t : Tapes) (i : Nat) : List Word :=
  (t.values i).toList.drop (given (i + 1)).length

end Pipeline

namespace Network

open Pipeline

variable {memory : Memory} {count fuel : Nat} {given : Nat → List Word} {net net' : Network}
  {reasons : List HaltReason}

theorem Allotted.alone (h : net.Allotted memory count .chain given)
    (hp : net.pass fuel = some (net', .ok reasons)) {i : Nat} (hi : i < count) :
    ∃ m t s, net'.machine? i = some m ∧
      m.source = Topology.chain.sourceOf count i (given i) ∧ m.output = i ∧
      Machine.solo fuel memory (m.input net'.tapes).toList = some (t, s, .ok m.restReason) ∧
      m = { s with source := m.source, output := m.output } ∧
      net'.tapes.values i = (given (i + 1)).toArray ++ t.values s.output := by
  have hm := h.machine i hi
  obtain ⟨m, t₀, t₁, hm', hsettled⟩ := settled_of_passFrom (pass_eq_some_iff.1 hp) h.forward hm
  obtain ⟨hsource, houtput⟩ := hsettled.house
  have hmem := List.mem_of_getElem? hm
  obtain ⟨hunused, hmemory⟩ := h.unused _ hmem
  obtain ⟨t, s, hsolo, hs, hvalues⟩ := hsettled.solo (h.forward.self _ hmem) hunused
  refine ⟨m, t, s, hm', hsource, houtput, hmemory ▸ hsolo, hs, ?_⟩
  have hout : m.output = i := houtput
  rw [hout] at hvalues
  rw [hvalues]
  exact congrArg (· ++ _) (h.behind i)

theorem Allotted.emits (h : net.Allotted memory count .chain given)
    (hp : net.pass fuel = some (net', .ok reasons)) {i : Nat} (hi : i < count) :
    (net'.tapes.values i).toList = given (i + 1) ++ chainEmitted given net'.tapes i := by
  obtain ⟨m, t, s, -, -, -, -, -, hv⟩ := h.alone hp hi
  simp [chainEmitted, hv]

theorem Allotted.reads (h : net.Allotted memory count .chain given)
    (hp : net.pass fuel = some (net', .ok reasons)) {i : Nat} (hi : i < count) {m : Machine}
    (hm : m.source = Topology.chain.sourceOf count i (given i)) :
    (m.input net'.tapes).toList = chainInput given (chainEmitted given net'.tapes) i := by
  rw [Machine.input, hm]
  cases i with
  | zero => rfl
  | succ i => exact h.emits hp (Nat.lt_of_succ_lt hi)

/-- In one pass over a chain each machine does what it would do by itself. -/
theorem Allotted.composes (h : net.Allotted memory count .chain given)
    (hp : net.pass fuel = some (net', .ok reasons)) {i : Nat} (hi : i < count) :
    ∃ m t s, net'.machine? i = some m ∧
      (m.input net'.tapes).toList = chainInput given (chainEmitted given net'.tapes) i ∧
      (net'.tapes.values m.output).toList =
        given (i + 1) ++ chainEmitted given net'.tapes i ∧
      Machine.solo fuel memory (chainInput given (chainEmitted given net'.tapes) i) =
        some (t, s, .ok m.restReason) ∧
      m = { s with source := m.source, output := m.output } ∧
      (t.values s.output).toList = chainEmitted given net'.tapes i := by
  obtain ⟨m, t, s, hm, hsource, houtput, hsolo, hs, hv⟩ := h.alone hp hi
  have hinput := h.reads hp hi hsource
  refine ⟨m, t, s, hm, hinput, ?_, hinput ▸ hsolo, hs, ?_⟩
  · rw [houtput]
    exact h.emits hp hi
  · simp [chainEmitted, hv]

end Network

namespace Pipeline

/-- **A chain composes its machines.** After a run each machine is as one on the same memory that
was given the input of this machine and executed by itself, once; and what the two emitted is the
same. All is done in the first of at most two passes, and the run halts just when all of them halt
by themselves. -/
theorem chain_composes {memory : Memory} {count fuel : Nat} {p q r : Pipeline}
    {given : Nat → List Word} {report : Report} (hp : create memory count .chain = .ok p)
    (hs : p.Seeded q given) (hr : q.run fuel = some (r, .ok report)) :
    ∃ emitted : Nat → List Word,
      (r.size = count ∧ ∀ i < count, ∃ m t s reason,
        r.network.machine? i = some m ∧
        (m.input r.network.tapes).toList = chainInput given emitted i ∧
        (r.network.tapes.values m.output).toList = given (i + 1) ++ emitted i ∧
        Machine.solo fuel memory (chainInput given emitted i) = some (t, s, .ok reason) ∧
        m = { s with source := m.source, output := m.output } ∧
        (t.values s.output).toList = emitted i ∧
        report.reasons[i]? = some reason) ∧
      report.passes ≤ 2 ∧
      q.network.pass fuel = some (r.network, .ok report.reasons) ∧
      (∀ limit, r.network.pass (limit + 1) = some (r.network, .ok report.reasons)) ∧
      (report.outcome = .halted ↔ ∀ i < count, ∃ t s,
        Machine.solo fuel memory (chainInput given emitted i) =
          some (t, s, .ok .haltInstruction)) := by
  have hallotted := hs.allotted hp
  obtain ⟨hpass, hpasses⟩ := run_forward hr hallotted.forward
  have hreasons := Network.reasons_of_pass hpass
  have hsize : r.network.size = count := (size_of_run hr).trans hallotted.size
  refine ⟨chainEmitted given r.network.tapes, ⟨hsize, fun i hi => ?_⟩, hpasses, hpass,
    fun limit => ?_, (outcome_of_run_iff hr).trans ⟨fun hall i hi => ?_, fun hall m hm => ?_⟩⟩
  · obtain ⟨m, t, s, hm, hinput, hvalues, hsolo, hs, he⟩ := hallotted.composes hpass hi
    refine ⟨m, t, s, m.restReason, hm, hinput, hvalues, hsolo, hs, he, ?_⟩
    rw [hreasons, List.getElem?_map]
    exact congrArg (Option.map _) hm
  · rw [hreasons]
    exact Network.pass_of_at_rest (run_at_rest hr).2 limit
  · obtain ⟨m, t, s, hm, -, -, hsolo, -, -⟩ := hallotted.composes hpass hi
    have hhalted := hall m (List.mem_of_getElem? hm)
    exact ⟨t, s, by rw [hsolo, Machine.restReason_eq_halt_iff.2 hhalted]⟩
  · obtain ⟨i, hi⟩ := List.mem_iff_getElem?.1 hm
    have hlt : i < count := hsize ▸ (List.getElem?_eq_some_iff.1 hi).1
    obtain ⟨n, t, s, hn, -, -, hsolo, -, -⟩ := hallotted.composes hpass hlt
    obtain ⟨t', s', hsolo'⟩ := hall i hlt
    have hmn : n = m := Option.some.inj (hn.symm.trans hi)
    simp only [hsolo', Option.some.injEq, Prod.mk.injEq, Except.ok.injEq] at hsolo
    exact Machine.restReason_eq_halt_iff.1 (hmn ▸ hsolo.2.2.symm)

/-- Two machines, each of which emits the sum of the two words that it reads: the first one has two
seeds, the second one a seed and what the first one emits. -/
theorem chain_composes_two :
    let program := Memory.ofWords #[3, 0, 3, 1, 1, 0, 1, 0, 4, 0, 99] 11
    let done (a b sum : Word) (source : Source) (output : TapeId) : Machine := {
      memory := ((program.set 0 a).set 1 b).set 0 sum, source, cursor := 2, output
      lastEmitted := some sum, pc := 10, state := .halted, steps := 4 }
    let r : Pipeline := {
      network := {
        tapes := ⟨#[#[7, 6], #[13]]⟩
        machines := [done 5 1 6 (.owned #[5, 1]) 0, done 7 6 13 (.tape 0) 1] }
      topology := .chain }
    ∃ p q given report, create program 2 .chain = .ok p ∧ p.Seeded q given ∧
      q.run 5 = some (r, .ok report) ∧ given 0 = [5, 1] ∧ given 1 = [7] ∧
      ∃ emitted, emitted 0 = [6] ∧ ∀ i < 2, ∃ t s,
        Machine.solo 5 program (chainInput given emitted i) =
          some (t, s, .ok .haltInstruction) := by
  have told {memory : Memory} {p q r : Pipeline} {given : Nat → List Word} {report : Report}
      (hp : create memory 2 .chain = .ok p) (hs : p.Seeded q given)
      (hr : q.run 5 = some (r, .ok report)) (hg : given 0 = [5, 1] ∧ given 1 = [7])
      (h₀ : ∃ m, r.network.machine? 0 = some m ∧ r.network.tapes.values m.output = #[7, 6])
      (ho : report.outcome = .halted) :
      ∃ p q given report, create memory 2 .chain = .ok p ∧ p.Seeded q given ∧
        q.run 5 = some (r, .ok report) ∧ given 0 = [5, 1] ∧ given 1 = [7] ∧
        ∃ emitted, emitted 0 = [6] ∧ ∀ i < 2, ∃ t s,
          Machine.solo 5 memory (chainInput given emitted i) =
            some (t, s, .ok .haltInstruction) := by
    obtain ⟨emitted, ⟨-, hall⟩, -, -, -, hhalted⟩ := chain_composes hp hs hr
    refine ⟨p, q, given, report, hp, hs, hr, hg.1, hg.2, emitted, ?_, hhalted.1 ho⟩
    obtain ⟨m, t, s, reason, hm, -, hvalues, -⟩ := hall 0 (by decide)
    obtain ⟨n, hn, htape⟩ := h₀
    cases hn.symm.trans hm
    simpa [htape, hg.2] using hvalues.symm
  have hseeded {p q q' : Pipeline} (h : p.seedAll [5, 7] = .ok q) (h' : q.seed 0 1 = .ok q') :=
    Calls.seeded (.seedAll h (.seed h' .done)) (by simp [Call.Seeds])
  exact told rfl (hseeded rfl rfl) rfl ⟨rfl, rfl⟩ ⟨_, rfl, rfl⟩ rfl

end Pipeline
end Intcode
