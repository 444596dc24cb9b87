import Mathlib.Logic.Relation
import Intcode.Proofs.Deliveries
import Intcode.Proofs.Faults

/-!
# Intcode.Proofs.Breakdowns

Where a run of a pipeline breaks off, and what can still be done with the pipeline.

The machine with the fault stays where it is. Whatever the others write or anyone seeds, it is only
given more to read, and no input gets it past the fault. As every pass executes every machine, no
later pass comes to its end; it can only break off earlier, at a machine in front of this one.

* `Network.BreaksOff`          : a pass ends at the machine with the fault.
* `Network.Course.broken`      : a machine with a fault keeps it, whatever else is done.
* `Network.pass_of_broken`     : a pass over such a network breaks off there, or before it.
* `fault_located_permanent`    : an error of a run tells where the fault is, and there it stays.
-/

namespace Intcode

open Relation

/-- The error of an execution of machine `k`, as a run of a pipeline reports it. -/
def Error.ofMachine (e : Error) (k : Nat) : Error :=
  (e.within "pipeline::run").noting "machine" (Text.decimal k)

theorem Fault.isMalformedProgram_ofMachine (f : Fault) (pc : Word) (k : Nat) :
    ((f.errorAt pc).ofMachine k).isMalformedProgram = true :=
  f.isMalformedProgram_error

theorem Fault.trail_ofMachine (f : Fault) (pc : Word) (k : Nat) :
    ((f.errorAt pc).ofMachine k).trail = ["machine::execute", "pipeline::run"] := by
  cases f <;> rfl

theorem Fault.context_ofMachine (f : Fault) (pc : Word) (k : Nat) :
    ((f.errorAt pc).ofMachine k).context =
      f.error.context ++ [("pc", pc.text), ("machine", Text.decimal k)] := by
  cases f <;> rfl

namespace Machine

/-- A machine that reads nothing, and of which nothing but the source is changed, has all that it
had to read. -/
theorem Reads.more {t t' : Tapes} {m m' : Machine} (h : m.Reads t [] t' m')
    (hw : m' = m.wire m'.source) : MoreToRead t m t' m' := by
  refine ⟨hw, fun k w hk => ?_⟩
  rw [Source.get?, ← Array.getElem?_toList] at hk ⊢
  obtain ⟨more, hmore⟩ := h.input
  rw [Machine.input, Machine.input] at hmore
  rw [← hmore, List.getElem?_append_left (List.getElem?_eq_some_iff.1 hk).1, hk]

theorem MoreToRead.of_grows {t t' : Tapes} (h : t.Grows t') (m : Machine) :
    MoreToRead t m t' m :=
  (Reads.of_grows h m).more rfl

end Machine

namespace Network

/-- Every machine was executed in a pass, and none came to a fault. -/
def PassesTo (a b : Network) : Prop := ∃ fuel reasons, a.pass fuel = some (b, .ok reasons)

/-- The machines before machine `k` are executed in their order, which leads to the network `mid`
without a fault. Machine `k` is executed as `n` and comes, as `m`, to an instruction with a fault.
The machines behind it are not executed. -/
structure BreaksOff (net : Network) (k : Nat) (mid : Network) (n m : Machine) (fault : Fault)
    (net' : Network) : Prop where
  before : net.Schedule (List.range k) mid
  found : mid.machine? k = some n
  executed : ∃ fuel, n.execute fuel mid.tapes =
    some (net'.tapes, m, .error (fault.errorAt m.pc))
  completed : Machine.Runs mid.tapes n net'.tapes m
  faults : ∃ pc, Machine.step (net'.tapes, m) = .error fault (net'.tapes, m.goto pc)
  others : net'.machines = mid.machines.set k m

/-- Machine `k` has come to an instruction with a fault, which is reported as `e`. -/
def Broken (net : Network) (k : Nat) (e : Error) : Prop :=
  ∃ m, net.machine? k = some m ∧ Machine.Faulty net.tapes m e

/-! ## Where a pass breaks off -/

theorem stops_of_passFrom {fuel : Nat} {t t' : Tapes} {ms ms' : List Machine} {e : Error}
    (done : List Machine) (h : passFrom fuel done.length t ms = some (t', ms', .error e)) :
    ∃ (k : Nat) (mid : Network) (e₀ : Error),
      Schedule { tapes := t, machines := done ++ ms } (List.range' done.length k) mid ∧
      mid.execute fuel (done.length + k) =
        some ({ tapes := t', machines := done ++ ms' }, some (.error e₀)) ∧
      e = e₀.ofMachine (done.length + k) := by
  induction ms generalizing t ms' done with
  | nil => cases h
  | cons m rest ih =>
    obtain ⟨t₁, m₁, r₁, hx, ⟨e₀, rfl, rfl, rfl, hr⟩ | ⟨reason, rest₁, r₂, rfl, hp, rfl, hr⟩⟩ :=
      passFrom_cons h
    · cases hr
      exact ⟨0, _, e₀, .done, execute_at hx done rest, rfl⟩
    · cases r₂ with
      | ok reasons => cases hr
      | error e₂ =>
        cases hr
        obtain ⟨k, mid, e₀, hs, hm, he⟩ := ih (done ++ [m₁]) (by rwa [List.length_append])
        have hlen : (done ++ [m₁]).length + k = done.length + (k + 1) := by
          rw [List.length_append, List.length_singleton, Nat.add_assoc, Nat.add_comm 1]
        rw [List.append_assoc, List.length_append] at hs
        rw [hlen, List.append_assoc] at hm
        rw [hlen] at he
        exact ⟨k + 1, mid, e₀, .execute (execute_at hx done rest) hs, hm, he⟩

theorem breaks_off_of_pass {fuel : Nat} {net net' : Network} {e : Error}
    (h : net.pass fuel = some (net', .error e)) :
    ∃ k mid n m fault, net.BreaksOff k mid n m fault net' ∧
      e = (fault.errorAt m.pc).ofMachine k := by
  obtain ⟨k, mid, e₀, hs, hx, he⟩ := stops_of_passFrom [] (pass_eq_some_iff.1 h)
  rw [List.length_nil, Nat.zero_add] at hx he
  rw [List.length_nil, ← List.range_eq_range'] at hs
  obtain ⟨-, -, hr⟩ | ⟨n, t, m, result, hn, hx, hnet, hr⟩ := execute_cases hx
  · cases hr
  · cases hr
    obtain ⟨hruns, hfaulty⟩ := Machine.faulty_of_execute hx
    obtain ⟨fault, pc, hstep, rfl⟩ := Machine.step_of_faulty hfaulty
    obtain ⟨rfl, hothers⟩ := Network.mk.inj hnet
    exact ⟨k, mid, n, m, fault, ⟨hs, hn, ⟨fuel, hx⟩, hruns, ⟨pc, hstep⟩, hothers⟩, he⟩

theorem BreaksOff.broken {net mid net' : Network} {k : Nat} {n m : Machine} {fault : Fault}
    (h : net.BreaksOff k mid n m fault net') : net'.Broken k (fault.errorAt m.pc) := by
  obtain ⟨hk, -⟩ := List.getElem?_eq_some_iff.1 h.found
  obtain ⟨fuel, hx⟩ := h.executed
  refine ⟨m, ?_, (Machine.faulty_of_execute hx).2⟩
  rw [machine?, h.others]
  exact List.getElem?_set_self hk

/-! ## What is broken stays broken -/

variable {net net' : Network} {k : Nat} {e : Error}

/-- A machine with a fault stays as it is when it is executed, and when another one is. -/
theorem Broken.execute (h : net.Broken k e) {fuel i : Nat} {r : Option (Except Error HaltReason)}
    (hx : net.execute fuel i = some (net', r)) :
    net'.Broken k e ∧ (i = k → r = some (.error e)) := by
  obtain ⟨m, hm, hf⟩ := h
  obtain ⟨hn, rfl, -⟩ | ⟨n, t, n', result, hn, hrun, rfl, rfl⟩ := execute_cases hx
  · refine ⟨⟨m, hm, hf⟩, ?_⟩
    rintro rfl
    rw [hm] at hn
    cases hn
  · obtain ⟨hi, -⟩ := List.getElem?_eq_some_iff.1 hn
    by_cases hik : i = k
    · subst hik
      rw [hm] at hn
      cases hn
      obtain _ | fuel := fuel
      · cases hrun
      rw [Machine.execute_of_faulty hf] at hrun
      cases hrun
      exact ⟨⟨m, List.getElem?_set_self hi, hf⟩, fun _ => rfl⟩
    · -- The other machine may have written to the tape that this one reads.
      obtain ⟨history, hd⟩ := Machine.exists_did hrun
      exact ⟨⟨m, (List.getElem?_set_ne hik).trans hm, hf.more (.of_grows hd.adds.grows m)⟩,
        fun hik' => absurd hik' hik⟩

/-- A machine with a fault keeps it, whatever else is done. -/
theorem Course.broken {es : List (Nat × History)} (hc : net.Course es net')
    (h : net.Broken k e) : net'.Broken k e := by
  induction hc with
  | done => exact h
  | @execute net₁ es i m m' t history r _ hm hx ih =>
    obtain ⟨fuel, hx⟩ := Machine.exists_executes_iff.2 ⟨history, hx⟩
    exact (ih.execute (execute_of_machine? hm hx)).1
  | @feed net₁ es j words _ ih =>
    obtain ⟨m, hm, hf⟩ := ih
    obtain ⟨m', hm', hreads, hw⟩ := reads_of_feed hm j words
    exact ⟨m', hm', hf.more (hreads.more hw)⟩
  | write _ ih =>
    obtain ⟨m, hm, hf⟩ := ih
    exact ⟨m, hm, hf.more (.write ..)⟩

/-- Machines are executed without a fault only if the broken one is not among them. -/
theorem Schedule.broken {is : List Nat} (hs : net.Schedule is net') (h : net.Broken k e) :
    k ∉ is ∧ net'.Broken k e := by
  induction hs with
  | done => exact ⟨List.not_mem_nil, h⟩
  | execute hx _ ih =>
    obtain ⟨hb, hr⟩ := h.execute hx
    obtain ⟨hk, hb'⟩ := ih hb
    refine ⟨?_, hb'⟩
    rw [List.mem_cons, not_or]
    refine ⟨?_, hk⟩
    rintro rfl
    cases hr rfl

/-- A pass over a network with a broken machine breaks off there, or before it. -/
theorem pass_of_broken (h : net.Broken k e) {fuel : Nat} {r : Except Error (List HaltReason)}
    (hp : net.pass fuel = some (net', r)) :
    ∃ (k' : Nat) (m : Machine) (fault : Fault), r = .error ((fault.errorAt m.pc).ofMachine k') ∧
      (k' < k ∨ k' = k ∧ fault.errorAt m.pc = e) := by
  cases r with
  | ok reasons =>
    have hk : k < net.machines.length := by
      obtain ⟨m, hm, -⟩ := h
      exact (List.getElem?_eq_some_iff.1 hm).1
    refine absurd ?_ ((schedule_of_pass hp).broken h).1
    simpa using hk
  | error e' =>
    obtain ⟨k', mid, n, m, fault, hb, rfl⟩ := breaks_off_of_pass hp
    obtain ⟨hk, hmid⟩ := hb.before.broken h
    rw [List.mem_range, Nat.not_lt] at hk
    refine ⟨k', m, fault, rfl, hk.lt_or_eq.imp_right fun hk => ⟨hk, ?_⟩⟩
    obtain ⟨fuel', hx⟩ := hb.executed
    have hnet := execute_of_machine? hb.found hx
    cases (hmid.execute hnet).2 hk
    rfl

end Network

namespace Pipeline

theorem breaks_off_of_runFrom {fuel passes limit : Nat} {net net' : Network} {e : Error}
    (h : runFrom fuel passes net limit = some (net', .error e)) :
    ∃ last, ReflTransGen Network.PassesTo net last ∧ last.pass fuel = some (net', .error e) := by
  induction limit generalizing passes net with
  | zero => cases h
  | succ limit ih =>
    obtain ⟨e', hp, hr⟩ | ⟨reasons, -, hr, -⟩ | ⟨net₁, reasons, hp, -, -, h⟩ := runFrom_succ h
    · cases hr
      exact ⟨net, .refl, hp⟩
    · cases hr
    · obtain ⟨last, hlast, hp'⟩ := ih h
      exact ⟨last, .head ⟨fuel, reasons, hp⟩ hlast, hp'⟩

/-- A run that ends with an error makes passes without a fault, and then one that breaks off. -/
theorem breaks_off_of_run {fuel : Nat} {p q : Pipeline} {e : Error}
    (h : p.run fuel = some (q, .error e)) :
    ∃ last k mid n m fault,
      ReflTransGen Network.PassesTo p.network last ∧
      last.pass fuel = some (q.network, .error e) ∧
      last.BreaksOff k mid n m fault q.network ∧
      e = (fault.errorAt m.pc).ofMachine k := by
  obtain ⟨last, hlast, hp⟩ := breaks_off_of_runFrom (run_eq_some_iff.1 h).1
  obtain ⟨k, mid, n, m, fault, hb, he⟩ := Network.breaks_off_of_pass hp
  exact ⟨last, k, mid, n, m, fault, hlast, hp, hb, he⟩

theorem run_of_broken {fuel k : Nat} {p q : Pipeline} {e : Error} {r : Except Error Report}
    (h : p.network.Broken k e) (hr : p.run fuel = some (q, r)) :
    ∃ (k' : Nat) (m : Machine) (fault : Fault), r = .error ((fault.errorAt m.pc).ofMachine k') ∧
      (k' < k ∨ k' = k ∧ fault.errorAt m.pc = e) := by
  have hr := (run_eq_some_iff.1 hr).1
  obtain _ | limit := fuel
  · cases hr
  obtain ⟨e', hp, rfl⟩ | ⟨reasons, hp, -, -⟩ | ⟨net₁, reasons, hp, -, -, -⟩ := runFrom_succ hr
  · obtain ⟨k', m, fault, he, hk⟩ := Network.pass_of_broken h hp
    cases he
    exact ⟨k', m, fault, rfl, hk⟩
  · obtain ⟨k', m, fault, he, -⟩ := Network.pass_of_broken h hp
    cases he
  · obtain ⟨k', m, fault, he, -⟩ := Network.pass_of_broken h hp
    cases he

/-- **A fault is located, and it stays.** A run that ends with an error has made some passes without
a fault and then one that broke off: the machines before the one that the error names were executed,
this one has come to an instruction with a fault, and those behind it were not executed. Whatever is
seeded and run afterwards, every run ends with an error that blames the program: with the same one,
or with one that names a machine before this one. -/
theorem fault_located_permanent {fuel : Nat} {p q : Pipeline} {e : Error}
    (h : p.run fuel = some (q, .error e)) :
    ∃ last k mid n m fault,
      ReflTransGen Network.PassesTo p.network last ∧
      last.pass fuel = some (q.network, .error e) ∧
      last.BreaksOff k mid n m fault q.network ∧
      e = (fault.errorAt m.pc).ofMachine k ∧
      e.trail = ["machine::execute", "pipeline::run"] ∧
      e.context = fault.error.context ++ [("pc", m.pc.text), ("machine", Text.decimal k)] ∧
      ∀ q', q.Driven q' → ∀ fuel' s r,
        q'.run fuel' = some (s, r) ∨ q'.runToHalt fuel' = some (s, r) →
        ∃ (e' : Error) (k' : Nat), r = .error e' ∧ e'.isMalformedProgram = true ∧
          e'.context.getLast? = some ("machine", Text.decimal k') ∧
          (k' < k ∨ k' = k ∧ e' = e) := by
  obtain ⟨last, k, mid, n, m, fault, hlast, hp, hb, rfl⟩ := breaks_off_of_run h
  refine ⟨last, k, mid, n, m, fault, hlast, hp, hb, rfl, fault.trail_ofMachine ..,
    fault.context_ofMachine .., fun q' ⟨cs, hcs⟩ fuel' s r hr => ?_⟩
  obtain ⟨es, hes⟩ := hcs.course
  have hbroken := hes.broken hb.broken
  have hrun : ∃ r', q'.run fuel' = some (s, r') ∧ ∀ e, r' = .error e → r = .error e := by
    cases hr with
    | inl hr => exact ⟨r, hr, fun _ he => he⟩
    | inr hr => exact run_of_runToHalt hr
  obtain ⟨r', hr', hsame⟩ := hrun
  obtain ⟨k', m', fault', he, hk⟩ := run_of_broken hbroken hr'
  refine ⟨_, k', hsame _ he, fault'.isMalformedProgram_ofMachine .., ?_, hk.imp_right ?_⟩
  · rw [fault'.context_ofMachine]
    simp
  · rintro ⟨rfl, he'⟩
    rw [he']
    exact ⟨rfl, rfl⟩

/-- Two machines in a ring hand on a word, twice round. Then the second one comes to a fault, and
with one more seed the first one does so before it. -/
theorem fault_located_ring :
    let m : Machine := {
      memory := Memory.ofWords #[3, 20, 4, 20, 3, 20, 4, 20, 3, 20, 42] 30, source := .tape 1
      output := 0 }
    let n : Machine := {
      memory := Memory.ofWords #[3, 20, 4, 20, 3, 20, 42] 30, source := .tape 0, output := 1 }
    let p : Pipeline := {
      network := { tapes := ⟨#[#[], #[5]]⟩, machines := [m, n] }, topology := .ring }
    let e (pc : Word) (k : Nat) : Error := ((Fault.unknownOpcode 42).errorAt pc).ofMachine k
    ∃ q q' s, p.run 5 = some (q, .error (e 6 1)) ∧ q.seed 0 8 = .ok q' ∧
      q'.run 5 = some (s, .error (e 10 0)) ∧ (e 6 1).trail = ["machine::execute", "pipeline::run"] ∧
      (e 10 0).isMalformedProgram = true := by
  have told {p q q' s : Pipeline} {e e' : Error} (hr : p.run 5 = some (q, .error e))
      (hs : q.seed 0 8 = .ok q') (hr' : q'.run 5 = some (s, .error e')) :
      ∃ q q' s, p.run 5 = some (q, .error e) ∧ q.seed 0 8 = .ok q' ∧
        q'.run 5 = some (s, .error e') ∧ e.trail = ["machine::execute", "pipeline::run"] ∧
        e'.isMalformedProgram = true := by
    obtain ⟨-, k, -, -, -, -, -, -, -, -, htrail, -, hlater⟩ := fault_located_permanent hr
    obtain ⟨e₁, k', he, hmalformed, -⟩ := hlater q' ⟨_, .seed hs .done⟩ 5 s _ (.inl hr')
    cases he
    exact ⟨q, q', s, hr, hs, hr', htrail, hmalformed⟩
  exact told rfl rfl rfl

end Pipeline
end Intcode
