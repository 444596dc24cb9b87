import Intcode.Proofs.Breakdowns
import Intcode.Proofs.Determinacy
import Intcode.Proofs.Wiring

/-!
# Intcode.Proofs.Ledgers

Who wrote what to a tape.

A tape keeps no account of its writers. On the output tape of a machine there can also be words that
came from outside: seeds for the machine that reads it, which may be the machine itself, and words
that were written to the tape by its number. A ledger tells the words of all tapes in the order in
which they came, each with its writer.

* `Network.Records`         : operations on a network, and the ledger of what they wrote.
* `Network.Records.values`  : a tape holds what it held, and behind it what the ledger tells.
* `Network.Records.machine` : what a machine last emitted is the last word that it wrote.
* `last_output_is_own`      : the last output of a pipeline is no seed.
-/

namespace Intcode

/-- Words that came onto a tape, if there was a tape for them, and the machine that wrote them, if
they did not come from outside. -/
structure Deposit where
  writer : Option Nat
  tape : Option TapeId
  words : List Word

/-- What came onto tapes, first one first. -/
abbrev Ledger := List Deposit

namespace Ledger

def onTape (l : Ledger) (t : TapeId) : Ledger := l.filter fun d => d.tape = some t

def byMachine (l : Ledger) (i : Nat) : Ledger := l.filter fun d => d.writer = some i

def words (l : Ledger) : List Word := l.flatMap Deposit.words

theorem words_append (l l' : Ledger) : (l ++ l').words = l.words ++ l'.words :=
  List.flatMap_append

theorem words_singleton (d : Deposit) : words [d] = d.words :=
  List.flatMap_singleton ..

theorem onTape_snoc (l : Ledger) (d : Deposit) (t : TapeId) :
    onTape (l ++ [d]) t = l.onTape t ++ if d.tape = some t then [d] else [] := by
  rw [onTape, List.filter_append]
  by_cases h : d.tape = some t <;> simp [onTape, h]

theorem byMachine_snoc (l : Ledger) (d : Deposit) (i : Nat) :
    byMachine (l ++ [d]) i = l.byMachine i ++ if d.writer = some i then [d] else [] := by
  rw [byMachine, List.filter_append]
  by_cases h : d.writer = some i <;> simp [byMachine, h]

end Ledger

namespace Machine

theorem act_lastEmitted (m : Machine) (width : Nat) (action : Action) :
    (m.act width action).lastEmitted = action.emitted?.or m.lastEmitted := by
  cases action <;> rfl

/-- What a machine last emitted is the last word of its history, if there is one. -/
theorem replay_lastEmitted (m : Machine) (h : History) :
    (m.replay h).lastEmitted = h.emitted.getLast?.or m.lastEmitted := by
  induction h generalizing m with
  | nil => rfl
  | cons e rest ih =>
    rw [replay, ih, act_lastEmitted, History.emitted_cons, List.getLast?_append, Option.or_assoc]
    cases e.2.emitted? <;> rfl

theorem Did.lastEmitted {t t' : Tapes} {m m' : Machine} {h : History} (hd : Did t m h t' m') :
    m'.lastEmitted = h.emitted.getLast?.or m.lastEmitted := by
  rw [hd.machine]
  exact replay_lastEmitted m h

end Machine

namespace Operation

/-- Only an execution has a machine emit something. -/
theorem Changes.lastEmitted_eq {op : Operation} {m m' : Machine} (h : op.Changes m m')
    (hop : ∀ i, op ≠ .execute i) : m'.lastEmitted = m.lastEmitted := by
  cases op with
  | feed i words =>
    obtain ⟨held, -, rfl⟩ := h
    rfl
  | execute i => exact absurd rfl (hop i)
  | _ =>
    cases h
    rfl

end Operation

namespace Network

/-- Operations are performed, of any kind and in any order. The ledger tells what each of them
wrote: an execution what the machine emitted, any other operation what came from outside. -/
inductive Records : Network → Ledger → Network → Prop where
  | done {net : Network} : Records net [] net
  | execute {net net' : Network} {l : Ledger} {i : Nat} {m m' : Machine} {t : Tapes} {h : History}
      {r : Except Error HaltReason} :
      Records net l net' → net'.machine? i = some m → m.Executes net'.tapes h t m' r →
      Records net (l ++ [⟨some i, some m.output, h.emitted⟩])
        { tapes := t, machines := net'.machines.set i m' }
  | perform {net net' net'' : Network} {l : Ledger} {op : Operation} {words : Array Word} :
      Records net l net' → op.words? net' = some words → net'.perform 0 op = some (net'', none) →
      Records net (l ++ [⟨none, op.tape? net', words.toList⟩]) net''

variable {net net' : Network} {l : Ledger}

/-- **A tape holds what it held, and behind it what came, in the order in which it came.** -/
theorem Records.values (h : net.Records l net') (t : TapeId) :
    net'.tapes.values t = net.tapes.values t ++ (l.onTape t).words.toArray := by
  have snoc {t₁ t₂ : Tapes} {l : Ledger} {d : Deposit}
      (ih : t₁.values t = net.tapes.values t ++ (l.onTape t).words.toArray)
      (hadds : t₁.Adds d.tape d.words.toArray t₂) :
      t₂.values t = net.tapes.values t ++ (Ledger.onTape (l ++ [d]) t).words.toArray := by
    rw [hadds t, Ledger.onTape_snoc, Ledger.words_append, ← List.append_toArray,
      ← Array.append_assoc, ← ih]
    by_cases ht : d.tape = some t
    · simp [ht, Ledger.words_singleton]
    · simp [ht, Ledger.words]
  induction h with
  | done => simp [Ledger.onTape, Ledger.words]
  | execute _ _ hx ih => exact snoc ih (Machine.did_of_turn hx.rests).adds
  | perform _ hw hp ih =>
    obtain ⟨words, htold, hadds⟩ := perform_adds hp
    obtain rfl := htold _ hw
    exact snoc ih (by simpa using hadds)

/-- What the ledger tells of machine `i`, which was `m` and has come to be `m'`. -/
structure Wrote (l : Ledger) (i : Nat) (m m' : Machine) : Prop where
  output : m'.output = m.output
  own : ∀ d ∈ l.byMachine i, d.tape = some m.output
  lastEmitted : m'.lastEmitted = (l.byMachine i).words.getLast?.or m.lastEmitted

/-- All that a machine wrote is on its tape. -/
theorem Wrote.byMachine_onTape {i : Nat} {m m' : Machine} (h : Wrote l i m m') :
    (l.onTape m.output).byMachine i = l.byMachine i := by
  rw [Ledger.byMachine, Ledger.onTape, List.filter_comm]
  refine List.filter_eq_self.2 fun d hd => ?_
  simpa using h.own d hd

/-- A machine wrote nothing by what others did. -/
theorem Wrote.snoc {i : Nat} {m m₁ m' : Machine} {d : Deposit} (h : Wrote l i m m₁)
    (hd : d.writer ≠ some i) (ho : m'.output = m₁.output) (he : m'.lastEmitted = m₁.lastEmitted) :
    Wrote (l ++ [d]) i m m' := by
  have hl : Ledger.byMachine (l ++ [d]) i = l.byMachine i := by
    rw [Ledger.byMachine_snoc, if_neg hd, List.append_nil]
  exact ⟨ho.trans h.output, hl ▸ h.own, by rw [he, h.lastEmitted, hl]⟩

theorem Wrote.execute {i : Nat} {m m₁ m' : Machine} {t t' : Tapes} {history : History}
    (h : Wrote l i m m₁) (hd : Machine.Did t m₁ history t' m') :
    Wrote (l ++ [⟨some i, some m₁.output, history.emitted⟩]) i m m' := by
  have hl : Ledger.byMachine (l ++ [⟨some i, some m₁.output, history.emitted⟩]) i =
      l.byMachine i ++ [⟨some i, some m₁.output, history.emitted⟩] := by
    rw [Ledger.byMachine_snoc, if_pos rfl]
  refine ⟨hd.output.trans h.output, ?_, ?_⟩
  · intro d hmem
    rw [hl, List.mem_append, List.mem_singleton] at hmem
    rcases hmem with hmem | rfl
    · exact h.own d hmem
    · rw [h.output]
  · rw [hl, Ledger.words_append, Ledger.words_singleton, List.getLast?_append, Option.or_assoc,
      ← h.lastEmitted, hd.lastEmitted]

/-- **What a machine last emitted is the last word that it wrote**, whatever else came onto its
tape. If it wrote none, it is what it was. -/
theorem Records.machine (h : net.Records l net') {i : Nat} {m : Machine}
    (hm : net.machine? i = some m) : ∃ m', net'.machine? i = some m' ∧ Wrote l i m m' := by
  induction h with
  | done => exact ⟨m, hm, rfl, by simp [Ledger.byMachine], rfl⟩
  | @execute net₁ l j n n' t history r _ hn hx ih =>
    obtain ⟨m₁, hm₁, hw⟩ := ih
    by_cases hij : j = i
    · subst hij
      rw [hn] at hm₁
      cases hm₁
      exact ⟨n', machine?_set hn t n', hw.execute (Machine.did_of_turn hx.rests)⟩
    · exact ⟨m₁, (List.getElem?_set_ne hij).trans hm₁, hw.snoc (by simpa using hij) rfl rfl⟩
  | @perform net₁ net₂ l op words _ hwords hp ih =>
    obtain ⟨m₁, hm₁, hw⟩ := ih
    obtain ⟨m', hm', hc⟩ := perform_touches hp i m₁ hm₁
    have hop : ∀ j, op ≠ .execute j := by
      rintro j rfl
      cases hwords
    have hsame : m'.output = m₁.output ∧ m'.lastEmitted = m₁.lastEmitted := by
      split_ifs at hc
      · exact ⟨hc.output_eq, hc.lastEmitted_eq hop⟩
      · rw [hc]
        exact ⟨rfl, rfl⟩
    exact ⟨m', hm', hw.snoc (by simp) hsame.1 hsame.2⟩

theorem Records.built (h : net.Records l net') (hb : net.Built) : net'.Built := by
  induction h with
  | done => exact hb
  | @execute net₁ l j n n' t history r _ hn hx ih =>
    obtain ⟨fuel, hx⟩ := Machine.exists_executes_iff.2 ⟨history, hx⟩
    have hp : net₁.perform fuel (.execute j) = some _ := execute_of_machine? hn hx
    exact .perform ih hp
  | perform _ _ hp ih => exact .perform ih hp

/-- On the tape of a machine there is what it wrote itself and what came from outside; no other
machine writes to it. -/
theorem Records.writer (h : net.Records l net') (hb : net.Built) {i : Nat} {m : Machine}
    (hm : net.machine? i = some m) :
    ∀ d ∈ l.onTape m.output, d.writer = some i ∨ d.writer = none := by
  have snoc {l : Ledger} {new : Deposit}
      (ih : ∀ d ∈ l.onTape m.output, d.writer = some i ∨ d.writer = none)
      (hnew : new.tape = some m.output → new.writer = some i ∨ new.writer = none) :
      ∀ d ∈ Ledger.onTape (l ++ [new]) m.output, d.writer = some i ∨ d.writer = none := by
    intro d hd
    rw [Ledger.onTape_snoc, List.mem_append] at hd
    rcases hd with hd | hd
    · exact ih d hd
    · split_ifs at hd with ht
      · rw [List.mem_singleton.1 hd]
        exact hnew ht
      · cases hd
  induction h with
  | done => simp [Ledger.onTape]
  | @execute net₁ l j n n' t history r hrec hn _ ih =>
    refine snoc ih fun ht => .inl ?_
    obtain ⟨m₁, hm₁, hw⟩ := hrec.machine hm
    by_contra hji
    have hij : i ≠ j := fun e => hji (congrArg some e.symm)
    have ho : n.output = m₁.output := (Option.some.inj ht).trans hw.output.symm
    exact outputs_ne (hrec.built hb).sound.apart hij hm₁ hn ho.symm
  | perform _ _ _ ih => exact snoc ih fun _ => .inr rfl

/-! ## Pipelines -/

theorem Course.records {es : List (Nat × History)} (h : net.Course es net') :
    ∃ l, net.Records l net' := by
  induction h with
  | done => exact ⟨[], .done⟩
  | execute _ hm hx ih =>
    obtain ⟨l, hl⟩ := ih
    exact ⟨_, .execute hl hm hx⟩
  | @feed net₁ es i words _ ih =>
    obtain ⟨l, hl⟩ := ih
    exact ⟨_, .perform hl (show (Operation.feed i words).words? net₁ = _ from rfl) rfl⟩
  | @write net₁ es t words _ ih =>
    obtain ⟨l, hl⟩ := ih
    exact ⟨_, .perform hl (show (Operation.write t words).words? net₁ = _ from rfl) rfl⟩

end Network

namespace Pipeline

open Network

variable {p q : Pipeline}

theorem lastOutput_eq_machine? (p : Pipeline) :
    p.lastOutput = (p.network.machine? (p.size - 1)).bind Machine.lastEmitted := by
  rw [lastOutput, List.getLast?_eq_getElem?]
  rfl

/-- In a pipeline of machines that have emitted nothing, the last output is the last word that the
last machine wrote itself. -/
theorem lastOutput_of_records {net : Network} {topology : Topology}
    (hp : ofNetwork net topology = .ok p) (hnew : ∀ m ∈ net.machines, m.lastEmitted = none)
    {l : Ledger} (hl : p.network.Records l q.network) (hsize : q.size = p.size) :
    q.lastOutput = (l.byMachine (q.size - 1)).words.getLast? := by
  have hlast : q.size - 1 = net.machines.length - 1 := by
    rw [hsize]
    exact congrArg (· - 1) (ofNetwork_keeps hp).size
  obtain ⟨hne, rfl⟩ := ofNetwork_eq_ok_iff.1 hp
  obtain ⟨m, hm⟩ : ∃ m, net.machines[net.machines.length - 1]? = some m :=
    ⟨_, by rw [← List.getLast?_eq_getElem?, List.getLast?_eq_some_getLast hne]⟩
  obtain ⟨s, hs⟩ := @machine_of_wire topology _ _ _ hm
  obtain ⟨m', hm', hw⟩ := hl.machine hs
  have hfresh : (m.wire s).lastEmitted = none := hnew m (List.mem_of_getElem? hm)
  have hemitted := hw.lastEmitted
  rw [hfresh, Option.or_none] at hemitted
  rw [lastOutput_eq_machine?, hlast, hm', Option.bind_some, hemitted]

/-- **Seeds are never reported as output.** Whatever is done to a network, the tape of a machine
holds what it held, and behind it what the machine wrote and what came from outside, in the order in
which it came. What the machine last emitted is the last word that it wrote itself, or what it was
if it wrote none. So the last output of a pipeline of machines that had emitted nothing is the last
word that the last machine wrote, whatever seeds stand behind it on the tape. -/
theorem last_output_is_own :
    (∀ net l net' i m, Network.Records net l net' → net.machine? i = some m →
      ∃ m', net'.machine? i = some m' ∧ m'.output = m.output ∧
        net'.tapes.values m.output =
          net.tapes.values m.output ++ (l.onTape m.output).words.toArray ∧
        (l.onTape m.output).byMachine i = l.byMachine i ∧
        (net.Built → ∀ d ∈ l.onTape m.output, d.writer = some i ∨ d.writer = none) ∧
        m'.lastEmitted = (l.byMachine i).words.getLast?.or m.lastEmitted) ∧
    ∀ net topology p cs q, ofNetwork net topology = .ok p →
      (∀ m ∈ net.machines, m.lastEmitted = none) → p.Calls cs q →
        (∃ l, p.network.Records l q.network) ∧
        ∀ l, p.network.Records l q.network →
          q.lastOutput = (l.byMachine (q.size - 1)).words.getLast? := by
  constructor
  · intro net l net' i m h hm
    obtain ⟨m', hm', hw⟩ := h.machine hm
    exact ⟨m', hm', hw.output, h.values m.output, hw.byMachine_onTape, fun hb => h.writer hb hm,
      hw.lastEmitted⟩
  · intro net topology p cs q hp hnew hc
    obtain ⟨es, hes⟩ := hc.course
    exact ⟨hes.records, fun l hl => lastOutput_of_records hp hnew hl hc.size⟩

/-- A ring of two machines, each of which adds one to the word that it reads. The seed for the first
one stands before the word that the last one writes, and a second seed stands behind it. -/
theorem last_output_is_own_ring :
    let program := Memory.ofWords #[3, 0, 101, 1, 0, 0, 4, 0, 99] 9
    ∃ p q l, create program 2 .ring = .ok p ∧ p.Calls [.seed 0 5, .run, .seed 0 9] q ∧
      p.network.Records l q.network ∧ q.network.tapes.values 1 = #[5, 7, 9] ∧
      (l.onTape 1).words = [5, 7, 9] ∧ q.lastOutput = some 7 ∧
      (l.byMachine 1).words.getLast? = some 7 := by
  have told {program : Memory} {p q : Pipeline} {cs : List Call} {m : Machine}
      (hp : create program 2 .ring = .ok p) (hq : p.Calls cs q) (hsize : q.size = 2)
      (hm : p.network.machine? 1 = some m) (ho : m.output = 1)
      (hv : p.network.tapes.values 1 = #[]) (hv' : q.network.tapes.values 1 = #[5, 7, 9])
      (hlast : q.lastOutput = some 7) :
      ∃ p q l, create program 2 .ring = .ok p ∧ p.Calls cs q ∧ p.network.Records l q.network ∧
        q.network.tapes.values 1 = #[5, 7, 9] ∧ (l.onTape 1).words = [5, 7, 9] ∧
        q.lastOutput = some 7 ∧ (l.byMachine 1).words.getLast? = some 7 := by
    have hnew : ∀ m ∈ (addCopies {} program 2).machines, m.lastEmitted = none := by
      simp [addCopies, add, Machine.start]
    obtain ⟨⟨l, hl⟩, hall⟩ := last_output_is_own.2 _ _ p cs q hp hnew hq
    obtain ⟨-, -, -, hvalues, -⟩ := last_output_is_own.1 _ l _ 1 m hl hm
    rw [ho, hv, hv', Array.empty_append] at hvalues
    have hown := hall l hl
    rw [hsize, hlast] at hown
    exact ⟨p, q, l, hp, hq, hl, hv', congrArg Array.toList hvalues.symm, hlast, hown.symm⟩
  have hcalls {a b c d : Pipeline} (h : a.after 4 (.seed 0 5) = some b)
      (h' : b.after 4 .run = some c) (h'' : c.after 4 (.seed 0 9) = some d) :
      a.Calls [.seed 0 5, .run, .seed 0 9] d :=
    .call h (.call h' (.call h'' .done))
  exact told rfl (hcalls rfl rfl rfl) rfl rfl rfl rfl rfl rfl

end Pipeline
end Intcode
