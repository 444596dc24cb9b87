import Intcode.Proofs.Deliveries

/-!
# Intcode.Proofs.Wiring

How the machines of a pipeline are wired, and that they stay wired.

The machines need not be new. They may have run, they may have been taken out of another pipeline
and so still read tapes of machines that are now behind them, or not there at all; every link that
matters is made anew. Afterwards a machine reads the same source for ever. Only words of its own can
be added to it, and in a pipeline only the first machine of a chain has any.

* `Network.Hands`         : the machines have the sources and the tapes they had, and were given
  words.
* `Calls.hands`           : what calls do to the wires, whether they succeed or not.
* `Pipeline.Wired`        : who reads what whom writes.
* `ofNetwork_stays_wired` : machines become a pipeline that is wired and stays so.
-/

namespace Intcode

/-- The source after words are added to it. What is added to a tape is not a matter of its
reader. -/
def Source.given (s : Source) (words : List Word) : Source :=
  match s with
  | .owned held => .owned (held ++ words.toArray)
  | .tape id => .tape id

@[simp] theorem Source.given_nil (s : Source) : s.given [] = s := by
  cases s <;> simp [given]

@[simp] theorem Source.given_tape (id : TapeId) (words : List Word) :
    (Source.tape id).given words = .tape id := rfl

theorem Source.given_append (s : Source) (words more : List Word) :
    s.given (words ++ more) = (s.given words).given more := by
  cases s <;> simp [given]

/-- Where a machine reads and where it writes. -/
def Machine.ends (m : Machine) : Source × TapeId := (m.source, m.output)

theorem Machine.ends_of_execute {fuel : Nat} {t t' : Tapes} {m m' : Machine}
    {r : Except Error HaltReason} (h : m.execute fuel t = some (t', m', r)) :
    m'.ends = m.ends := by
  obtain ⟨history, hd⟩ := exists_did h
  exact congrArg₂ Prod.mk hd.source hd.output

namespace Network

def ends? (net : Network) (i : Nat) : Option (Source × TapeId) :=
  (net.machine? i).map Machine.ends

/-- Machine `i` reads and writes where it did, after it was given the words `words i`. -/
def Hands (net : Network) (words : Nat → List Word) (net' : Network) : Prop :=
  ∀ i, net'.ends? i = (net.ends? i).map fun e => (e.1.given (words i), e.2)

variable {net net' net₁ : Network}

theorem hands_of_ends (h : net'.machines.map Machine.ends = net.machines.map Machine.ends) :
    net.Hands (fun _ => []) net' := by
  intro i
  have hi : net'.ends? i = net.ends? i := by simpa [ends?, machine?] using congrArg (·[i]?) h
  simp [hi]

theorem Hands.refl (net : Network) : net.Hands (fun _ => []) net := hands_of_ends rfl

theorem Hands.trans {words more : Nat → List Word} (h : net.Hands words net₁)
    (h' : net₁.Hands more net') : net.Hands (fun i => words i ++ more i) net' := by
  intro i
  rw [h' i, h i, Option.map_map]
  simp [Function.comp_def, Source.given_append]

/-- A machine that was there is there still. -/
theorem Hands.get {words : Nat → List Word} (h : net.Hands words net') {i : Nat} {m' : Machine}
    (hm : net'.machine? i = some m') :
    ∃ m, net.machine? i = some m ∧ m'.source = m.source.given (words i) ∧
      m'.output = m.output := by
  have hi := h i
  rw [ends?, hm, ends?, Option.map_map] at hi
  obtain ⟨m, hm, he⟩ := Option.map_eq_some_iff.1 hi.symm
  obtain ⟨hs, ho⟩ := Prod.mk.inj he
  exact ⟨m, hm, hs.symm, ho.symm⟩

/-! ## Words that are given -/

theorem feed_hands (net : Network) (j : Nat) (words : List Word) :
    net.Hands (fun i => if i = j then words else []) (net.feed j words) := by
  intro i
  by_cases hij : i = j
  · subst hij
    simp only [ends?, if_true]
    cases hn : net.machine? i with
    | none => rw [feed_of_none hn, hn]; rfl
    | some n =>
      cases hs : n.source with
      | owned held =>
        rw [feed_of_owned hn hs, machine?_set hn]
        simp [Machine.ends, Machine.wire, hs, Source.given]
      | tape t =>
        rw [feed_of_tape hn hs]
        show (net.machine? i).map Machine.ends = _
        simp [hn, Machine.ends, hs]
  · have hother : (net.feed j words).machine? i = net.machine? i := by
      rw [feed]
      split
      · rfl
      · exact List.getElem?_set_ne (Ne.symm hij)
    have hends : (net.feed j words).ends? i = net.ends? i := congrArg (Option.map _) hother
    simp [hij, hends]

theorem feedEach_hands (net : Network) (start : Nat) (words : List Word) :
    net.Hands (fun i => if start ≤ i then words[i - start]?.toList else [])
      (Pipeline.feedEach net start words) := by
  induction words generalizing net start with
  | nil => simpa [Pipeline.feedEach] using Hands.refl net
  | cons w rest ih =>
    have h := (feed_hands net start [w]).trans (ih (net.feed start [w]) (start + 1))
    simpa only [Pipeline.feedEach, Pipeline.share_cons] using h

/-! ## Runs -/

theorem passFrom_ends {fuel index : Nat} {t t' : Tapes} {ms ms' : List Machine}
    {r : Except Error (List HaltReason)} (h : passFrom fuel index t ms = some (t', ms', r)) :
    ms'.map Machine.ends = ms.map Machine.ends := by
  induction ms generalizing index t ms' r with
  | nil =>
    cases h
    rfl
  | cons m rest ih =>
    obtain ⟨t₁, m₁, r₁, hx, ⟨e, -, rfl, rfl, -⟩ | ⟨reason, rest₁, reasons, -, hp, rfl, -⟩⟩ :=
      passFrom_cons h
    · simp [Machine.ends_of_execute hx]
    · simp [Machine.ends_of_execute hx, ih hp]

theorem pass_ends {fuel : Nat} {r : Except Error (List HaltReason)}
    (h : net.pass fuel = some (net', r)) :
    net'.machines.map Machine.ends = net.machines.map Machine.ends :=
  passFrom_ends (pass_eq_some_iff.1 h)

end Network

namespace Pipeline

open Network

theorem runFrom_ends {fuel passes limit : Nat} {net net' : Network} {r : Except Error Report}
    (h : runFrom fuel passes net limit = some (net', r)) :
    net'.machines.map Machine.ends = net.machines.map Machine.ends :=
  runFrom_of_passes (fun hab hbc => hbc.trans hab) pass_ends h

/-! ## Calls -/

variable {p q : Pipeline}

theorem after_hands {fuel : Nat} {c : Call} (h : p.after fuel c = some q) :
    p.network.Hands (fun i => c.words p.size i) q.network := by
  obtain ⟨rfl, hw⟩ | ⟨j, word, -, rfl, hw⟩ | ⟨words, -, rfl, hw⟩ | ⟨r, hr, -, hw⟩ := after_cases h
  · simpa only [hw] using Hands.refl q.network
  · simpa only [hw] using feed_hands p.network j [word]
  · simpa [hw] using feedEach_hands p.network 0 words
  · simpa only [hw] using hands_of_ends (runFrom_ends (run_eq_some_iff.1 hr).1)

theorem Calls.hands {cs : List Call} (h : p.Calls cs q) :
    p.network.Hands (fun i => cs.flatMap (·.words p.size i)) q.network := by
  induction h with
  | done => exact .refl _
  | @call p q₁ q fuel c cs ha _ ih =>
    have hsize : q₁.size = p.size := (after_keeps ha).2.size
    rw [hsize] at ih
    exact (after_hands ha).trans ih

/-! ## Wires -/

/-- Every machine reads what the one before it writes. The first one reads what the last one writes,
or, in a chain, the source `first`. -/
structure Wired (p : Pipeline) (first : Source) : Prop where
  next : ∀ i n m, p.network.machine? i = some n → p.network.machine? (i + 1) = some m →
    m.source = .tape n.output
  ring : p.topology = .ring → ∀ n m, p.network.machine? (p.size - 1) = some n →
    p.network.machine? 0 = some m → m.source = .tape n.output
  chain : p.topology = .chain → ∀ m, p.network.machine? 0 = some m → m.source = first

theorem Wired.hands {first : Source} {words : Nat → List Word} (h : p.Wired first)
    (ht : q.topology = p.topology) (hsize : q.size = p.size)
    (hh : p.network.Hands words q.network) : q.Wired (first.given (words 0)) := by
  refine ⟨fun i n' m' hn' hm' => ?_, fun hr n' m' hn' hm' => ?_, fun hc m' hm' => ?_⟩
  · obtain ⟨n, hn, -, ho⟩ := hh.get hn'
    obtain ⟨m, hm, hs, -⟩ := hh.get hm'
    rw [hs, h.next i n m hn hm, ho, Source.given_tape]
  · obtain ⟨n, hn, -, ho⟩ := hh.get hn'
    obtain ⟨m, hm, hs, -⟩ := hh.get hm'
    rw [hsize] at hn
    rw [hs, h.ring (ht ▸ hr) n m hn hm, ho, Source.given_tape]
  · obtain ⟨m, hm, hs, -⟩ := hh.get hm'
    rw [hs, h.chain (ht ▸ hc) m hm]

theorem output_of_wire {topology : Topology} {ms : List Machine} {i : Nat} {n : Machine}
    (h : (wire topology ms)[i]? = some n) : (ms.map Machine.output)[i]? = some n.output := by
  rw [← map_wire (f := Machine.output) (fun _ _ => rfl) topology, List.getElem?_map, h]
  rfl

theorem wired_wire (topology : Topology) (tapes : Tapes) (first : Machine)
    (rest : List Machine) :
    Wired { network := { tapes, machines := wire topology (first :: rest) }, topology }
      first.source := by
  have hlength : (wire topology (first :: rest)).length = (first :: rest).length := by
    simpa using congrArg List.length (map_wire (f := Machine.output) (fun _ _ => rfl) topology
      (first :: rest))
  constructor
  · intro i n m hn hm
    have hn : (wire topology (first :: rest))[i]? = some n := hn
    obtain ⟨o, ho, hs⟩ := source_of_wire (show (wire topology (first :: rest))[i + 1]? = _ from hm)
    rw [output_of_wire hn] at ho
    cases ho
    exact hs
  · rintro rfl n m hn hm
    have hn : (wire .ring (first :: rest))[(wire .ring (first :: rest)).length - 1]? = some n := hn
    obtain ⟨o, ho, hs⟩ := source_of_ring (show (wire .ring (first :: rest))[0]? = _ from hm)
    rw [← hlength, output_of_wire hn] at ho
    cases ho
    exact hs
  · rintro rfl m hm
    cases hm
    rfl

/-- To wire a machine changes nothing but its source. -/
theorem machine_of_wire {topology : Topology} {ms : List Machine} {i : Nat} {m : Machine}
    (h : ms[i]? = some m) : ∃ s, (wire topology ms)[i]? = some (m.wire s) := by
  have hi := congrArg (·[i]?)
    (map_wire (f := fun m => m.wire .empty) (fun _ _ => rfl) topology ms)
  simp only [List.getElem?_map, h, Option.map_some] at hi
  obtain ⟨m', hm', he⟩ := Option.map_eq_some_iff.1 hi
  exact ⟨m'.source, hm'.trans (congrArg some (congrArg (·.wire m'.source) he))⟩

/-- **Machines become a pipeline that is wired and stays so.** Whatever the machines have done and
wherever they read before, the sources are all that is changed; and whatever calls are made, the
sources stay, up to the words that are given to the first machine of a chain. -/
theorem ofNetwork_stays_wired (net : Network) (topology : Topology) :
    (net.machines = [] → ∃ e, ofNetwork net topology = .error e ∧ e.kind = .invalidArgument) ∧
    ∀ first rest, net.machines = first :: rest →
      ∃ p, ofNetwork net topology = .ok p ∧
        p.topology = topology ∧ p.size = net.size ∧ p.network.tapes = net.tapes ∧
        (∀ i m, net.machine? i = some m → ∃ s, p.network.machine? i = some (m.wire s)) ∧
        p.Wired first.source ∧
        ∀ cs q, p.Calls cs q →
          q.topology = topology ∧ q.size = net.size ∧ q.network.outputs = net.outputs ∧
            q.Wired (first.source.given (cs.flatMap (·.words net.size 0))) := by
  constructor
  · intro hnil
    rw [ofNetwork, hnil]
    exact ⟨_, rfl, rfl⟩
  · intro first rest hms
    have hne : net.machines ≠ [] := by simp [hms]
    have hp : ofNetwork net topology = .ok _ := ofNetwork_eq_ok_iff.2 ⟨hne, rfl⟩
    have hkeeps := ofNetwork_keeps hp
    have hwired := wired_wire topology net.tapes first rest
    rw [← hms] at hwired
    refine ⟨_, hp, rfl, hkeeps.size, rfl, fun i m hm => machine_of_wire hm, hwired,
      fun cs q hq => ?_⟩
    obtain ⟨ht, hk⟩ := hq.keeps
    have hfirst := hwired.hands ht hk.size hq.hands
    have hsize : Pipeline.size _ = net.size := hkeeps.size
    rw [hsize] at hfirst
    exact ⟨ht, hk.size.trans hkeeps.size, hk.outputs.trans hkeeps.outputs, hfirst⟩

/-- Two machines run in a ring, are taken out, and become a chain in the other order. The first one
still reads what is now the tape of the second; a seed for a third machine is refused. -/
theorem ofNetwork_stays_wired_reversed :
    let program := Memory.ofWords #[3, 0, 4, 0, 99] 5
    ∃ a b p q, create program 2 .ring = .ok a ∧ a.Calls [.seed 0 5, .run] b ∧
      ofNetwork b.network.reverse .chain = .ok p ∧
      p.Calls [.seed 2 9, .seedAll [1, 2], .runToHalt] q ∧
      q.topology = .chain ∧ q.size = 2 ∧ q.Wired (.tape 0) := by
  have told {a b p q : Pipeline} {program : Memory} {first : Machine} {rest : List Machine}
      {cs : List Call} (ha : create program 2 .ring = .ok a) (hb : a.Calls [.seed 0 5, .run] b)
      (hms : b.network.reverse.machines = first :: rest) (hsize : b.network.reverse.size = 2)
      (hfirst : first.source = .tape 0) (hp : ofNetwork b.network.reverse .chain = .ok p)
      (hq : p.Calls cs q) :
      ∃ a b p q, create program 2 .ring = .ok a ∧ a.Calls [.seed 0 5, .run] b ∧
        ofNetwork b.network.reverse .chain = .ok p ∧ p.Calls cs q ∧
        q.topology = .chain ∧ q.size = 2 ∧ q.Wired (.tape 0) := by
    obtain ⟨p', hp', -, -, -, -, -, hcalls⟩ :=
      (ofNetwork_stays_wired b.network.reverse .chain).2 first rest hms
    cases hp'.symm.trans hp
    obtain ⟨ht, hs, -, hw⟩ := hcalls cs q hq
    rw [hfirst, Source.given_tape] at hw
    exact ⟨a, b, p, q, ha, hb, hp, hq, ht, hs.trans hsize, hw⟩
  have hrun {a b c : Pipeline} (h : a.after 4 (.seed 0 5) = some b) (h' : b.after 4 .run = some c) :
      a.Calls [.seed 0 5, .run] c :=
    .call h (.call h' .done)
  have hcalls {a b c d : Pipeline} (h : a.after 4 (.seed 2 9) = some b)
      (h' : b.after 4 (.seedAll [1, 2]) = some c) (h'' : c.after 4 .runToHalt = some d) :
      a.Calls [.seed 2 9, .seedAll [1, 2], .runToHalt] d :=
    .call h (.call h' (.call h'' .done))
  exact told rfl (hrun rfl rfl) rfl rfl rfl rfl (hcalls rfl rfl rfl)

end Pipeline
end Intcode
