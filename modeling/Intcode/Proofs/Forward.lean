import Intcode.Proofs.Influence
import Intcode.Proofs.Resumption
import Intcode.Proofs.Verdicts

/-!
# Intcode.Proofs.Forward

Networks in which words flow one way only: no machine reads what it writes itself, or what a
machine behind it writes.

One pass is enough for such a network. The machines before one that is executed have come to rest
for good, so it finds all the input that it will ever have, and does with it what it would do by
itself.

* `Machine.Unused.solo` : what a new machine does with its input it does by itself as well.
* `Network.settled_of_passFrom` : each machine finds its final input, and nobody adds to its words.
* `Network.at_rest_of_passFrom_forward` : after one pass every machine is at rest.
* `Machine.Settled.solo` : a machine ends as one that is executed alone on its final input.
* `Pipeline.run_forward` : a run takes two passes at most, and all is done in the first.
-/

namespace Intcode

namespace Machine

/-- What comes of a machine that is given some words and executed by itself. -/
def solo (fuel : Nat) (memory : Memory) (words : List Word) :
    Option (Tapes × Machine × Except Error HaltReason) :=
  let (t, m) := (start memory 0).feed {} words
  execute fuel t m

theorem solo_eq (fuel : Nat) (memory : Memory) (words : Array Word) :
    solo fuel memory words.toList =
      execute fuel {} ((start memory 0).wire (.owned words)) := by
  rw [solo, feed_owned rfl, Array.empty_append]

/-- The machine has done nothing yet, wherever it reads and writes. -/
def Unused (m : Machine) : Prop :=
  m = { start m.memory 0 with source := m.source, output := m.output }

theorem Unused.alike {m : Machine} (h : m.Unused) (t : Tapes) :
    Alike t m {} ((start m.memory 0).wire (.owned (m.source.values t))) := by
  have hcursor : m.cursor = 0 := congrArg cursor h
  refine ⟨(congrArg pc h).symm, (congrArg relativeBase h).symm, (congrArg state h).symm,
    fun a => rfl, fun k => ?_⟩
  show (m.source.values t)[0 + k]? = (m.source.values t)[m.cursor + k]?
  rw [hcursor]

/-- A machine that has done nothing yet does with its input what it would do by itself. -/
theorem Unused.solo {fuel : Nat} {t t' : Tapes} {m m' : Machine} {r : Except Error HaltReason}
    (h : m.Unused) (hm : m.source ≠ .tape m.output)
    (hx : execute fuel t m = some (t', m', r)) :
    ∃ t₁ m₁, solo fuel m.memory (m.source.values t).toList = some (t₁, m₁, r) ∧
      m' = { m₁ with source := m.source, output := m.output } ∧
      t'.values m.output = t.values m.output ++ t₁.values m₁.output := by
  let n : Machine := (start m.memory 0).wire (.owned (m.source.values t))
  obtain ⟨history, t₁, m₁, hx₁, hd, hd₁, ha⟩ := (h.alike t).execute hm (by simp [wire]) hx
  have hd : Did t m history t' m' := hd
  have hstate : m'.state = m₁.state := ha.state.symm
  have hreplay : m.replay history =
      { n.replay history with source := m.source, output := m.output } := by
    rw [← replay_rehouse]
    exact congrArg (·.replay history) h
  have hemitted : t₁.values m₁.output = history.emitted.toArray := by
    rw [hd₁.output, hd₁.emitted]
    exact Array.empty_append ..
  refine ⟨t₁, m₁, (solo_eq ..).trans hx₁, ?_, by rw [hd.emitted, hemitted]⟩
  calc m' = { m.replay history with state := m'.state } := hd.machine
    _ = { { n.replay history with state := m₁.state } with
          source := m.source, output := m.output } := by rw [hreplay, hstate]
    _ = { m₁ with source := m.source, output := m.output } := by rw [← hd₁.machine]

/-- In a pass that began on the tapes `t` and ended on `t'`, the machine `m` was executed on the
tapes `s` and came to be `m'` on `s'`. It found its final input, it was the first to write to its
tape in this pass, and the last. -/
structure Settled (fuel : Nat) (t t' : Tapes) (m m' : Machine) (s s' : Tapes) : Prop where
  executed : execute fuel s m = some (s', m', .ok m'.restReason)
  input : m.source.values s = m.source.values t'
  first : s.values m.output = t.values m.output
  last : s'.values m.output = t'.values m.output

theorem AtRest.congr {t t' : Tapes} {m : Machine} (h : m.AtRest t)
    (hv : m.source.values t = m.source.values t') : m.AtRest t' := by
  obtain hs | ⟨word, modes, hc, hi, hu⟩ := h
  · exact .inl hs
  · refine .inr ⟨word, modes, hc, hi, ?_⟩
    rwa [unread?, Source.get?, ← hv]

theorem Settled.house {fuel : Nat} {t t' s s' : Tapes} {m m' : Machine}
    (h : Settled fuel t t' m m' s s') : m'.source = m.source ∧ m'.output = m.output := by
  obtain ⟨history, hd⟩ := exists_did h.executed
  exact ⟨hd.source, hd.output⟩

theorem Settled.at_rest {fuel : Nat} {t t' s s' : Tapes} {m m' : Machine}
    (h : Settled fuel t t' m m' s s') (hm : m.source ≠ .tape m.output) : m'.AtRest t' := by
  have hrest : m'.AtRest s' := at_rest_of_rests (rests_of_execute h.executed) rfl
  obtain ⟨history, hd⟩ := exists_did h.executed
  refine hrest.congr ?_
  rw [hd.source, hd.input hm, h.input]

/-- A machine that settled ends as one that is given its final input and executed by itself. -/
theorem Settled.solo {fuel : Nat} {t t' s s' : Tapes} {m m' : Machine}
    (h : Settled fuel t t' m m' s s') (hm : m.source ≠ .tape m.output) (hu : m.Unused) :
    ∃ t₁ m₁, solo fuel m.memory (m'.input t').toList = some (t₁, m₁, .ok m'.restReason) ∧
      m' = { m₁ with source := m'.source, output := m'.output } ∧
      t'.values m'.output = t.values m.output ++ t₁.values m₁.output := by
  obtain ⟨hsource, houtput⟩ := h.house
  obtain ⟨t₁, m₁, hsolo, hm₁, hvalues⟩ := hu.solo hm h.executed
  rw [Machine.input, hsource, houtput, ← h.input, ← h.last, ← h.first]
  exact ⟨t₁, m₁, hsolo, hm₁, hvalues⟩

end Machine

namespace Network

/-- Words flow one way only, and each machine has a tape of its own. -/
structure Forward (ms : List Machine) : Prop where
  self : ∀ m ∈ ms, m.source ≠ .tape m.output
  later : ms.Pairwise fun m n => m.source ≠ .tape n.output
  apart : ms.Pairwise fun m n => m.output ≠ n.output

/-- A pass writes to the tapes of the machines that it executes only. -/
theorem values_passFrom {fuel index : Nat} {t t' : Tapes} {ms ms' : List Machine}
    {r : Except Error (List HaltReason)} (h : passFrom fuel index t ms = some (t', ms', r))
    {i : TapeId} (hi : ∀ m ∈ ms, i ≠ m.output) : t'.values i = t.values i := by
  induction ms generalizing index t ms' r with
  | nil =>
    cases h
    rfl
  | cons m rest ih =>
    obtain ⟨hm, hrest⟩ := List.forall_mem_cons.1 hi
    obtain ⟨t₁, m₁, r₁, hx, ⟨e, -, rfl, -, -⟩ | ⟨reason, rest₁, reasons, -, hp, -, -⟩⟩ :=
      passFrom_cons h
    · obtain ⟨history, hd⟩ := Machine.exists_did hx
      exact hd.others hm
    · obtain ⟨history, hd⟩ := Machine.exists_did hx
      rw [ih hp hrest, hd.others hm]

theorem settled_of_passFrom {fuel index : Nat} {t t' : Tapes} {ms ms' : List Machine}
    {reasons : List HaltReason} (h : passFrom fuel index t ms = some (t', ms', .ok reasons))
    (hf : Forward ms) {i : Nat} {m : Machine} (hi : ms[i]? = some m) :
    ∃ m' s s', ms'[i]? = some m' ∧ Machine.Settled fuel t t' m m' s s' := by
  induction ms generalizing index t ms' reasons i with
  | nil => cases hi
  | cons n rest ih =>
    obtain ⟨t₁, n₁, reason, rest₁, reasons₁, hx, hp, rfl, rfl⟩ := passFrom_cons_ok h
    obtain ⟨hself, hrest⟩ := List.forall_mem_cons.1 hf.self
    obtain ⟨hlater, hlater'⟩ := List.pairwise_cons.1 hf.later
    obtain ⟨hapart, hapart'⟩ := List.pairwise_cons.1 hf.apart
    obtain ⟨history, hd⟩ := Machine.exists_did hx
    cases i with
    | zero =>
      cases hi
      refine ⟨n₁, t, t₁, rfl, ?_, ?_, rfl, ?_⟩
      · rw [hx, Machine.reason_of_rests (Machine.rests_of_execute hx) rfl]
      · rw [← hd.input hself]
        refine Source.values_congr fun j hj => (values_passFrom hp fun m hm => ?_).symm
        rintro rfl
        exact hlater m hm hj
      · exact (values_passFrom hp hapart).symm
    | succ i =>
      obtain ⟨m', s, s', hm', hs⟩ := ih hp ⟨hrest, hlater', hapart'⟩ hi
      have hne : m.output ≠ n.output := (hapart m (List.mem_of_getElem? hi)).symm
      exact ⟨m', s, s', hm', hs.executed, hs.input, hs.first.trans (hd.others hne), hs.last⟩

theorem at_rest_of_passFrom_forward {fuel index : Nat} {t t' : Tapes} {ms ms' : List Machine}
    {reasons : List HaltReason} (h : passFrom fuel index t ms = some (t', ms', .ok reasons))
    (hf : Forward ms) : ∀ m ∈ ms', m.AtRest t' := by
  intro m' hm'
  obtain ⟨i, hi⟩ := List.mem_iff_getElem?.1 hm'
  have hlen : ms'.length = ms.length := (passFrom_keeps h).size
  have hlt : i < ms.length := hlen ▸ (List.getElem?_eq_some_iff.1 hi).1
  obtain ⟨m₁, s, s', hm₁, hs⟩ := settled_of_passFrom h hf (List.getElem?_eq_getElem hlt)
  rw [hi] at hm₁
  cases hm₁
  exact hs.at_rest (hf.self _ (List.getElem_mem hlt))

end Network

namespace Pipeline

/-- **Where words flow one way only, all is done in the first pass.** If there is a second pass,
the machines are at rest before it, and it changes nothing. -/
theorem run_forward {fuel : Nat} {p q : Pipeline} {report : Report}
    (h : p.run fuel = some (q, .ok report)) (hf : Network.Forward p.network.machines) :
    p.network.pass fuel = some (q.network, .ok report.reasons) ∧ report.passes ≤ 2 := by
  have hr := (run_eq_some_iff.1 h).1
  obtain _ | limit := fuel
  · cases hr
  obtain ⟨e, -, hr⟩ | ⟨reasons, hp, hr, -⟩ | ⟨net, reasons, hp, -, -, hr⟩ := runFrom_succ hr
  · cases hr
  · cases hr
    exact ⟨hp, Nat.le_succ 1⟩
  · have hrest : net.AtRest :=
      Network.at_rest_of_passFrom_forward (Network.pass_eq_some_iff.1 hp) hf
    obtain _ | limit := limit
    · cases hr
    rw [runFrom_of_at_rest hrest] at hr
    cases hr
    exact ⟨by rw [hp, Network.reasons_of_pass hp]; rfl, Nat.le_refl 2⟩

end Pipeline
end Intcode
