import Intcode.Proofs.Chains
import Intcode.Proofs.Determinacy
import Intcode.Proofs.Effects

/-!
# Intcode.Proofs.Piecemeal

A chain that is fed piece by piece, with a run after each piece.

The first machine of a chain reads words of its own. Every move of the network can be made just so
when that machine has more of them, so all the pieces can be thought of as given before the first
run. Moves are confluent, so it does not matter that the runs in between stopped where they did.

* `Network.moves_feed_first` : moves are made just so when the first machine has more to read.
* `Piecemeal.moves`          : fed piecemeal, a chain makes moves that it could make at once.
* `fed_piecemeal`            : piece by piece and all at once, a chain ends in the same way.
-/

namespace Intcode

open Relation

theorem Machine.Moves.owned_more {t t' : Tapes} {m m' : Machine} {held : Array Word}
    (h : m.Moves t t' m') (hs : m.source = .owned held) (more : Array Word) :
    m'.source = .owned held ∧
      (m.wire (.owned (held ++ more))).Moves t t' (m'.wire (.owned (held ++ more))) := by
  cases h with
  | inl ht =>
    obtain ⟨hs', ht'⟩ := turn_completed_more hs more ht
    exact ⟨hs', .inl ht'⟩
  | inr h =>
    obtain ⟨hh, ht⟩ := h
    obtain ⟨-, -, -, hr⟩ | ⟨hp, rfl, rfl, -⟩ | ⟨fault, -, -, -, hr⟩ := turn_rested_iff.1 ht
    · cases hr
    · have hmore := MoreToRead.owned (t := t') hs more
      have hp' := hmore.plan (by rw [hp]; simp)
      rw [hp] at hp'
      exact ⟨hs, .inr ⟨hh, turn_rested_iff.2 (.inr (.inl ⟨hp', rfl, rfl, rfl⟩))⟩⟩
    · cases hr

namespace Network

/-- The first machine reads words of its own. -/
def FirstOwns (net : Network) (held : Array Word) : Prop :=
  ∃ m rest, net.machines = m :: rest ∧ m.source = .owned held

theorem feed_first (t : Tapes) {m : Machine} {held : Array Word} (hs : m.source = .owned held)
    (rest : List Machine) (words : List Word) :
    feed { tapes := t, machines := m :: rest } 0 words =
      { tapes := t, machines := m.wire (.owned (held ++ words.toArray)) :: rest } :=
  feed_of_owned rfl hs words

theorem FirstOwns.feed {net : Network} {held : Array Word} (h : net.FirstOwns held)
    (words : List Word) : (net.feed 0 words).FirstOwns (held ++ words.toArray) := by
  obtain ⟨t, machines⟩ := net
  obtain ⟨m, rest, rfl, hs⟩ := h
  rw [feed_first t hs]
  exact ⟨_, rest, rfl, rfl⟩

theorem FirstOwns.feed_nil {net : Network} {held : Array Word} (h : net.FirstOwns held) :
    net.feed 0 [] = net := by
  obtain ⟨t, machines⟩ := net
  obtain ⟨m, rest, rfl, hs⟩ := h
  rw [feed_first t hs, Array.append_empty, ← hs]
  rfl

theorem FirstOwns.feed_append {net : Network} {held : Array Word} (h : net.FirstOwns held)
    (words more : List Word) : (net.feed 0 words).feed 0 more = net.feed 0 (words ++ more) := by
  obtain ⟨t, machines⟩ := net
  obtain ⟨m, rest, rfl, hs⟩ := h
  have hs' : (m.wire (.owned (held ++ words.toArray))).source = .owned (held ++ words.toArray) :=
    rfl
  rw [feed_first t hs, feed_first t hs, feed_first t hs', ← List.append_toArray,
    ← Array.append_assoc]
  rfl

theorem Moves.feed_first {a b : Network} {held : Array Word} (h : a.Moves b)
    (ho : a.FirstOwns held) (words : List Word) :
    b.FirstOwns held ∧ (a.feed 0 words).Moves (b.feed 0 words) := by
  obtain ⟨t, machines⟩ := a
  obtain ⟨m, rest, rfl, hs⟩ := ho
  obtain ⟨i, n, t', n', hn, hv, rfl⟩ := h
  rw [Network.feed_first t hs]
  cases i with
  | zero =>
    cases hn
    obtain ⟨hs', hv'⟩ := hv.owned_more hs words.toArray
    refine ⟨⟨n', rest, rfl, hs'⟩, ?_⟩
    rw [List.set_cons_zero, Network.feed_first t' hs']
    exact ⟨0, _, t', _, rfl, hv', rfl⟩
  | succ i =>
    refine ⟨⟨m, rest.set i n', rfl, hs⟩, ?_⟩
    rw [List.set_cons_succ, Network.feed_first t' hs]
    exact ⟨i + 1, n, t', n', hn, hv, rfl⟩

/-- Moves are made just so when the first machine has more words of its own. -/
theorem moves_feed_first {a b : Network} {held : Array Word} (h : ReflTransGen SoundMoves a b)
    (ho : a.FirstOwns held) (words : List Word) :
    b.FirstOwns held ∧ ReflTransGen SoundMoves (a.feed 0 words) (b.feed 0 words) := by
  induction h with
  | refl => exact ⟨ho, .refl⟩
  | tail _ hv ih =>
    obtain ⟨hob, hmoves⟩ := ih
    obtain ⟨hoc, hstep⟩ := hv.2.feed_first hob words
    have hd := hv.1
    rw [← (feed_keeps _ 0 words).outputs] at hd
    exact ⟨hoc, hmoves.tail ⟨hd, hstep⟩⟩

end Network

namespace Pipeline

/-- The pipeline with words added, one after the other, to what machine `i` reads. -/
def seedMany (p : Pipeline) (i : Nat) (words : List Word) : Except Error Pipeline :=
  words.foldlM (fun p w => p.seed i w) p

/-- The first machine is given each chunk in turn, with a run after it. No run comes to a fault;
`report` is the report of the last one. -/
inductive Piecemeal : Pipeline → List (List Word) → Pipeline → Report → Prop where
  | last {p p' q : Pipeline} {chunk : List Word} {fuel : Nat} {report : Report} :
      p.seedMany 0 chunk = .ok p' → p'.run fuel = some (q, .ok report) →
      Piecemeal p [chunk] q report
  | more {p p' q r : Pipeline} {chunk : List Word} {chunks : List (List Word)} {fuel : Nat}
      {report report' : Report} :
      p.seedMany 0 chunk = .ok p' → p'.run fuel = some (q, .ok report) →
      Piecemeal q chunks r report' → Piecemeal p (chunk :: chunks) r report'

theorem seedMany_first {p : Pipeline} {held : Array Word} (h : p.network.FirstOwns held)
    (words : List Word) :
    p.seedMany 0 words = .ok { p with network := p.network.feed 0 words } := by
  induction words generalizing p held with
  | nil =>
    rw [h.feed_nil]
    rfl
  | cons w rest ih =>
    have hsize : 0 < p.size := by
      obtain ⟨m, ms, hms, -⟩ := h
      simp [Pipeline.size, Network.size, hms]
    have hseed : p.seed 0 w = .ok { p with network := p.network.feed 0 [w] } :=
      seed_eq_ok_iff.2 ⟨hsize, rfl⟩
    have hrest := ih (p := { p with network := p.network.feed 0 [w] }) (h.feed [w])
    rw [h.feed_append] at hrest
    rw [seedMany, List.foldlM_cons, hseed]
    exact hrest

/-- What a run does is made of moves, and what it reports is to be seen of the machines. -/
theorem moves_of_run {fuel : Nat} {p q : Pipeline} {report : Report}
    (h : p.run fuel = some (q, .ok report)) (hd : p.network.outputs.Nodup) :
    ReflTransGen Network.SoundMoves p.network q.network ∧ q.network.AtRest ∧
      q.topology = p.topology ∧
      ∃ n, report = .ofReasons n (q.network.machines.map Machine.restReason) := by
  obtain ⟨⟨is, hs⟩, hrest⟩ := run_at_rest h
  obtain ⟨hr, ht⟩ := run_eq_some_iff.1 h
  exact ⟨hs.moves hd, hrest, ht, report_of_runFrom hr⟩

/-- Fed piecemeal, a pipeline makes moves that it could make with all the words at once. -/
theorem Piecemeal.moves {p q : Pipeline} {chunks : List (List Word)} {report : Report}
    {held : Array Word} (h : p.Piecemeal chunks q report) (ho : p.network.FirstOwns held)
    (hd : p.network.outputs.Nodup) :
    ReflTransGen Network.SoundMoves (p.network.feed 0 chunks.flatten) q.network ∧
      q.network.AtRest ∧ q.topology = p.topology ∧
      ∃ n, report = .ofReasons n (q.network.machines.map Machine.restReason) := by
  have hfed (words : List Word) {net : Network} (hd : net.outputs.Nodup) :
      (net.feed 0 words).outputs.Nodup := by
    rwa [(Network.feed_keeps net 0 words).outputs]
  induction h generalizing held with
  | @last p p' q chunk fuel report hs hr =>
    rw [seedMany_first ho] at hs
    cases hs
    have hchunk : [chunk].flatten = chunk := by simp
    rw [hchunk]
    exact moves_of_run hr (hfed chunk hd)
  | @more p p' q r chunk chunks fuel report report' hs hr _ ih =>
    rw [seedMany_first ho] at hs
    cases hs
    obtain ⟨hmoves, -, ht, -⟩ := moves_of_run hr (hfed chunk hd)
    -- The words of the later chunks could have been there during this run.
    obtain ⟨hoq, hmoves'⟩ := Network.moves_feed_first hmoves (ho.feed chunk) chunks.flatten
    have hdq : q.network.outputs.Nodup := by
      rw [(runFrom_keeps (run_eq_some_iff.1 hr).1).outputs]
      exact hfed chunk hd
    obtain ⟨hlater, hrest, ht', hreport⟩ := ih hoq hdq
    rw [ho.feed_append] at hmoves'
    exact ⟨hmoves'.trans hlater, hrest, ht'.trans ht, hreport⟩

theorem Seeded.first_owns {memory : Memory} {count : Nat} {p q : Pipeline}
    {given : Nat → List Word} (hp : create memory count .chain = .ok p) (h : p.Seeded q given) :
    q.network.FirstOwns (given 0).toArray := by
  have hallotted := h.allotted hp
  have hcount : 0 < count := by
    cases count with
    | zero => cases hp
    | succ count => exact Nat.succ_pos count
  have hm := hallotted.machine 0 hcount
  rw [Network.machine?] at hm
  cases hms : q.network.machines with
  | nil => simp [hms] at hm
  | cons m rest =>
    rw [hms] at hm
    cases hm
    exact ⟨_, rest, hms, rfl⟩

/-- **A chain can be fed piecemeal.** A chain whose first machine is given chunk after chunk, with
a run after each, ends as one that is given all the chunks before one run: with the same machines
and tapes, and with the same verdict. -/
theorem fed_piecemeal {memory : Memory} {count : Nat} {p q r : Pipeline}
    {given : Nat → List Word} {chunks : List (List Word)} {report : Report}
    (hp : create memory count .chain = .ok p) (hs : p.Seeded q given)
    (hc : q.Piecemeal chunks r report) :
    ∃ whole, q.seedMany 0 chunks.flatten = .ok whole ∧
      ∀ fuel s report', whole.run fuel = some (s, .ok report') →
        s = r ∧ report'.reasons = report.reasons ∧ report'.outcome = report.outcome := by
  have ho := hs.first_owns hp
  have hd : q.network.outputs.Nodup := by
    obtain ⟨cs, hcs, -⟩ := hs
    exact (hcs.made (made_of_create hp)).sound.apart
  refine ⟨_, seedMany_first ho chunks.flatten, fun fuel s report' hr => ?_⟩
  have hd' : (q.network.feed 0 chunks.flatten).outputs.Nodup := by
    rwa [(Network.feed_keeps q.network 0 chunks.flatten).outputs]
  obtain ⟨hmoves, hrest, ht, n, rfl⟩ := hc.moves ho hd
  obtain ⟨hmoves', hrest', ht', n', rfl⟩ := moves_of_run hr hd'
  have hnet : s.network = r.network := Network.at_rest_of_moves_unique hmoves hrest hmoves' hrest'
  have hsr : s = r := by
    obtain ⟨net, topology⟩ := s
    obtain ⟨net', topology'⟩ := r
    cases hnet
    cases ht.trans ht'.symm
    rfl
  subst hsr
  exact ⟨rfl, rfl, rfl⟩

/-- Two machines, each of which emits the sum of the two words that it reads. The second one has a
seed; the first one gets its words one at a time, and both wait after the first of them. -/
theorem fed_piecemeal_two :
    let program := Memory.ofWords #[3, 0, 3, 1, 1, 0, 1, 0, 4, 0, 99] 11
    let done (a b sum : Word) (source : Source) (output : TapeId) : Machine := {
      memory := ((program.set 0 a).set 1 b).set 0 sum, source, cursor := 2, output
      lastEmitted := some sum, pc := 10, state := .halted, steps := 4 }
    let r : Pipeline := {
      network := {
        tapes := ⟨#[#[7, 6], #[13]]⟩
        machines := [done 5 1 6 (.owned #[5, 1]) 0, done 7 6 13 (.tape 0) 1] }
      topology := .chain }
    ∃ p q given report whole, create program 2 .chain = .ok p ∧ p.Seeded q given ∧
      q.Piecemeal [[5], [1]] r report ∧ q.seedMany 0 [5, 1] = .ok whole ∧
      ∃ s report', whole.run 5 = some (s, .ok report') ∧
        s = r ∧ report'.reasons = report.reasons ∧ report'.outcome = report.outcome := by
  have told {memory : Memory} {p q r whole s : Pipeline} {given : Nat → List Word}
      {report report' : Report} (hp : create memory 2 .chain = .ok p) (hs : p.Seeded q given)
      (hc : q.Piecemeal [[5], [1]] r report) (hw : q.seedMany 0 [5, 1] = .ok whole)
      (hr : whole.run 5 = some (s, .ok report')) :
      ∃ p q given report whole, create memory 2 .chain = .ok p ∧ p.Seeded q given ∧
        q.Piecemeal [[5], [1]] r report ∧ q.seedMany 0 [5, 1] = .ok whole ∧
        ∃ s report', whole.run 5 = some (s, .ok report') ∧
          s = r ∧ report'.reasons = report.reasons ∧ report'.outcome = report.outcome := by
    obtain ⟨whole', hw', hsame⟩ := fed_piecemeal hp hs hc
    rw [List.flatten_cons, List.flatten_cons, List.flatten_nil] at hw'
    cases hw.symm.trans hw'
    exact ⟨p, q, given, report, whole, hp, hs, hc, hw, s, report', hr, hsame 5 s report' hr⟩
  have hseeded {p q : Pipeline} (h : p.seed 1 7 = .ok q) :=
    Calls.seeded (.seed h .done) (by simp [Call.Seeds])
  have hpieces {p p₁ p₂ p₃ r : Pipeline} {report report' : Report}
      (h₁ : p.seedMany 0 [5] = .ok p₁) (h₂ : p₁.run 4 = some (p₂, .ok report'))
      (h₃ : p₂.seedMany 0 [1] = .ok p₃) (h₄ : p₃.run 4 = some (r, .ok report)) :
      p.Piecemeal [[5], [1]] r report := .more h₁ h₂ (.last h₃ h₄)
  exact told rfl (hseeded rfl) (hpieces rfl rfl rfl rfl) rfl rfl

end Pipeline
end Intcode
