import Intcode.Proofs.Seeds

/-!
# Intcode.Proofs.Allotment

Whom seeds reach, and which seeds are refused.

A word for a machine that reads a tape is written to that tape, so it stands behind another machine:
the words for the first machine of a ring stand on the tape of the last one, and if there is only
one machine, on its own.

* `Network.Served`         : a machine that has done nothing yet, and where its words are.
* `Pipeline.AllOrNothing`  : which seeds are refused, and that the others are given in full.
* `seeds_reach_one_reader` : what a new pipeline is after any seeds.
-/

namespace Intcode
namespace Network

section Serving

variable {memory : Memory} {count : Nat} {topology : Topology} {given : Nat → List Word}
  {net : Network}

/-- Machine `m` is machine `i` of a pipeline and as it was made, but for the words that it was
given. If there is a machine before it, they are all that is on the tape of that one. -/
structure Served (memory : Memory) (count : Nat) (topology : Topology) (net : Network) (i : Nat)
    (words : List Word) (m : Machine) : Prop where
  there : net.machine? i = some m
  asMade : m = (Machine.start memory i).wire m.source
  input : m.input net.tapes = words.toArray
  own : topology.before? count i = none → m.source = .owned words.toArray
  behind : ∀ j, topology.before? count i = some j → ∃ n, net.machine? j = some n ∧
    m.source = .tape n.output ∧ net.tapes.values n.output = words.toArray

theorem Allotted.served (h : net.Allotted memory count topology given) {i : Nat}
    (hi : i < count) : ∃ m, Served memory count topology net i (given i) m := by
  have hm := h.machine i hi
  refine ⟨_, hm, rfl, h.input hi hm, fun hb => Topology.sourceOf_none hb _, fun j hb => ?_⟩
  have hn := h.machine j (Topology.before?_lt hi hb)
  exact ⟨_, hn, Topology.sourceOf_some hb _, h.tape i hi j hb⟩

theorem Allotted.empty_of_unread (h : net.Allotted memory count topology given) {t : TapeId}
    (ht : ∀ m ∈ net.machines, m.source ≠ .tape t) : net.tapes.values t = #[] := by
  refine h.unread t fun i hi hb => ?_
  exact ht _ (List.mem_of_getElem? (h.machine i hi)) (Topology.sourceOf_some hb _)

end Serving
end Network

namespace Pipeline

variable {p : Pipeline}

/-- Gives words to the machines from `i` on, one each, until one of them is refused. What was given
before that stays given. -/
def seedInTurn (p : Pipeline) (i : Nat) : List Word → Pipeline × Option Error
  | [] => (p, none)
  | w :: rest =>
    match p.seed i w with
    | .ok q => q.seedInTurn (i + 1) rest
    | .error e => (p, some e)

theorem seedInTurn_eq {i : Nat} {words : List Word} (h : i + words.length ≤ p.size) :
    p.seedInTurn i words = ({ p with network := feedEach p.network i words }, none) := by
  induction words generalizing p i with
  | nil => rfl
  | cons w rest ih =>
    rw [List.length_cons] at h
    have hs : p.seed i w = .ok _ := seed_eq_ok_iff.2 ⟨by omega, rfl⟩
    have hsize : Pipeline.size _ = p.size := (seed_keeps hs).size
    rw [seedInTurn, hs]
    exact ih (by omega)

/-- A seed is refused if there is no such machine, and seeds for all machines if there are not as
many as machines; then nothing has changed. All other seeds are given, and of those for all machines
none is left out. -/
structure AllOrNothing (count : Nat) (p : Pipeline) : Prop where
  seed : ∀ i word, i < count → ∃ q, p.seed i word = .ok q
  seed_refused : ∀ i word, count ≤ i →
    ∃ e, p.seed i word = .error e ∧ e.kind = .invalidArgument ∧
      ∀ fuel, p.after fuel (.seed i word) = some p
  seedAll : ∀ words, words.length = count →
    ∃ q, p.seedAll words = .ok q ∧ p.seedInTurn 0 words = (q, none)
  seedAll_refused : ∀ words, words.length ≠ count →
    ∃ e, p.seedAll words = .error e ∧ e.kind = .invalidArgument ∧
      ∀ fuel, p.after fuel (.seedAll words) = some p

theorem allOrNothing (p : Pipeline) : p.AllOrNothing p.size := by
  constructor
  · intro i word hi
    exact ⟨_, seed_eq_ok_iff.2 ⟨hi, rfl⟩⟩
  · intro i word hi
    have hs : p.seed i word = .error _ := if_neg (Nat.not_lt_of_le hi)
    exact ⟨_, hs, rfl, fun fuel => by rw [after, hs]; rfl⟩
  · intro words hlen
    exact ⟨_, seedAll_eq_ok_iff.2 ⟨hlen, rfl⟩, seedInTurn_eq (by omega)⟩
  · intro words hlen
    have hs : p.seedAll words = .error _ := if_neg hlen
    exact ⟨_, hs, rfl, fun fuel => by rw [after, hs]; rfl⟩

/-- **A seed reaches one reader, and does nothing else.** Whatever seeds a new pipeline was given,
some of which may have been refused, it refuses only what does not fit it, and then nothing has
changed. Each machine reads the words it was given, in the order of the calls, and no others; they
are behind the machine before it, if there is one. Tapes that nobody reads are empty. -/
theorem seeds_reach_one_reader (memory : Memory) {count : Nat} (hcount : 0 < count)
    (topology : Topology) :
    ∃ p, create memory count topology = .ok p ∧
      ∀ cs q, (∀ c ∈ cs, c.Seeds) → p.Calls cs q →
        q.topology = topology ∧ q.size = count ∧ q.AllOrNothing count ∧
        (∀ i < count, ∃ m, Network.Served memory count topology q.network i
          (cs.flatMap (·.words count i)) m) ∧
        ∀ t, (∀ m ∈ q.network.machines, m.source ≠ .tape t) →
          q.network.tapes.values t = #[] := by
  obtain ⟨p, hp⟩ := exists_create memory hcount topology
  refine ⟨p, hp, fun cs q hcs hq => ?_⟩
  have hq' := (hq.seeded hcs).allotted hp
  rw [size_of_create hp] at hq'
  have hsize : q.size = count := hq'.size
  have htopology : q.topology = topology := hq.keeps.1.trans (topology_of_create hp)
  exact ⟨htopology, hsize, hsize ▸ q.allOrNothing, fun i hi => hq'.served hi,
    fun t ht => hq'.empty_of_unread ht⟩

/-- A ring of one machine, which is before itself: its seeds stand on the tape that it writes to.
Seeds for a second machine are refused, be it alone or with one for the first. -/
theorem seeds_reach_one_reader_self :
    let program := Memory.ofWords #[3, 0, 4, 0, 99] 5
    ∃ p q m, create program 1 .ring = .ok p ∧
      p.Calls [.seed 0 5, .seed 1 7, .seedAll [1, 2], .seedAll [8]] q ∧
      q.network.machine? 0 = some m ∧ m.source = .tape m.output ∧
      q.network.tapes.values m.output = #[5, 8] ∧ m.lastEmitted = none := by
  have told {program : Memory} {p q : Pipeline} {cs : List Call}
      (hp : create program 1 .ring = .ok p) (hcs : ∀ c ∈ cs, c.Seeds) (hq : p.Calls cs q)
      (hwords : cs.flatMap (·.words 1 0) = [5, 8]) :
      ∃ p q m, create program 1 .ring = .ok p ∧ p.Calls cs q ∧
        q.network.machine? 0 = some m ∧ m.source = .tape m.output ∧
        q.network.tapes.values m.output = #[5, 8] ∧ m.lastEmitted = none := by
    obtain ⟨p', hp', hcalls⟩ := seeds_reach_one_reader program (by decide : 0 < 1) .ring
    cases hp'.symm.trans hp
    obtain ⟨-, -, -, hserved, -⟩ := hcalls cs q hcs hq
    obtain ⟨m, hm⟩ := hserved 0 (by decide)
    obtain ⟨n, hn, hs, hv⟩ := hm.behind 0 rfl
    cases hm.there.symm.trans hn
    rw [hwords] at hv
    exact ⟨p, q, m, hp, hq, hn, hs, hv, by rw [hm.asMade]; rfl⟩
  have hcalls {a b c d e : Pipeline} (h : a.after 0 (.seed 0 5) = some b)
      (h₁ : b.after 0 (.seed 1 7) = some c) (h₂ : c.after 0 (.seedAll [1, 2]) = some d)
      (h₃ : d.after 0 (.seedAll [8]) = some e) :
      a.Calls [.seed 0 5, .seed 1 7, .seedAll [1, 2], .seedAll [8]] e :=
    .call h (.call h₁ (.call h₂ (.call h₃ .done)))
  exact told rfl (by simp [Call.Seeds]) (hcalls rfl rfl rfl rfl) rfl

end Pipeline
end Intcode
