import Intcode.Proofs.Forward
import Intcode.Proofs.Wiring

/-!
# Intcode.Proofs.Seeds

New pipelines that were seeded, but not run yet.

Each machine is as it was made and writes to the tape that has its number. A word for a machine that
reads a tape is written to that tape, so it stands behind another machine; only the first machine of
a chain has words of its own. No tape is read by two machines of a pipeline, and so a word has one
reader only.

* `Topology.before?`         : the machine whose tape a machine reads.
* `Network.Allotted`         : machines that have done nothing yet, and what each was given.
* `Pipeline.Seeded.allotted` : seeds give words and do nothing else.
* `Network.Allotted.forward` : in a chain words flow one way only.
-/

namespace Intcode

/-! ## The machine before a machine -/

namespace Topology

variable {topology : Topology} {count i j k : Nat}

/-- The machine whose tape machine `i` of a pipeline reads, if it reads a tape. -/
def before? (topology : Topology) (count : Nat) : Nat → Option Nat
  | i + 1 => some i
  | 0 =>
    match topology with
    | .chain => none
    | .ring => some (count - 1)

theorem before?_eq_some_iff :
    topology.before? count i = some j ↔
      i = j + 1 ∨ i = 0 ∧ topology = .ring ∧ j = count - 1 := by
  cases i with
  | succ i => simp [before?]
  | zero => cases topology <;> simp [before?, eq_comm]

theorem before?_lt (hi : i < count) (h : topology.before? count i = some j) : j < count := by
  rcases before?_eq_some_iff.1 h with rfl | ⟨-, -, rfl⟩ <;> omega

/-- No machine is before two others. -/
theorem before?_inj (hi : i < count) (hj : j < count) (h : topology.before? count i = some k)
    (h' : topology.before? count j = some k) : i = j := by
  rcases before?_eq_some_iff.1 h with h | ⟨h, -, hk⟩ <;>
    rcases before?_eq_some_iff.1 h' with h' | ⟨h', -, hk'⟩ <;> omega

/-- Where machine `i` of a pipeline reads, if it was given `words`. -/
def sourceOf (topology : Topology) (count i : Nat) (words : List Word) : Source :=
  match topology.before? count i with
  | some j => .tape j
  | none => .owned words.toArray

theorem sourceOf_some (h : topology.before? count i = some j) (words : List Word) :
    topology.sourceOf count i words = .tape j := by
  rw [sourceOf, h]

theorem sourceOf_none (h : topology.before? count i = none) (words : List Word) :
    topology.sourceOf count i words = .owned words.toArray := by
  rw [sourceOf, h]

end Topology

/-! ## Pipelines as they are made -/

namespace Network

theorem machines_addCopies (net : Network) (memory : Memory) (count : Nat) :
    (net.addCopies memory count).machines =
      net.machines ++ (List.range' net.tapes.fresh count).map (Machine.start memory) := by
  induction count generalizing net with
  | zero => simp [addCopies]
  | succ count ih => simp [addCopies, ih, add, List.range'_succ]

theorem machine?_addCopies (memory : Memory) {count i : Nat} (hi : i < count) :
    (addCopies {} memory count).machine? i = some (Machine.start memory i) := by
  have hms : (addCopies {} memory count).machines =
      (List.range' 0 count).map (Machine.start memory) := machines_addCopies {} memory count
  simp [machine?, hms, hi]

theorem values_addCopies (net : Network) (memory : Memory) (count : Nat) (i : TapeId) :
    (net.addCopies memory count).tapes.values i = net.tapes.values i := by
  induction count generalizing net with
  | zero => rfl
  | succ count ih =>
    rw [addCopies, ih, add, Tapes.values_create]
    split
    · next hi => rw [← hi, Tapes.values_fresh]
    · rfl

end Network

namespace Pipeline

theorem size_of_create {memory : Memory} {count : Nat} {topology : Topology} {p : Pipeline}
    (h : create memory count topology = .ok p) : p.size = count := by
  refine (ofNetwork_keeps h).size.trans ?_
  simp [Network.size, Network.machines_addCopies]

theorem topology_of_create {memory : Memory} {count : Nat} {topology : Topology} {p : Pipeline}
    (h : create memory count topology = .ok p) : p.topology = topology := by
  obtain ⟨-, rfl⟩ := ofNetwork_eq_ok_iff.1 h
  rfl

theorem exists_create (memory : Memory) {count : Nat} (hcount : 0 < count) (topology : Topology) :
    ∃ p, create memory count topology = .ok p := by
  have hne : (Network.addCopies {} memory count).machines ≠ [] := by
    have hpos : count ≠ 0 := Nat.ne_of_gt hcount
    simp [Network.machines_addCopies, hpos]
  exact ⟨_, ofNetwork_eq_ok_iff.2 ⟨hne, rfl⟩⟩

end Pipeline

/-! ## What machines were given -/

namespace Network

/-- Machines of a pipeline that have done nothing yet, each of which was given some words. What a
machine was given is on the tape of the machine before it, or else is its own. -/
structure Allotted (memory : Memory) (count : Nat) (topology : Topology)
    (given : Nat → List Word) (net : Network) : Prop where
  size : net.size = count
  machine : ∀ i < count, net.machine? i =
    some ((Machine.start memory i).wire (topology.sourceOf count i (given i)))
  tape : ∀ i < count, ∀ j, topology.before? count i = some j →
    net.tapes.values j = (given i).toArray
  unread : ∀ t, (∀ i < count, topology.before? count i ≠ some t) → net.tapes.values t = #[]
  missing : ∀ i, count ≤ i → given i = []

section Giving

variable {memory : Memory} {count : Nat} {topology : Topology} {given : Nat → List Word}
  {net : Network}

theorem Allotted.missing_feed (h : net.Allotted memory count topology given) {j : Nat}
    (hj : j < count) (words : List Word) (i : Nat) (hi : count ≤ i) :
    (given i ++ if i = j then words else []) = [] := by
  have hij : i ≠ j := by omega
  simp [h.missing i hi, hij]

theorem Allotted.feed_owned (h : net.Allotted memory count topology given) {j : Nat}
    (hj : j < count) (hb : topology.before? count j = none) (words : List Word) :
    (net.feed j words).Allotted memory count topology
      fun i => given i ++ if i = j then words else [] := by
  have hm := h.machine j hj
  rw [Topology.sourceOf_none hb] at hm
  refine ⟨(feed_keeps net j words).size.trans h.size, fun i hi => ?_, fun i hi k hk => ?_, ?_,
    h.missing_feed hj words⟩
  · rw [feed_of_owned hm rfl]
    by_cases hij : i = j
    · subst hij
      simp [machine?_set hm, Topology.sourceOf_none hb, Machine.wire]
    · simpa [machine?, List.getElem?_set_ne (Ne.symm hij), hij] using h.machine i hi
  · have hij : i ≠ j := by
      rintro rfl
      cases hb.symm.trans hk
    simpa [feed_of_owned hm rfl, hij] using h.tape i hi k hk
  · rw [feed_of_owned hm rfl]
    exact h.unread

theorem Allotted.feed_tape (h : net.Allotted memory count topology given) {j k : Nat}
    (hj : j < count) (hb : topology.before? count j = some k) (words : List Word) :
    (net.feed j words).Allotted memory count topology
      fun i => given i ++ if i = j then words else [] := by
  have hm := h.machine j hj
  rw [Topology.sourceOf_some hb] at hm
  rw [feed_of_tape hm rfl]
  refine ⟨h.size, fun i hi => ?_, fun i hi t ht => ?_, fun t ht => ?_, h.missing_feed hj words⟩
  · by_cases hij : i = j
    · subst hij
      rw [Topology.sourceOf_some hb]
      exact hm
    · simpa [write, machine?, hij] using h.machine i hi
  · show (net.tapes.extend k words).values t = _
    rw [Tapes.values_extend]
    by_cases hij : i = j
    · subst hij
      cases hb.symm.trans ht
      simp [h.tape i hi k hb]
    · -- Machine `i` reads another tape than the one that was written to.
      have hkt : k ≠ t := by
        rintro rfl
        exact hij (Topology.before?_inj hi hj ht hb)
      simp [hkt, hij, h.tape i hi t ht]
  · show (net.tapes.extend k words).values t = _
    have hkt : k ≠ t := by
      rintro rfl
      exact ht j hj hb
    rw [Tapes.values_extend, if_neg hkt, h.unread t ht]

/-- To give words to a machine takes nothing from the others, and gives them nothing. -/
theorem Allotted.feed (h : net.Allotted memory count topology given) {j : Nat} (hj : j < count)
    (words : List Word) :
    (net.feed j words).Allotted memory count topology
      fun i => given i ++ if i = j then words else [] := by
  cases hb : topology.before? count j with
  | none => exact h.feed_owned hj hb words
  | some k => exact h.feed_tape hj hb words

theorem Allotted.feedEach {words : List Word} {start : Nat}
    (h : net.Allotted memory count topology given) (hle : start + words.length ≤ count) :
    (Pipeline.feedEach net start words).Allotted memory count topology
      fun i => given i ++ if start ≤ i then words[i - start]?.toList else [] := by
  induction words generalizing net given start with
  | nil => simpa [Pipeline.feedEach] using h
  | cons w rest ih =>
    rw [List.length_cons] at hle
    have hstart : start < count := by omega
    have hrest : start + 1 + rest.length ≤ count := by omega
    have hfed := ih (h.feed hstart [w]) hrest
    simpa only [Pipeline.feedEach, Pipeline.share_cons, List.append_assoc] using hfed

/-- The words that a machine reads are those that it was given. -/
theorem Allotted.input (h : net.Allotted memory count topology given) {i : Nat} (hi : i < count)
    {m : Machine} (hm : net.machine? i = some m) : m.input net.tapes = (given i).toArray := by
  cases (h.machine i hi).symm.trans hm
  cases hb : topology.before? count i with
  | none =>
    rw [Machine.input, Machine.wire, Topology.sourceOf_none hb]
    rfl
  | some j =>
    rw [Machine.input, Machine.wire, Topology.sourceOf_some hb]
    exact h.tape i hi j hb

end Giving
end Network

namespace Pipeline

variable {p q : Pipeline}

theorem Wired.source_of_some {first : Source} (h : p.Wired first) {i j : Nat}
    (hb : p.topology.before? p.size i = some j) {n m : Machine}
    (hn : p.network.machine? j = some n) (hm : p.network.machine? i = some m) :
    m.source = .tape n.output := by
  rcases Topology.before?_eq_some_iff.1 hb with rfl | ⟨rfl, hr, rfl⟩
  · exact h.next j n m hn hm
  · exact h.ring hr n m hn hm

theorem Wired.source_of_none {first : Source} (h : p.Wired first) {i : Nat}
    (hb : p.topology.before? p.size i = none) {m : Machine}
    (hm : p.network.machine? i = some m) : m.source = first := by
  cases i with
  | succ i => cases hb
  | zero =>
    cases ht : p.topology with
    | chain => exact h.chain ht m hm
    | ring =>
      rw [ht] at hb
      cases hb

theorem allotted_of_create {memory : Memory} {count : Nat} {topology : Topology}
    (h : create memory count topology = .ok p) :
    p.network.Allotted memory count topology fun _ => [] := by
  obtain ⟨hne, rfl⟩ := ofNetwork_eq_ok_iff.1 h
  obtain ⟨first, rest, hcons⟩ := List.exists_cons_of_ne_nil hne
  have hwired := wired_wire topology (Network.addCopies {} memory count).tapes first rest
  have hsize : Pipeline.size _ = count := size_of_create h
  rw [← hcons] at hwired
  have hvalues := Network.values_addCopies {} memory count
  refine ⟨hsize, fun i hi => ?_, fun _ _ j _ => hvalues j, fun t _ => hvalues t,
    fun _ _ => rfl⟩
  -- A machine that is wired is as it was but for its source, and the wires say what that is.
  obtain ⟨s, hs⟩ := @machine_of_wire topology _ _ _ (Network.machine?_addCopies memory hi)
  refine hs.trans (congrArg (fun s => some (Machine.wire _ s)) ?_)
  have hbefore := congrArg (topology.before? · i) hsize
  cases hb : topology.before? count i with
  | none =>
    have hfirst := Network.machine?_addCopies memory (Nat.zero_lt_of_lt hi)
    rw [Network.machine?, hcons] at hfirst
    cases hfirst
    rw [Topology.sourceOf_none hb]
    exact hwired.source_of_none (hbefore.trans hb) hs
  | some j =>
    obtain ⟨s', hs'⟩ := @machine_of_wire topology _ _ _
      (Network.machine?_addCopies memory (Topology.before?_lt hi hb))
    rw [Topology.sourceOf_some hb]
    exact hwired.source_of_some (hbefore.trans hb) hs' hs

/-! ## Seeds -/

variable {memory : Memory} {count : Nat} {topology : Topology} {given : Nat → List Word}

theorem after_allotted (h : p.network.Allotted memory count topology given) {fuel : Nat}
    {c : Call} (hc : c.Seeds) (ha : p.after fuel c = some q) :
    q.network.Allotted memory count topology fun i => given i ++ c.words p.size i := by
  have hsize : p.size = count := h.size
  obtain ⟨rfl, hw⟩ | ⟨j, word, hj, rfl, hw⟩ | ⟨words, hlen, rfl, hw⟩ | ⟨r, -, hruns, -⟩ :=
    after_cases ha
  · simpa only [hw, List.append_nil] using h
  · simpa only [hw] using h.feed (hsize ▸ hj) [word]
  · have hle : 0 + words.length ≤ count := by omega
    simpa [hw] using h.feedEach hle
  · exact absurd hc hruns

theorem Calls.allotted {cs : List Call} (hq : p.Calls cs q) (hcs : ∀ c ∈ cs, c.Seeds)
    (h : p.network.Allotted memory count topology given) :
    q.network.Allotted memory count topology
      fun i => given i ++ cs.flatMap (·.words p.size i) := by
  induction hq generalizing given with
  | done => simpa using h
  | @call p q₁ q fuel c cs ha _ ih =>
    rw [List.forall_mem_cons] at hcs
    have hsize : q₁.size = p.size := (after_keeps ha).2.size
    have hrest := ih hcs.2 (after_allotted h hcs.1 ha)
    simpa only [hsize, List.flatMap_cons, List.append_assoc] using hrest

/-- Seeds for a new pipeline give words to its machines and do nothing else. -/
theorem Seeded.allotted (hp : create memory count topology = .ok p) (h : p.Seeded q given) :
    q.network.Allotted memory count topology given := by
  obtain ⟨cs, hq, hcs, rfl⟩ := h
  simpa using hq.allotted hcs (allotted_of_create hp)

end Pipeline

/-! ## Chains -/

namespace Network

variable {memory : Memory} {count : Nat} {given : Nat → List Word} {net : Network}

theorem Allotted.getElem {topology : Topology} (h : net.Allotted memory count topology given)
    {i : Nat} (hi : i < net.machines.length) :
    net.machines[i] = (Machine.start memory i).wire (topology.sourceOf count i (given i)) := by
  have hm := h.machine i (h.size ▸ hi)
  rw [machine?, List.getElem?_eq_getElem hi] at hm
  exact Option.some.inj hm

theorem Allotted.unused {topology : Topology} (h : net.Allotted memory count topology given) :
    ∀ m ∈ net.machines, m.Unused ∧ m.memory = memory := by
  intro m hm
  obtain ⟨i, hi, rfl⟩ := List.mem_iff_getElem.1 hm
  rw [h.getElem hi]
  exact ⟨rfl, rfl⟩

/-- In a chain the words for a machine are behind the one before it. There is no machine behind the
last one, and so there are no words. -/
theorem Allotted.behind (h : net.Allotted memory count .chain given) (i : Nat) :
    net.tapes.values i = (given (i + 1)).toArray := by
  by_cases hlast : i + 1 < count
  · exact h.tape (i + 1) hlast i rfl
  · rw [h.missing (i + 1) (Nat.le_of_not_lt hlast)]
    refine h.unread i fun j hj hb => ?_
    obtain rfl | ⟨-, ht, -⟩ := Topology.before?_eq_some_iff.1 hb
    · exact hlast hj
    · cases ht

theorem Allotted.forward (h : net.Allotted memory count .chain given) : Forward net.machines := by
  have hreads : ∀ i j, i ≤ j → Topology.chain.sourceOf count i (given i) ≠ .tape j := by
    intro i j hij hs
    cases i with
    | zero => cases hs
    | succ i =>
      cases hs
      exact Nat.not_succ_le_self _ hij
  refine ⟨?_, ?_, ?_⟩
  · intro m hm
    obtain ⟨i, hi, rfl⟩ := List.mem_iff_getElem.1 hm
    rw [h.getElem hi]
    exact hreads i i (Nat.le_refl i)
  · rw [List.pairwise_iff_getElem]
    intro i j hi hj hij
    rw [h.getElem hi, h.getElem hj]
    exact hreads i j (Nat.le_of_lt hij)
  · rw [List.pairwise_iff_getElem]
    intro i j hi hj hij
    rw [h.getElem hi, h.getElem hj]
    exact Nat.ne_of_lt hij

end Network
end Intcode
