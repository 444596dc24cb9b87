import Intcode.Proofs.Histories
import Intcode.Proofs.Resumption
import Intcode.Proofs.Writers

/-!
# Intcode.Proofs.Effects

What an operation on a network can change. Tapes are shared: one may be the output of a machine,
the input of others, and written to from outside. Still an operation adds to one tape at most, and
changes one machine at most.

* `Tapes.Adds`              : words are added to one tape, and the other tapes stay as they are.
* `Operation.Changes`       : what an operation does to the machine that it names.
* `Network.perform_effects` : an operation changes what it names and nothing else.
* `Network.Session`         : operations, one after the other, and what each of them came to.
* `Network.Session.grows`   : over a whole session no word is lost from a tape.
-/

namespace Intcode

namespace Tapes

/-- Every tape holds what it held, and maybe more behind it. -/
def Grows (t t' : Tapes) : Prop := ∀ i, (t.values i).toList <+: (t'.values i).toList

theorem Grows.refl (t : Tapes) : t.Grows t := fun _ => List.prefix_rfl

theorem Grows.trans {t t₁ t₂ : Tapes} (h : t.Grows t₁) (h' : t₁.Grows t₂) : t.Grows t₂ :=
  fun i => (h i).trans (h' i)

/-- The words are added to one tape, if to any, and the other tapes are as they were. -/
def Adds (t : Tapes) (i : Option TapeId) (words : Array Word) (t' : Tapes) : Prop :=
  ∀ j, t'.values j = if i = some j then t.values j ++ words else t.values j

theorem Adds.grows {t t' : Tapes} {i : Option TapeId} {words : Array Word}
    (h : t.Adds i words t') : t.Grows t' := by
  intro j
  rw [h j]
  split
  · rw [Array.toList_append]
    exact List.prefix_append ..
  · exact List.prefix_rfl

theorem adds_none (t : Tapes) (words : Array Word) : t.Adds none words t := by
  intro j
  rw [if_neg (by simp)]

theorem adds_create (t : Tapes) (words : Array Word) :
    t.Adds (some t.fresh) words (t.create words) := by
  intro j
  rw [values_create]
  by_cases hj : t.fresh = j
  · subst hj
    simp
  · simp [hj]

theorem adds_extend (t : Tapes) (i : TapeId) (words : List Word) :
    t.Adds (some i) words.toArray (t.extend i words) := by
  intro j
  rw [values_extend]
  by_cases hj : i = j
  · subst hj
    simp
  · simp [hj]

end Tapes

/-- The tape that a source stands for. -/
def Source.tape? : Source → Option TapeId
  | .owned _ => none
  | .tape i => some i

theorem Machine.Did.adds {t t' : Tapes} {m m' : Machine} {h : History} (hd : Did t m h t' m') :
    t.Adds (some m.output) h.emitted.toArray t' := by
  intro j
  by_cases hj : m.output = j
  · subst hj
    rw [if_pos rfl, hd.emitted]
  · rw [if_neg (by simpa using hj), hd.others (Ne.symm hj)]

namespace Operation

/-- The tape that an operation adds words to. -/
def tape? (net : Network) : Operation → Option TapeId
  | .add _ | .fork _ | .addTape _ => some net.tapes.fresh
  | .write t _ => some t
  | .feed i _ => (net.machine? i).bind (·.source.tape?)
  | .wire .. | .poke .. => none
  | .execute i => (net.machine? i).map (·.output)

/-- The words that an operation adds to a tape. What an execution adds is up to the machine. -/
def words? (net : Network) : Operation → Option (Array Word)
  | .add _ | .wire .. | .poke .. => some #[]
  | .fork i => some (((net.machine? i).map (net.tapes.values ·.output)).getD #[])
  | .addTape words => some words
  | .write _ words | .feed _ words => some words.toArray
  | .execute _ => none

/-- The machine that an operation changes. To feed one that reads a tape leaves it as it is. -/
def machine? (net : Network) : Operation → Option Nat
  | .feed i _ => if (net.machine? i).any (·.source.isTape) then none else some i
  | .wire i _ | .poke i _ _ | .execute i => some i
  | .add _ | .fork _ | .addTape _ | .write .. => none

/-- What an operation does to the machine that it changes. -/
def Changes (m m' : Machine) : Operation → Prop
  | .feed _ words =>
    ∃ held, m.source = .owned held ∧ m' = m.wire (.owned (held ++ words.toArray))
  | .wire _ t => m' = m.wire (.tape t)
  | .poke _ a w => m' = m.poke a w
  | .execute _ => m'.source = m.source ∧ m'.output = m.output
  | _ => m' = m

theorem Changes.output_eq {op : Operation} {m m' : Machine} (h : op.Changes m m') :
    m'.output = m.output := by
  cases op with
  | feed i words =>
    obtain ⟨held, -, rfl⟩ := h
    rfl
  | execute i => exact h.2
  | _ =>
    cases h
    rfl

end Operation

namespace Network

/-- One machine is changed, if any, and in the way that is told; the others stay as they are. -/
def Touches (net : Network) (i : Option Nat) (change : Machine → Machine → Prop)
    (net' : Network) : Prop :=
  ∀ j m, net.machine? j = some m →
    ∃ m', net'.machine? j = some m' ∧ if i = some j then change m m' else m' = m

section Touches

variable {net : Network} {change : Machine → Machine → Prop}

theorem touches_append (net : Network) (t : Tapes) (ms : List Machine) :
    net.Touches none change { tapes := t, machines := net.machines ++ ms } := by
  intro j m hm
  obtain ⟨hj, -⟩ := List.getElem?_eq_some_iff.1 hm
  refine ⟨m, ?_, by simp⟩
  show (net.machines ++ ms)[j]? = some m
  rw [List.getElem?_append_left hj]
  exact hm

theorem touches_none (net : Network) (t : Tapes) :
    net.Touches none change { net with tapes := t } := by
  intro j m hm
  exact ⟨m, hm, by simp⟩

theorem touches_missing {i : Nat} (hi : net.machine? i = none) :
    net.Touches (some i) change net := by
  intro j m hm
  have hj : i ≠ j := by
    rintro rfl
    rw [hi] at hm
    cases hm
  exact ⟨m, hm, by simp [hj]⟩

theorem touches_modify (net : Network) (i : Nat) {f : Machine → Machine}
    (hf : ∀ m, change m (f m)) :
    net.Touches (some i) change { net with machines := net.machines.modify i f } := by
  intro j m hm
  by_cases hj : i = j
  · subst hj
    refine ⟨f m, ?_, by simpa using hf m⟩
    show (net.machines.modify i f)[i]? = some (f m)
    rw [List.getElem?_modify_eq, show net.machines[i]? = some m from hm]
    rfl
  · refine ⟨m, ?_, by simp [hj]⟩
    show (net.machines.modify i f)[j]? = some m
    rw [List.getElem?_modify_ne _ _ hj]
    exact hm

theorem machine?_set {i : Nat} {m : Machine} (hm : net.machine? i = some m) (t : Tapes)
    (m' : Machine) : machine? { tapes := t, machines := net.machines.set i m' } i = some m' := by
  obtain ⟨hi, -⟩ := List.getElem?_eq_some_iff.1 hm
  exact List.getElem?_set_self hi

theorem touches_set {i : Nat} {m m' : Machine} (hm : net.machine? i = some m)
    (hc : change m m') (t : Tapes) :
    net.Touches (some i) change { tapes := t, machines := net.machines.set i m' } := by
  intro j n hn
  by_cases hj : i = j
  · subst hj
    rw [hm] at hn
    cases hn
    exact ⟨m', machine?_set hm t m', by simpa using hc⟩
  · exact ⟨n, (List.getElem?_set_ne hj).trans hn, by simp [hj]⟩

end Touches

theorem set_self {net : Network} {i : Nat} {m : Machine} (hm : net.machine? i = some m) :
    net.machines.set i m = net.machines := by
  obtain ⟨hi, rfl⟩ := List.getElem?_eq_some_iff.1 hm
  exact List.set_getElem_self hi

theorem feed_of_none {net : Network} {i : Nat} (hm : net.machine? i = none)
    (words : List Word) : net.feed i words = net := by
  rw [feed, hm]

theorem feed_of_owned {net : Network} {i : Nat} {m : Machine} {held : Array Word}
    (hm : net.machine? i = some m) (hs : m.source = .owned held) (words : List Word) :
    net.feed i words =
      { net with machines := net.machines.set i (m.wire (.owned (held ++ words.toArray))) } := by
  simp only [feed, hm, Machine.feed_owned hs]

/-- To feed a machine that reads a tape is to write to the tape. -/
theorem feed_of_tape {net : Network} {i : Nat} {m : Machine} {t : TapeId}
    (hm : net.machine? i = some m) (hs : m.source = .tape t) (words : List Word) :
    net.feed i words = net.write t words := by
  have hfeed : m.feed net.tapes words = (net.tapes.extend t words, m) := by
    rw [Machine.feed, hs]
    simp only [Source.extend]
    rw [← hs]
  simp only [feed, hm, hfeed, set_self hm]
  rfl

variable {fuel : Nat} {net net' : Network} {r : Option (Except Error HaltReason)}

/-- An operation adds to one tape at most. -/
theorem perform_adds {op : Operation} (hp : net.perform fuel op = some (net', r)) :
    ∃ words, (∀ told, op.words? net = some told → words = told) ∧
      net.tapes.Adds (op.tape? net) words net'.tapes := by
  cases op with
  | add memory =>
    cases hp
    exact ⟨#[], by simp [Operation.words?], net.tapes.adds_create #[]⟩
  | fork i =>
    cases hp
    rw [fork]
    cases hm : net.machine? i with
    | none =>
      refine ⟨#[], by simp [Operation.words?, hm], fun j => ?_⟩
      simp
    | some m =>
      exact ⟨net.tapes.values m.output, by simp [Operation.words?, hm], net.tapes.adds_create _⟩
  | addTape words =>
    cases hp
    exact ⟨words, by simp [Operation.words?], net.tapes.adds_create words⟩
  | write t words =>
    cases hp
    exact ⟨words.toArray, by simp [Operation.words?], net.tapes.adds_extend t words⟩
  | feed i words =>
    cases hp
    refine ⟨words.toArray, by simp [Operation.words?], ?_⟩
    rw [Operation.tape?]
    cases hm : net.machine? i with
    | none =>
      rw [feed_of_none hm]
      exact net.tapes.adds_none _
    | some m =>
      cases hs : m.source with
      | owned held =>
        rw [feed_of_owned hm hs]
        simpa [hs, Source.tape?] using net.tapes.adds_none _
      | tape t =>
        have htape : (some m).bind (·.source.tape?) = some t := by simp [hs, Source.tape?]
        rw [feed_of_tape hm hs, htape]
        exact net.tapes.adds_extend t words
  | wire i t =>
    cases hp
    exact ⟨#[], by simp [Operation.words?], net.tapes.adds_none #[]⟩
  | poke i a w =>
    cases hp
    exact ⟨#[], by simp [Operation.words?], net.tapes.adds_none #[]⟩
  | execute i =>
    rw [Operation.tape?]
    obtain ⟨hm, rfl, -⟩ | ⟨m, t, m', result, hm, hx, rfl, -⟩ := execute_cases hp
    · rw [hm]
      exact ⟨#[], by simp [Operation.words?], net'.tapes.adds_none #[]⟩
    · obtain ⟨h, hd⟩ := Machine.exists_did hx
      rw [hm]
      exact ⟨h.emitted.toArray, by simp [Operation.words?], hd.adds⟩

/-- An operation changes one machine at most. -/
theorem perform_touches {op : Operation} (hp : net.perform fuel op = some (net', r)) :
    net.Touches (op.machine? net) op.Changes net' := by
  cases op with
  | add memory =>
    cases hp
    exact net.touches_append _ _
  | fork i =>
    cases hp
    rw [fork]
    cases hm : net.machine? i with
    | none => exact net.touches_none _
    | some m => exact net.touches_append _ _
  | addTape words =>
    cases hp
    exact net.touches_none _
  | write t words =>
    cases hp
    exact net.touches_none _
  | feed i words =>
    cases hp
    rw [Operation.machine?]
    cases hm : net.machine? i with
    | none =>
      rw [feed_of_none hm]
      exact touches_missing hm
    | some m =>
      -- A machine is changed when it has words of its own; otherwise its tape is.
      cases hs : m.source with
      | owned held =>
        rw [feed_of_owned hm hs, if_neg (by simp [hs, Source.isTape])]
        exact touches_set hm ⟨held, hs, rfl⟩ net.tapes
      | tape t =>
        rw [feed_of_tape hm hs, if_pos (by simp [hs, Source.isTape])]
        exact net.touches_none _
  | wire i t =>
    cases hp
    exact net.touches_modify i fun m => rfl
  | poke i a w =>
    cases hp
    exact net.touches_modify i fun m => rfl
  | execute i =>
    obtain ⟨hm, rfl, -⟩ | ⟨m, t, m', result, hm, hx, rfl, -⟩ := execute_cases hp
    · exact touches_missing hm
    · obtain ⟨h, hd⟩ := Machine.exists_did hx
      exact touches_set hm ⟨hd.source, hd.output⟩ t

/-- **An operation changes what it names and nothing else.** In a network, however it was built, no
two machines write to the same tape. An operation leaves that so; it adds words behind those of one
tape at most, and changes one machine at most, in the way that belongs to the operation. -/
theorem perform_effects {op : Operation} (hb : net.Built)
    (hp : net.perform fuel op = some (net', r)) :
    net.outputs.Nodup ∧ net'.outputs.Nodup ∧ net.tapes.Grows net'.tapes ∧
      (∃ words, (∀ told, op.words? net = some told → words = told) ∧
        net.tapes.Adds (op.tape? net) words net'.tapes) ∧
      net.Touches (op.machine? net) op.Changes net' := by
  have hb' : net'.Built := .perform hb hp
  obtain ⟨words, hwords, hadds⟩ := perform_adds hp
  exact ⟨hb.sound.apart, hb'.sound.apart, hadds.grows, ⟨words, hwords, hadds⟩,
    perform_touches hp⟩

/-- Two machines read tape zero, to which the first one of them writes. It is executed, and finds
the words that it wrote itself behind the one that came from outside. -/
theorem perform_effects_self :
    let program := Memory.ofWords #[3, 0, 101, 1, 0, 0, 4, 0, 3, 0, 99] 0
    let m : Machine := { memory := program, source := .tape 0, output := 0 }
    let n : Machine := { memory := program, source := .tape 0, output := 1 }
    let net : Network := { tapes := ⟨#[#[5], #[]]⟩, machines := [m, n] }
    net.Built ∧ ∃ net' r, net.perform 5 (.execute 0) = some (net', r) ∧
      net'.outputs.Nodup ∧ net.tapes.Grows net'.tapes ∧ net'.tapes.values 0 = #[5, 6] ∧
      net'.tapes.values 1 = #[] ∧ net'.machine? 1 = some n := by
  have told {net net' : Network} {n : Machine} {r : Option (Except Error HaltReason)}
      (hb : net.Built) (hp : net.perform 5 (.execute 0) = some (net', r))
      (ho : Operation.tape? net (.execute 0) = some 0) (hn : net.machine? 1 = some n)
      (hv : net.tapes.values 1 = #[]) (hv' : net'.tapes.values 0 = #[5, 6]) :
      net.Built ∧ ∃ net' r, net.perform 5 (.execute 0) = some (net', r) ∧
        net'.outputs.Nodup ∧ net.tapes.Grows net'.tapes ∧ net'.tapes.values 0 = #[5, 6] ∧
        net'.tapes.values 1 = #[] ∧ net'.machine? 1 = some n := by
    obtain ⟨-, hapart, hgrows, ⟨words, -, hadds⟩, htouches⟩ := perform_effects hb hp
    obtain ⟨n', hn', rfl⟩ := htouches 1 n hn
    have hone := hadds 1
    rw [ho, if_neg (by simp), hv] at hone
    exact ⟨hb, net', r, hp, hapart, hgrows, hv', hone, hn'⟩
  have hadd (program : Memory) : (({} : Network).addCopies program 2).Built :=
    Built.empty.addCopies program 2
  have hwire (i : Nat) {net : Network} (hb : net.Built) : (net.wire i 0).Built :=
    @Built.perform 0 net _ (.wire i 0) none hb rfl
  have hwrite {net : Network} (hb : net.Built) : (net.write 0 [5]).Built :=
    @Built.perform 0 net _ (.write 0 [5]) none hb rfl
  exact told (hwrite (hwire 1 (hwire 0 (hadd _)))) rfl rfl rfl rfl rfl

/-! ## Sessions -/

end Network

/-- Operations, first one first, and why the machine rests that was executed in each. -/
abbrev Log := List (Operation × Option (Except Error HaltReason))

namespace Network

/-- The operations of the log are performed one after the other, and come to what it says. -/
inductive Session : Network → Log → Network → Prop where
  | done {net : Network} : Session net [] net
  | perform {net net₁ net₂ : Network} {op : Operation} {r : Option (Except Error HaltReason)}
      {log : Log} {fuel : Nat} :
      net.perform fuel op = some (net₁, r) → Session net₁ log net₂ →
      Session net ((op, r) :: log) net₂

variable {net net' : Network} {log : Log}

/-- **Over a whole session no word is lost from a tape.** -/
theorem Session.grows (h : net.Session log net') : net.tapes.Grows net'.tapes := by
  induction h with
  | done => exact .refl _
  | perform hp _ ih =>
    obtain ⟨words, -, hadds⟩ := perform_adds hp
    exact hadds.grows.trans ih

/-- Whatever is done in a session, a machine goes on writing to its own tape. -/
theorem Session.output_kept (h : net.Session log net') {i : Nat} {m : Machine}
    (hm : net.machine? i = some m) :
    ∃ m', net'.machine? i = some m' ∧ m'.output = m.output := by
  induction h generalizing m with
  | done => exact ⟨m, hm, rfl⟩
  | perform hp _ ih =>
    obtain ⟨m₁, hm₁, hc⟩ := perform_touches hp i m hm
    have ho : m₁.output = m.output := by
      split_ifs at hc with hi
      · exact hc.output_eq
      · rw [hc]
    obtain ⟨m', hm', ho'⟩ := ih hm₁
    exact ⟨m', hm', ho'.trans ho⟩

end Network
end Intcode
