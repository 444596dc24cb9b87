import Intcode.Proofs.Effects
import Intcode.Proofs.Influence

/-!
# Intcode.Proofs.Forks

A machine and its fork, each of which goes its own way.

The fork writes to a tape of its own, and what the two read is either their own or a tape to which
neither of them writes. So nothing that is done to the one is to be seen by the other, and the two
can be told apart by nothing but the number of their output tapes.

* `Deed`             : what can be done to one machine.
* `Machine.Twin`     : two machines are the same but for the tapes to which they write.
* `Interleaves`      : a session in which two machines take turns, as two sessions with one machine.
* `fork_independent` : such a session can be held just when each of the two can be held alone, and
  it leaves both machines as they are left alone.
-/

namespace Intcode

/-- What can be done to one machine. -/
inductive Deed where
  | execute
  | feed (words : List Word)
  | poke (address : Address) (word : Word)

namespace Deed

def on (i : Nat) : Deed → Operation
  | .execute => .execute i
  | .feed words => .feed i words
  | .poke a w => .poke i a w

/-- Words are given only to a machine that reads no tape: on a tape others would see them too. -/
def Private (tape? : Option TapeId) : Deed → Prop
  | .feed _ => tape? = none
  | _ => True

end Deed

theorem Source.tape?_eq_none_iff {s : Source} : s.tape? = none ↔ ∃ held, s = .owned held := by
  cases s with
  | owned held => simp [tape?]
  | tape i => simp [tape?]

theorem Source.tape?_eq_some_iff {s : Source} {i : TapeId} : s.tape? = some i ↔ s = .tape i := by
  cases s with
  | owned held => simp [tape?]
  | tape j => simp [tape?]

namespace Machine

/-- The machine after a deed, the tapes, and why the machine rests if it was executed. -/
def undergo (fuel : Nat) (t : Tapes) (m : Machine) :
    Deed → Option (Tapes × Machine × Option (Except Error HaltReason))
  | .execute => (m.execute fuel t).map fun (t, m, r) => (t, m, some r)
  | .feed words => some ((m.feed t words).1, (m.feed t words).2, none)
  | .poke a w => some (t, m.poke a w, none)

theorem undergo_execute_iff {fuel : Nat} {t t' : Tapes} {m m' : Machine}
    {r : Option (Except Error HaltReason)} :
    m.undergo fuel t .execute = some (t', m', r) ↔
      ∃ result, m.execute fuel t = some (t', m', result) ∧ r = some result := by
  rw [undergo, Option.map_eq_some_iff]
  constructor
  · rintro ⟨⟨t₁, m₁, result⟩, hx, h⟩
    cases h
    exact ⟨result, hx, rfl⟩
  · rintro ⟨result, hx, rfl⟩
    exact ⟨_, hx, rfl⟩

/-- A private deed leaves a machine where it reads and writes, and all tapes but its own. -/
theorem undergo_keeps {fuel : Nat} {t t' : Tapes} {m m' : Machine} {deed : Deed}
    {r : Option (Except Error HaltReason)} (h : m.undergo fuel t deed = some (t', m', r))
    (hd : deed.Private m.source.tape?) :
    m'.output = m.output ∧ m'.source.tape? = m.source.tape? ∧
      ∀ k, k ≠ m.output → t'.values k = t.values k := by
  cases deed with
  | execute =>
    obtain ⟨result, hx, -⟩ := undergo_execute_iff.1 h
    obtain ⟨history, hdid⟩ := exists_did hx
    exact ⟨hdid.output, by rw [hdid.source], fun k hk => hdid.others hk⟩
  | feed words =>
    obtain ⟨held, hs⟩ := Source.tape?_eq_none_iff.1 hd
    rw [undergo, feed_owned hs] at h
    cases h
    exact ⟨rfl, by rw [hs]; rfl, fun _ _ => rfl⟩
  | poke a w =>
    cases h
    exact ⟨rfl, rfl, fun _ _ => rfl⟩

/-- The machines are the same but for the tapes to which they write; these hold the same words, and
so does what the machines read. Neither machine reads what it writes. -/
structure Twin (t : Tapes) (m : Machine) (t' : Tapes) (m' : Machine) : Prop where
  same : m' = { m with output := m'.output }
  written : t'.values m'.output = t.values m.output
  read : m'.source.values t' = m.source.values t
  apart : m.source ≠ .tape m.output
  apart' : m'.source ≠ .tape m'.output

namespace Twin

variable {t t' : Tapes} {m m' : Machine}

theorem source (h : Twin t m t' m') : m'.source = m.source := by
  rw [h.same]

theorem symm (h : Twin t m t' m') : Twin t' m' t m :=
  ⟨by rw [h.same], h.written.symm, h.read.symm, h.apart', h.apart⟩

theorem alike (h : Twin t m t' m') : Alike t m t' m' := by
  have hcursor : m'.cursor = m.cursor := by rw [h.same]
  refine ⟨by rw [h.same], by rw [h.same], by rw [h.same], fun a => by rw [h.same], fun k => ?_⟩
  rw [Source.get?, Source.get?, h.read, hcursor]

/-- Twins do the same when they are executed, and are twins again where they rest. -/
theorem execute (h : Twin t m t' m') {fuel : Nat}
    {out : Tapes × Machine × Except Error HaltReason} (hx : execute fuel t m = some out) :
    ∃ t₁' m₁', Machine.execute fuel t' m' = some (t₁', m₁', out.2.2) ∧
      Twin out.1 out.2.1 t₁' m₁' := by
  obtain ⟨history, t₁', m₁', hx', hd, hd', ha⟩ := h.alike.execute h.apart h.apart' hx
  refine ⟨t₁', m₁', hx', ?_, ?_, ?_, ?_, ?_⟩
  · have hreplay : m'.replay history = { m.replay history with output := m'.output } := by
      rw [h.same, show ({ m with output := m'.output } : Machine) =
        { m with source := m.source, output := m'.output } from rfl, replay_rehouse]
      rw [← replay_source m history]
    rw [hd'.machine, hd.machine, hreplay, ha.state]
  · rw [hd'.output, hd'.emitted, hd.output, hd.emitted, h.written]
  · rw [hd'.source, hd'.input h.apart', hd.source, hd.input h.apart, h.read]
  · rw [hd.source, hd.output]
    exact h.apart
  · rw [hd'.source, hd'.output]
    exact h.apart'

/-- What is done to both twins leaves them twins, and comes to the same. -/
theorem undergo (h : Twin t m t' m') {fuel : Nat} {deed : Deed} {t₁ : Tapes} {m₁ : Machine}
    {r : Option (Except Error HaltReason)} (hd : deed.Private m.source.tape?)
    (hu : m.undergo fuel t deed = some (t₁, m₁, r)) :
    ∃ t₁' m₁', m'.undergo fuel t' deed = some (t₁', m₁', r) ∧ Twin t₁ m₁ t₁' m₁' := by
  cases deed with
  | execute =>
    obtain ⟨result, hx, rfl⟩ := undergo_execute_iff.1 hu
    obtain ⟨t₁', m₁', hx', htwin⟩ := h.execute hx
    exact ⟨t₁', m₁', undergo_execute_iff.2 ⟨_, hx', rfl⟩, htwin⟩
  | feed words =>
    obtain ⟨held, hs⟩ := Source.tape?_eq_none_iff.1 hd
    have hs' : m'.source = .owned held := h.source.trans hs
    rw [Machine.undergo, feed_owned hs] at hu
    cases hu
    refine ⟨t', m'.wire (.owned (held ++ words.toArray)), by rw [Machine.undergo, feed_owned hs'],
      ?_, h.written, rfl, by simp [wire], by simp [wire]⟩
    exact congrArg (·.wire (.owned (held ++ words.toArray))) h.same
  | poke a w =>
    cases hu
    exact ⟨t', m'.poke a w, rfl, congrArg (·.poke a w) h.same, h.written, h.read, h.apart, h.apart'⟩

/-- What happens to other tapes does not matter to a twin. -/
theorem frame (h : Twin t m t' m') {t₁ : Tapes} (hw : t₁.values m.output = t.values m.output)
    (hr : ∀ i, m.source.tape? = some i → t₁.values i = t.values i) : Twin t₁ m t' m' := by
  refine ⟨h.same, h.written.trans hw.symm, h.read.trans ?_, h.apart, h.apart'⟩
  exact Source.values_congr fun i hi => (hr i (Source.tape?_eq_some_iff.2 hi)).symm

theorem write (h : Twin t m t' m') {i : TapeId} (hi : m.source.tape? = some i)
    (words : List Word) : Twin (t.extend i words) m (t'.extend i words) m' := by
  have hs : m.source = .tape i := Source.tape?_eq_some_iff.1 hi
  have hs' : m'.source = .tape i := h.source.trans hs
  have hne : i ≠ m.output := fun e => h.apart (e ▸ hs)
  have hne' : i ≠ m'.output := fun e => h.apart' (e ▸ hs')
  have hread : t'.values i = t.values i := by
    have := h.read
    rwa [hs, hs'] at this
  refine ⟨h.same, ?_, ?_, h.apart, h.apart'⟩
  · rw [Tapes.values_extend, if_neg hne', Tapes.values_extend, if_neg hne, h.written]
  · rw [hs, hs', Source.values, Source.values, Tapes.values_extend, if_pos rfl,
      Tapes.values_extend, if_pos rfl, hread]

end Twin

end Machine

/-! ## Sessions -/

namespace Network

theorem perform_on_iff {net net' : Network} {i : Nat} {m : Machine}
    (hm : net.machine? i = some m) {fuel : Nat} {deed : Deed}
    {r : Option (Except Error HaltReason)} :
    net.perform fuel (deed.on i) = some (net', r) ↔
      ∃ t m', m.undergo fuel net.tapes deed = some (t, m', r) ∧
        net' = { tapes := t, machines := net.machines.set i m' } := by
  cases deed with
  | execute =>
    constructor
    · intro h
      obtain ⟨hn, -, -⟩ | ⟨n, t, m', result, hn, hx, rfl, rfl⟩ := execute_cases h
      · rw [hm] at hn
        cases hn
      · rw [hm] at hn
        cases hn
        exact ⟨t, m', Machine.undergo_execute_iff.2 ⟨result, hx, rfl⟩, rfl⟩
    · rintro ⟨t, m', hu, rfl⟩
      obtain ⟨result, hx, rfl⟩ := Machine.undergo_execute_iff.1 hu
      exact execute_of_machine? hm hx
  | feed words =>
    simp [Deed.on, perform, feed, hm, Machine.undergo, eq_comm, and_comm]
  | poke a w =>
    have hset : net.machines.modify i (·.poke a w) = net.machines.set i (m.poke a w) := by
      rw [List.modify_eq_set_getElem?, show net.machines[i]? = some m from hm]
      rfl
    simp [Deed.on, perform, Network.poke, hset, Machine.undergo, eq_comm, and_comm]

theorem perform_write (net : Network) (t : TapeId) (words : List Word) :
    net.perform 0 (.write t words) = some (net.write t words, none) := rfl

theorem execute_unique {net : Network} {i fuel fuel' : Nat}
    {x x' : Network × Option (Except Error HaltReason)} (h : net.execute fuel i = some x)
    (h' : net.execute fuel' i = some x') : x' = x := by
  rw [execute] at h h'
  cases hm : net.machine? i with
  | none =>
    rw [hm] at h h'
    exact Option.some.inj (h'.symm.trans h)
  | some m =>
    rw [hm] at h h'
    obtain ⟨out, hx, rfl⟩ := Option.map_eq_some_iff.1 h
    obtain ⟨out', hx', rfl⟩ := Option.map_eq_some_iff.1 h'
    rw [(Machine.rests_of_execute hx).unique (Machine.rests_of_execute hx')]

theorem perform_unique {net : Network} {op : Operation} {fuel fuel' : Nat}
    {x x' : Network × Option (Except Error HaltReason)} (h : net.perform fuel op = some x)
    (h' : net.perform fuel' op = some x') : x' = x := by
  cases op with
  | execute i => exact execute_unique h h'
  | _ => exact Option.some.inj (h'.symm.trans h)

theorem Session.unique {net a b : Network} {log : Log} (h : net.Session log a)
    (h' : net.Session log b) : b = a := by
  induction h with
  | done =>
    cases h'
    rfl
  | perform hp _ ih =>
    cases h' with
    | perform hp' hrest =>
      cases perform_unique hp hp'
      exact ih hrest

end Network

/-- In the session `log` deeds are done to the machines `i` and `j` in any order, while others may
write to the tape that the two read. Of these operations, those that concern the first machine are
`own`; those that concern the second one are `other`, as if it were machine `i`. -/
inductive Interleaves (tape? : Option TapeId) (i j : Nat) : Log → Log → Log → Prop where
  | done : Interleaves tape? i j [] [] []
  | first {deed : Deed} {r : Option (Except Error HaltReason)} {log own other : Log} :
      deed.Private tape? → Interleaves tape? i j log own other →
      Interleaves tape? i j ((deed.on i, r) :: log) ((deed.on i, r) :: own) other
  | second {deed : Deed} {r : Option (Except Error HaltReason)} {log own other : Log} :
      deed.Private tape? → Interleaves tape? i j log own other →
      Interleaves tape? i j ((deed.on j, r) :: log) own ((deed.on i, r) :: other)
  | write {t : TapeId} {words : List Word} {log own other : Log} :
      tape? = some t → Interleaves tape? i j log own other →
      Interleaves tape? i j ((.write t words, none) :: log) ((.write t words, none) :: own)
        ((.write t words, none) :: other)

namespace Network

/-- Machine `i` of the network `a` and machine `k` of the network `b` are twins. -/
structure Mirrors (a : Network) (i : Nat) (m : Machine) (b : Network) (k : Nat) (m' : Machine) :
    Prop where
  here : a.machine? i = some m
  there : b.machine? k = some m'
  twin : Machine.Twin a.tapes m b.tapes m'

section Mirrors

variable {a b : Network} {i k : Nat} {m m' m₁ m₁' : Machine} {t t' : Tapes}

theorem Mirrors.set (h : a.Mirrors i m b k m') (ht : Machine.Twin t m₁ t' m₁') :
    Mirrors { tapes := t, machines := a.machines.set i m₁ } i m₁
      { tapes := t', machines := b.machines.set k m₁' } k m₁' :=
  ⟨machine?_set h.here t m₁, machine?_set h.there t' m₁', ht⟩

theorem Mirrors.frame (h : a.Mirrors i m b k m') {j : Nat} (hj : j ≠ i)
    (hw : t.values m.output = a.tapes.values m.output)
    (hr : ∀ s, m.source.tape? = some s → t.values s = a.tapes.values s) (n : Machine) :
    Mirrors { tapes := t, machines := a.machines.set j n } i m b k m' :=
  ⟨(List.getElem?_set_ne hj).trans h.here, h.there, h.twin.frame hw hr⟩

theorem Mirrors.write (h : a.Mirrors i m b k m') {s : TapeId} (hs : m.source.tape? = some s)
    (words : List Word) : Mirrors (a.write s words) i m (b.write s words) k m' :=
  ⟨h.here, h.there, h.twin.write hs words⟩

end Mirrors

/-- Machine `i` of the network `a` does what machine `k` does in the network `b`, and machine `j`
what machine `k` does in `c`. The two read the same tape, if any, and write to different ones. -/
def Alongside (tape? : Option TapeId) (k i j : Nat) (a b c : Network) : Prop :=
  i ≠ j ∧ ∃ m m' n n', a.Mirrors i m b k m' ∧ a.Mirrors j n c k n' ∧
    m.source.tape? = tape? ∧ n.source.tape? = tape? ∧ m.output ≠ n.output

namespace Alongside

variable {tape? : Option TapeId} {k i j fuel : Nat} {a b c a' b' : Network} {deed : Deed}
  {r : Option (Except Error HaltReason)}

theorem symm (h : Alongside tape? k i j a b c) : Alongside tape? k j i a c b := by
  obtain ⟨hij, m, m', n, n', hm, hn, hs, hs', ho⟩ := h
  exact ⟨hij.symm, n, n', m, m', hn, hm, hs', hs, ho.symm⟩

/-- A deed done to one machine and its twin does not concern the other two. -/
theorem moved {m m' n n' m₁ m₁' : Machine} {t₁ t₁' : Tapes} (hij : i ≠ j)
    (hm : a.Mirrors i m b k m') (hn : a.Mirrors j n c k n') (hs : m.source.tape? = tape?)
    (hs' : n.source.tape? = tape?) (ho : m.output ≠ n.output) (hd : deed.Private tape?)
    (hu : m.undergo fuel a.tapes deed = some (t₁, m₁, r)) (ht : Machine.Twin t₁ m₁ t₁' m₁') :
    Alongside tape? k i j { tapes := t₁, machines := a.machines.set i m₁ }
      { tapes := t₁', machines := b.machines.set k m₁' } c := by
  obtain ⟨houtput, htape, hothers⟩ := Machine.undergo_keeps hu (hs ▸ hd)
  have hread : ∀ s, n.source.tape? = some s → t₁.values s = a.tapes.values s := by
    intro s hsome
    refine hothers s fun e => hm.twin.apart ?_
    rw [hs', ← hs] at hsome
    rw [Source.tape?_eq_some_iff.1 hsome, e]
  exact ⟨hij, m₁, m₁', n, n', hm.set ht, hn.frame hij (hothers _ ho.symm) hread m₁,
    htape.trans hs, hs', houtput ▸ ho⟩

theorem first (h : Alongside tape? k i j a b c) (hd : deed.Private tape?)
    (hp : a.perform fuel (deed.on i) = some (a', r)) :
    ∃ b', b.perform fuel (deed.on k) = some (b', r) ∧ Alongside tape? k i j a' b' c := by
  obtain ⟨hij, m, m', n, n', hm, hn, hs, hs', ho⟩ := h
  obtain ⟨t₁, m₁, hu, rfl⟩ := (perform_on_iff hm.here).1 hp
  obtain ⟨t₁', m₁', hu', ht⟩ := hm.twin.undergo (hs ▸ hd) hu
  exact ⟨_, (perform_on_iff hm.there).2 ⟨t₁', m₁', hu', rfl⟩,
    moved hij hm hn hs hs' ho hd hu ht⟩

theorem first_back (h : Alongside tape? k i j a b c) (hd : deed.Private tape?)
    (hp : b.perform fuel (deed.on k) = some (b', r)) :
    ∃ a', a.perform fuel (deed.on i) = some (a', r) ∧ Alongside tape? k i j a' b' c := by
  obtain ⟨hij, m, m', n, n', hm, hn, hs, hs', ho⟩ := h
  obtain ⟨t₁', m₁', hu', rfl⟩ := (perform_on_iff hm.there).1 hp
  have hd' : deed.Private m'.source.tape? := by rwa [hm.twin.source, hs]
  obtain ⟨t₁, m₁, hu, ht⟩ := hm.twin.symm.undergo hd' hu'
  exact ⟨_, (perform_on_iff hm.here).2 ⟨t₁, m₁, hu, rfl⟩,
    moved hij hm hn hs hs' ho hd hu ht.symm⟩

theorem write (h : Alongside tape? k i j a b c) {s : TapeId} (hs : tape? = some s)
    (words : List Word) :
    Alongside tape? k i j (a.write s words) (b.write s words) (c.write s words) := by
  obtain ⟨hij, m, m', n, n', hm, hn, hs₁, hs₂, ho⟩ := h
  exact ⟨hij, m, m', n, n', hm.write (hs₁.trans hs) words, hn.write (hs₂.trans hs) words,
    hs₁, hs₂, ho⟩

end Alongside

section Interleaved

variable {tape? : Option TapeId} {i j : Nat} {log own other : Log} {a b c a' b' c' : Network}

/-- What two machines do by turns, each of them does alone. -/
theorem Alongside.split (hl : Interleaves tape? i j log own other)
    (h : Alongside tape? i i j a b c) (hs : a.Session log a') :
    ∃ b' c', b.Session own b' ∧ c.Session other c' ∧ Alongside tape? i i j a' b' c' := by
  induction hl generalizing a b c with
  | done =>
    cases hs
    exact ⟨b, c, .done, .done, h⟩
  | first hd _ ih =>
    cases hs with
    | perform hp hs =>
      obtain ⟨b₁, hp', h₁⟩ := h.first hd hp
      obtain ⟨b', c', hb, hc, h'⟩ := ih h₁ hs
      exact ⟨b', c', .perform hp' hb, hc, h'⟩
  | second hd _ ih =>
    cases hs with
    | perform hp hs =>
      obtain ⟨c₁, hp', h₁⟩ := h.symm.first hd hp
      obtain ⟨b', c', hb, hc, h'⟩ := ih h₁.symm hs
      exact ⟨b', c', hb, .perform hp' hc, h'⟩
  | @write t words _ _ _ ht _ ih =>
    cases hs with
    | perform hp hs =>
      cases hp
      obtain ⟨b', c', hb, hc, h'⟩ := ih (h.write ht words) hs
      exact ⟨b', c', .perform (perform_write ..) hb, .perform (perform_write ..) hc, h'⟩

/-- What each of two machines can do alone, they can do by turns. -/
theorem Alongside.join (hl : Interleaves tape? i j log own other)
    (h : Alongside tape? i i j a b c) (hb : b.Session own b') (hc : c.Session other c') :
    ∃ a', a.Session log a' := by
  induction hl generalizing a b c with
  | done => exact ⟨a, .done⟩
  | first hd _ ih =>
    cases hb with
    | perform hp hb =>
      obtain ⟨a₁, hp', h₁⟩ := h.first_back hd hp
      obtain ⟨a', ha⟩ := ih h₁ hb hc
      exact ⟨a', .perform hp' ha⟩
  | second hd _ ih =>
    cases hc with
    | perform hp hc =>
      obtain ⟨a₁, hp', h₁⟩ := h.symm.first_back hd hp
      obtain ⟨a', ha⟩ := ih h₁.symm hb hc
      exact ⟨a', .perform hp' ha⟩
  | @write t words _ _ _ ht _ ih =>
    cases hb with
    | perform hp hb =>
      cases hp
      cases hc with
      | perform hp hc =>
        cases hp
        obtain ⟨a', ha⟩ := ih (h.write ht words) hb hc
        exact ⟨a', .perform (perform_write ..) ha⟩

end Interleaved

theorem fork_eq {net : Network} {i : Nat} {m : Machine} (hm : net.machine? i = some m) :
    net.fork i =
      { tapes := net.tapes.create (net.tapes.values m.output)
        machines := net.machines ++ [{ m with output := net.tapes.fresh }] } := by
  simp only [fork, hm, Machine.fork]

theorem machine?_fork {net : Network} {i : Nat} {m : Machine} (hm : net.machine? i = some m) :
    (net.fork i).machine? i = some m ∧
      (net.fork i).machine? net.size = some { m with output := net.tapes.fresh } := by
  obtain ⟨hi, -⟩ := List.getElem?_eq_some_iff.1 hm
  rw [fork_eq hm]
  exact ⟨(List.getElem?_append_left hi).trans hm, List.getElem?_concat_length ..⟩

/-- At first a machine and its fork do what the machine does. -/
theorem alongside_fork {net : Network} {i : Nat} {m : Machine} (hm : net.machine? i = some m)
    (ho : m.output < net.tapes.fresh)
    (hr : ∀ t, m.source.tape? = some t → t < net.tapes.fresh ∧ t ≠ m.output) :
    Alongside m.source.tape? i i net.size (net.fork i) net net := by
  obtain ⟨hi, -⟩ := List.getElem?_eq_some_iff.1 hm
  obtain ⟨hfirst, hsecond⟩ := machine?_fork hm
  have htapes : (net.fork i).tapes = net.tapes.create (net.tapes.values m.output) := by
    rw [fork_eq hm]
  have hold : ∀ t, t < net.tapes.fresh → (net.fork i).tapes.values t = net.tapes.values t := by
    intro t ht
    rw [htapes, Tapes.values_create, if_neg (Nat.ne_of_gt ht)]
  have hread : m.source.values net.tapes = m.source.values (net.fork i).tapes :=
    Source.values_congr fun t ht => (hold t (hr t (Source.tape?_eq_some_iff.2 ht)).1).symm
  have hself : m.source ≠ .tape m.output :=
    fun h => (hr _ (Source.tape?_eq_some_iff.2 h)).2 rfl
  have hnew : m.source ≠ .tape net.tapes.fresh :=
    fun h => Nat.lt_irrefl _ (hr _ (Source.tape?_eq_some_iff.2 h)).1
  refine ⟨Nat.ne_of_lt hi, m, m, { m with output := net.tapes.fresh }, m,
    ⟨hfirst, hm, rfl, (hold _ ho).symm, hread, hself, hself⟩,
    ⟨hsecond, hm, rfl, ?_, hread, hnew, hself⟩, rfl, rfl, Nat.ne_of_lt ho⟩
  rw [htapes, Tapes.values_create, if_pos rfl]

/-- **A fork goes its own way.** After a machine was forked, deeds are done to it and to its fork in
any order, and words are added to the tape that both read, if they read one. All this comes to an
end just when it does for the machine and for the fork alone, with the same results. Then each of
the two is as it is when all is done to the machine, in the network without a fork, that was done to
this one; what it reads and what it wrote are the same too. -/
theorem fork_independent {net : Network} {i : Nat} {m : Machine} {log own other : Log}
    (hb : net.Built) (hm : net.machine? i = some m)
    (hr : ∀ t, m.source.tape? = some t → t < net.tapes.fresh ∧ t ≠ m.output)
    (hl : Interleaves m.source.tape? i net.size log own other) :
    ((∃ a, (net.fork i).Session log a) ↔
      (∃ b, net.Session own b) ∧ ∃ c, net.Session other c) ∧
    ∀ a b c, (net.fork i).Session log a → net.Session own b → net.Session other c →
      ∃ x y, b.machine? i = some x ∧ c.machine? i = some y ∧
        a.machine? i = some x ∧
        a.machine? net.size = some { y with output := net.tapes.fresh } ∧
        a.tapes.values m.output = b.tapes.values m.output ∧
        a.tapes.values net.tapes.fresh = c.tapes.values m.output ∧
        x.input a.tapes = x.input b.tapes ∧ y.input a.tapes = y.input c.tapes := by
  have ho : m.output < net.tapes.fresh :=
    hb.sound.made _ (List.mem_map_of_mem (List.mem_of_getElem? hm))
  have hstart := alongside_fork hm ho hr
  obtain ⟨hfirst, hsecond⟩ := machine?_fork hm
  refine ⟨⟨?_, ?_⟩, ?_⟩
  · rintro ⟨a, ha⟩
    obtain ⟨b, c, hb, hc, -⟩ := hstart.split hl ha
    exact ⟨⟨b, hb⟩, c, hc⟩
  · rintro ⟨⟨b, hb⟩, c, hc⟩
    exact hstart.join hl hb hc
  · intro a b c ha hb hc
    obtain ⟨b', c', hb', hc', -, x, x', y, y', hx, hy, -⟩ := hstart.split hl ha
    cases hb.unique hb'
    cases hc.unique hc'
    have output {net net' : Network} {log : Log} {i : Nat} {m m' : Machine}
        (hs : net.Session log net') (hm : net.machine? i = some m)
        (hm' : net'.machine? i = some m') : m'.output = m.output := by
      obtain ⟨n, hn, ho⟩ := hs.output_kept hm
      cases hm'.symm.trans hn
      exact ho
    have hox := output ha hfirst hx.here
    have hox' := output hb hm hx.there
    have hoy := output ha hsecond hy.here
    have hoy' := output hc hm hy.there
    have hxx : x' = x := by
      rw [hx.twin.same, hox', ← hox]
    have hyy : y = { y' with output := net.tapes.fresh } := by
      rw [hy.twin.symm.same, hoy]
    have hwx := hx.twin.written
    have hwy := hy.twin.written
    rw [hox, hox'] at hwx
    rw [hoy, hoy'] at hwy
    refine ⟨x', y', hx.there, hy.there, hxx ▸ hx.here, hyy ▸ hy.here, hwx.symm, hwy.symm, ?_, ?_⟩
    · rw [Machine.input, Machine.input, hx.twin.read, hx.twin.source]
    · rw [Machine.input, Machine.input, hy.twin.read, hy.twin.source]

/-- A machine that echoes the words of tape 1, and its fork. The machine is executed before a word
is added to the tape, and the fork after it. -/
theorem fork_independent_echo :
    let echo : Machine := {
      memory := Memory.ofWords #[3, 7, 4, 7, 1105, 1, 0] 9, source := .tape 1, output := 0 }
    let net : Network := { tapes := ⟨#[#[], #[5]]⟩, machines := [echo] }
    let added : Operation × Option (Except Error HaltReason) := (.write 1 [6], none)
    let waits (i : Nat) : Operation × Option (Except Error HaltReason) :=
      (.execute i, some (.ok .waitingForInput))
    net.Built ∧
      Interleaves (some 1) 0 1 [waits 0, added, waits 1] [waits 0, added] [added, waits 0] ∧
      ∃ a, (net.fork 0).Session [waits 0, added, waits 1] a ∧
        a.tapes.values 0 = #[5] ∧ a.tapes.values 2 = #[5, 6] := by
  have told {net b c : Network} {m : Machine}
      (hnet : net.Built) (hm : net.machine? 0 = some m) (hs : m.source.tape? = some 1)
      (hone : net.size = 1) (htwo : net.tapes.fresh = 2) (ho : m.output = 0)
      (hb : net.perform 4 (.execute 0) = some (b, some (.ok .waitingForInput)))
      (hc : (net.write 1 [6]).perform 7 (.execute 0) = some (c, some (.ok .waitingForInput)))
      (hvb : (b.write 1 [6]).tapes.values 0 = #[5]) (hvc : c.tapes.values 0 = #[5, 6]) :
      let added : Operation × Option (Except Error HaltReason) := (.write 1 [6], none)
      let waits (i : Nat) : Operation × Option (Except Error HaltReason) :=
        (.execute i, some (.ok .waitingForInput))
      net.Built ∧
        Interleaves (some 1) 0 1 [waits 0, added, waits 1] [waits 0, added] [added, waits 0] ∧
        ∃ a, (net.fork 0).Session [waits 0, added, waits 1] a ∧
          a.tapes.values 0 = #[5] ∧ a.tapes.values 2 = #[5, 6] := by
    intro added waits
    have turns : Interleaves (some 1) 0 1 [waits 0, added, waits 1] [waits 0, added]
        [added, waits 0] :=
      @Interleaves.first _ 0 1 .execute _ _ _ _ trivial
        (.write rfl (@Interleaves.second _ 0 1 .execute _ _ _ _ trivial .done))
    have hl : Interleaves m.source.tape? 0 net.size [waits 0, added, waits 1] [waits 0, added]
        [added, waits 0] := by
      rw [hs, hone]
      exact turns
    have own : net.Session [waits 0, added] (b.write 1 [6]) :=
      .perform hb (.perform (perform_write ..) .done)
    have other : net.Session [added, waits 0] c :=
      .perform (perform_write ..) (.perform hc .done)
    have hr : ∀ t, m.source.tape? = some t → t < net.tapes.fresh ∧ t ≠ m.output := by
      intro t ht
      rw [hs] at ht
      cases ht
      rw [htwo, ho]
      exact ⟨by decide, by decide⟩
    obtain ⟨hboth, halone⟩ := fork_independent hnet hm hr hl
    obtain ⟨a, ha⟩ := hboth.2 ⟨⟨_, own⟩, _, other⟩
    obtain ⟨x, y, -, -, -, -, hwx, hwy, -⟩ := halone a _ _ ha own other
    rw [ho, hvb] at hwx
    rw [ho, htwo, hvc] at hwy
    exact ⟨hnet, turns, a, ha, hwx, hwy⟩
  have built {net net₁ : Network} (memory : Memory)
      (h₁ : (({} : Network).addCopies memory 1).perform 0 (.addTape #[5]) = some (net₁, none))
      (h₂ : net₁.perform 0 (.wire 0 1) = some (net, none)) : net.Built :=
    .perform (.perform (Built.empty.addCopies memory 1) h₁) h₂
  exact told (built _ rfl rfl) rfl rfl rfl rfl rfl rfl rfl rfl rfl

end Network
end Intcode
