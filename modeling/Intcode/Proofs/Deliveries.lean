import Mathlib.Data.List.Infix
import Intcode.Proofs.Calls
import Intcode.Proofs.Effects

/-!
# Intcode.Proofs.Deliveries

What machines read, over any number of executions, while words are added to what they read.

A machine reads the words of its source one after the other, from the place at which it is. Nothing
that is done to a network takes away what there is to be read, so it does not matter when the words
were added, or by whom: from outside, by other machines, or by the machine itself.

* `Machine.Reads`          : a machine comes to another place and reads some words on the way.
* `Machine.Executes.reads` : in an execution it reads the words that its instructions take.
* `Network.Course`         : machines are executed, and words are added.
* `Network.Course.reads`   : each machine reads on, whatever the other machines do.
* `links_deliver`          : the words read are those that stand in the source, in their order.
-/

namespace Intcode

theorem append_prefix_of_drop {α : Type} {xs ys l : List α} (h : xs <+: l)
    (h' : ys <+: l.drop xs.length) : xs ++ ys <+: l := by
  obtain ⟨rest, rfl⟩ := h
  rw [List.drop_left] at h'
  exact (List.prefix_append_right_inj xs).2 h'

theorem Source.values_grow {t t' : Tapes} (h : t.Grows t') (s : Source) :
    (s.values t).toList <+: (s.values t').toList := by
  cases s with
  | owned held => exact List.prefix_rfl
  | tape i => exact h i

namespace Machine

/-- The machine `m` comes to be `m'` and reads the words on the way. They stand in what it reads,
from the place on at which it was. -/
structure Reads (t : Tapes) (m : Machine) (words : List Word) (t' : Tapes) (m' : Machine) :
    Prop where
  cursor : m'.cursor = m.cursor + words.length
  words : words <+: (m'.input t').toList.drop m.cursor
  input : (m.input t).toList <+: (m'.input t').toList
  output : m'.output = m.output
  tape : ∀ i, m.source = .tape i → m'.source = .tape i

namespace Reads

variable {t t' : Tapes} {m m' : Machine} {words : List Word}

theorem trans {t₁ : Tapes} {m₁ : Machine} {more : List Word} (h : m.Reads t words t₁ m₁)
    (h' : m₁.Reads t₁ more t' m') : m.Reads t (words ++ more) t' m' := by
  refine ⟨?_, ?_, h.input.trans h'.input, h'.output.trans h.output,
    fun i hi => h'.tape i (h.tape i hi)⟩
  · rw [h'.cursor, h.cursor, List.length_append, Nat.add_assoc]
  · -- What was read first stays where it stood, and the rest was read from behind it on.
    have hwords : words <+: (m'.input t').toList.drop m.cursor :=
      h.words.trans (h'.input.drop m.cursor)
    have hmore := h'.words
    rw [h.cursor, ← List.drop_drop] at hmore
    exact append_prefix_of_drop hwords hmore

/-- A machine reads nothing while words are added to tapes. -/
theorem of_grows (h : t.Grows t') (m : Machine) : m.Reads t [] t' m :=
  ⟨rfl, List.nil_prefix, m.source.values_grow h, rfl, fun _ hi => hi⟩

theorem refl (t : Tapes) (m : Machine) : m.Reads t [] t m := of_grows (.refl t) m

/-- A machine reads nothing while it is given more words of its own. -/
theorem of_owned {held : Array Word} (h : m.source = .owned held) (t : Tapes)
    (more : Array Word) : m.Reads t [] t (m.wire (.owned (held ++ more))) := by
  refine ⟨rfl, List.nil_prefix, ?_, rfl, fun i hi => ?_⟩
  · show (m.source.values t).toList <+: (held ++ more).toList
    rw [h, Array.toList_append]
    exact List.prefix_append ..
  · rw [h] at hi
    cases hi

theorem eq_extract (h : m.Reads t words t' m') :
    words = ((m'.input t').extract m.cursor m'.cursor).toList := by
  rw [Array.toList_extract, List.extract_eq_take_drop, h.cursor, Nat.add_sub_cancel_left]
  exact List.prefix_iff_eq_take.1 h.words

theorem eq_take (h : m.Reads t words t' m') (hm : m.cursor = 0) :
    words = (m'.input t').toList.take m'.cursor := by
  rw [h.cursor, hm, Nat.zero_add]
  have hwords := h.words
  rw [hm, List.drop_zero] at hwords
  exact List.prefix_iff_eq_take.1 hwords

theorem cursor_le (h : m.Reads t words t' m') (hle : m.cursor ≤ (m.input t).size) :
    m'.cursor ≤ (m'.input t').size := by
  have hcursor := h.cursor
  have hwords := h.words.length_le
  have hinput := h.input.length_le
  simp only [List.length_drop, Array.length_toList] at hwords hinput
  omega

end Reads

/-! ## Executions -/

theorem planOf_eq_take {m : Machine} {u : Option Word} {word : Word} {i : Instruction}
    {width : Nat} {a : Address} {w : Word}
    (h : m.planOf u word i = .ok (.act width (.take a w))) : u = some w := by
  obtain ⟨opcode, modes⟩ := i
  have store {f : Word → Word → Word} {n : Nat}
      (h : (m.planStore word modes f).map (Plan.act n) = .ok (.act width (.take a w))) : False := by
    obtain ⟨x, y, d, -, -, -, ha⟩ := planStore_eq_ok_iff.1 (map_act_eq_ok_iff.1 h).2
    cases ha
  have jump {test : Word → Bool} {n : Nat}
      (h : (m.planJump modes test).map (Plan.act n) = .ok (.act width (.take a w))) : False := by
    obtain ⟨x, target, -, -, ha⟩ := planJump_eq_ok_iff.1 (map_act_eq_ok_iff.1 h).2
    split at ha <;> cases ha
  cases opcode with
  | add => exact (store h).elim
  | multiply => exact (store h).elim
  | lessThan => exact (store h).elim
  | equals => exact (store h).elim
  | storeInput =>
    cases u with
    | none => cases h
    | some value =>
      obtain ⟨d, -, ha⟩ := bind_eq_ok_iff.1 (map_act_eq_ok_iff.1 h).2
      cases ha
      rfl
  | output =>
    obtain ⟨x, -, ha⟩ := bind_eq_ok_iff.1 (map_act_eq_ok_iff.1 h).2
    cases ha
  | jumpIfTrue => exact (jump h).elim
  | jumpIfFalse => exact (jump h).elim
  | adjustRelativeBase =>
    obtain ⟨x, -, ha⟩ := bind_eq_ok_iff.1 (map_act_eq_ok_iff.1 h).2
    cases ha
  | halt => cases h

/-- An instruction takes the next word of the source, and no other. -/
theorem plan_eq_take {m : Machine} {u : Option Word} {width : Nat} {a : Address} {w : Word}
    (h : m.plan u = .ok (.act width (.take a w))) : u = some w := by
  by_cases hh : m.isHalted
  · rw [plan, if_pos hh] at h
    cases h
  · obtain ⟨word, i, -, -, hp⟩ | ⟨fault, hp⟩ := plan_cases (Bool.eq_false_iff.2 hh)
    · rw [hp] at h
      exact planOf_eq_take h
    · rw [hp] at h
      cases h

theorem actOn_grows (m : Machine) (t : Tapes) (action : Action) :
    t.Grows (m.actOn t action) := by
  cases action with
  | emit w => exact (t.adds_extend m.output [w]).grows
  | _ => exact .refl t

theorem reads_of_plan {t : Tapes} {m : Machine} {width : Nat} {action : Action}
    (hp : m.plan (m.unread? t) = .ok (.act width action)) :
    m.Reads t action.taken?.toList (m.actOn t action) (m.act width action) := by
  refine ⟨act_cursor m width action, ?_, ?_, act_output m width action, ?_⟩
  · cases action with
    | take a w =>
      have hu : (m.source.values t)[m.cursor]? = some w := plan_eq_take hp
      obtain ⟨hlt, hw⟩ := Array.getElem?_eq_some_iff.1 hu
      show [w] <+: (m.source.values t).toList.drop m.cursor
      rw [List.drop_eq_getElem_cons (by simpa using hlt), Array.getElem_toList, hw]
      exact ⟨_, rfl⟩
    | _ => exact List.nil_prefix
  · rw [input, input, act_source]
    exact m.source.values_grow (m.actOn_grows t action)
  · intro i hi
    rw [act_source, hi]

theorem Completes.reads {t : Tapes} {m : Machine} {h : History} (hc : m.Completes t h) :
    m.Reads t h.taken (m.replayOn t h) (m.replay h) := by
  induction hc with
  | @nil t m => exact .refl t m
  | @cons t m width action rest hp _ ih =>
    rw [History.taken_cons]
    exact (reads_of_plan hp).trans ih

/-- The machine is executed: it completes the instructions of the history and then rests. This is
what `execute` does, see `exists_executes_iff`. -/
structure Executes (t : Tapes) (m : Machine) (h : History) (t' : Tapes) (m' : Machine)
    (r : Except Error HaltReason) : Prop where
  completes : m.Completes t h
  rests : (m.replay h).turn (m.replayOn t h) = (t', m', .rested r)

theorem exists_executes_iff {t t' : Tapes} {m m' : Machine} {r : Except Error HaltReason} :
    (∃ fuel, execute fuel t m = some (t', m', r)) ↔ ∃ h, m.Executes t h t' m' r := by
  constructor
  · rintro ⟨fuel, hx⟩
    obtain ⟨h, -, hc, hr⟩ := execute_eq_some_iff.1 hx
    exact ⟨h, hc, hr⟩
  · rintro ⟨h, hc, hr⟩
    exact ⟨h.length + 1, execute_eq_some_iff.2 ⟨h, Nat.lt_succ_self _, hc, hr⟩⟩

/-- The turn in which the machine rests reads nothing. -/
theorem Executes.reads {t t' : Tapes} {m m' : Machine} {h : History}
    {r : Except Error HaltReason} (hx : m.Executes t h t' m' r) :
    m.Reads t h.taken t' m' := by
  obtain ⟨hcursor, hwords, hinput, houtput, htape⟩ := hx.completes.reads
  obtain ⟨rfl, hm⟩ := turn_rested hx.rests
  rw [hm]
  exact ⟨hcursor, hwords, hinput, houtput, htape⟩

end Machine

/-! ## Networks -/

namespace Network

/-- Machines are executed, and words are added to what machines read and to tapes. Told are the
executions, the first one first: which machine it was, and what it completed. -/
inductive Course : Network → List (Nat × History) → Network → Prop where
  | done {net : Network} : Course net [] net
  | execute {net net' : Network} {es : List (Nat × History)} {i : Nat} {m m' : Machine}
      {t : Tapes} {h : History} {r : Except Error HaltReason} :
      Course net es net' → net'.machine? i = some m → m.Executes net'.tapes h t m' r →
      Course net (es ++ [(i, h)]) { tapes := t, machines := net'.machines.set i m' }
  | feed {net net' : Network} {es : List (Nat × History)} {i : Nat} {words : List Word} :
      Course net es net' → Course net es (net'.feed i words)
  | write {net net' : Network} {es : List (Nat × History)} {t : TapeId} {words : List Word} :
      Course net es net' → Course net es (net'.write t words)

/-- The words that machine `i` read in the executions. -/
def readBy (i : Nat) (es : List (Nat × History)) : List Word :=
  es.flatMap fun e => if e.1 = i then e.2.taken else []

theorem readBy_append (i : Nat) (es es' : List (Nat × History)) :
    readBy i (es ++ es') = readBy i es ++ readBy i es' :=
  List.flatMap_append ..

theorem readBy_self (i : Nat) (h : History) : readBy i [(i, h)] = h.taken := by
  simp [readBy]

theorem readBy_other {i j : Nat} (hij : j ≠ i) (h : History) : readBy i [(j, h)] = [] := by
  simp [readBy, hij]

theorem Course.trans {a b c : Network} {es es' : List (Nat × History)} (h : a.Course es b)
    (h' : b.Course es' c) : a.Course (es ++ es') c := by
  induction h' with
  | done => rwa [List.append_nil]
  | execute _ hm hx ih =>
    rw [← List.append_assoc]
    exact .execute ih hm hx
  | feed _ ih => exact .feed ih
  | write _ ih => exact .write ih

/-- While words are added to what some machine reads, no machine reads any, and none is changed but
for words of its own. -/
theorem reads_of_feed {net : Network} {i : Nat} {m : Machine} (hm : net.machine? i = some m)
    (j : Nat) (words : List Word) :
    ∃ m', (net.feed j words).machine? i = some m' ∧
      m.Reads net.tapes [] (net.feed j words).tapes m' ∧ m' = m.wire m'.source := by
  cases hn : net.machine? j with
  | none =>
    rw [feed_of_none hn]
    exact ⟨m, hm, .refl .., rfl⟩
  | some n =>
    cases hs : n.source with
    | owned held =>
      rw [feed_of_owned hn hs]
      by_cases hij : j = i
      · subst hij
        rw [hm] at hn
        cases hn
        exact ⟨_, machine?_set hm _ _, .of_owned hs .., rfl⟩
      · exact ⟨m, (List.getElem?_set_ne hij).trans hm, .refl .., rfl⟩
    | tape t =>
      rw [feed_of_tape hn hs]
      exact ⟨m, hm, .of_grows (net.tapes.adds_extend t words).grows m, rfl⟩

/-- **Each machine reads on, whatever else is done.** -/
theorem Course.reads {net net' : Network} {es : List (Nat × History)} (h : net.Course es net')
    {i : Nat} {m : Machine} (hm : net.machine? i = some m) :
    ∃ m', net'.machine? i = some m' ∧ m.Reads net.tapes (readBy i es) net'.tapes m' := by
  induction h with
  | done => exact ⟨m, hm, .refl ..⟩
  | @execute net₁ es j n n' t history r _ hn hx ih =>
    obtain ⟨m₁, hm₁, hreads⟩ := ih
    rw [readBy_append]
    by_cases hij : j = i
    · subst hij
      rw [hn] at hm₁
      cases hm₁
      rw [readBy_self]
      exact ⟨n', machine?_set hn t n', hreads.trans hx.reads⟩
    · -- The other machine may write to the tape that this one reads.
      have hgrows : net₁.tapes.Grows t := (Machine.did_of_turn hx.rests).adds.grows
      rw [readBy_other hij]
      exact ⟨m₁, (List.getElem?_set_ne hij).trans hm₁, hreads.trans (.of_grows hgrows m₁)⟩
  | @feed net₁ es j words _ ih =>
    obtain ⟨m₁, hm₁, hreads⟩ := ih
    obtain ⟨m', hm', hfed, -⟩ := reads_of_feed hm₁ j words
    have hall := hreads.trans hfed
    rw [List.append_nil] at hall
    exact ⟨m', hm', hall⟩
  | @write net₁ es t words _ ih =>
    obtain ⟨m₁, hm₁, hreads⟩ := ih
    have hall := hreads.trans (.of_grows (net₁.tapes.adds_extend t words).grows m₁)
    rw [List.append_nil] at hall
    exact ⟨m₁, hm₁, hall⟩

/-! ## Passes and runs -/

theorem course_of_execute {fuel i : Nat} {net net' : Network}
    {r : Option (Except Error HaltReason)} (h : net.execute fuel i = some (net', r)) :
    ∃ es, net.Course es net' := by
  obtain ⟨-, rfl, -⟩ | ⟨m, t, m', result, hm, hx, rfl, -⟩ := execute_cases h
  · exact ⟨[], .done⟩
  · obtain ⟨history, hx⟩ := Machine.exists_executes_iff.1 ⟨fuel, hx⟩
    exact ⟨_, .execute .done hm hx⟩

/-- A pass over the machines behind those in `done` executes them, up to one that faults. -/
theorem course_of_passFrom {fuel index : Nat} {t t' : Tapes} {ms ms' : List Machine}
    {r : Except Error (List HaltReason)} (done : List Machine)
    (h : passFrom fuel index t ms = some (t', ms', r)) :
    ∃ es, Course { tapes := t, machines := done ++ ms } es
      { tapes := t', machines := done ++ ms' } := by
  induction ms generalizing index t ms' r done with
  | nil =>
    cases h
    exact ⟨[], .done⟩
  | cons m rest ih =>
    obtain ⟨t₁, m₁, r₁, hx, ⟨e, -, rfl, rfl, -⟩ | ⟨reason, rest₁, reasons, -, hp, rfl, -⟩⟩ :=
      passFrom_cons h
    · exact course_of_execute (execute_at hx done rest)
    · obtain ⟨es, hes⟩ := course_of_execute (execute_at hx done rest)
      obtain ⟨es', hes'⟩ := ih (done ++ [m₁]) hp
      rw [List.append_assoc, List.append_assoc] at hes'
      exact ⟨es ++ es', hes.trans hes'⟩

theorem course_of_pass {fuel : Nat} {net net' : Network} {r : Except Error (List HaltReason)}
    (h : net.pass fuel = some (net', r)) : ∃ es, net.Course es net' :=
  course_of_passFrom [] (pass_eq_some_iff.1 h)

end Network

namespace Pipeline

open Network

theorem course_of_runFrom {fuel passes limit : Nat} {net net' : Network}
    {r : Except Error Report} (h : runFrom fuel passes net limit = some (net', r)) :
    ∃ es, net.Course es net' := by
  refine runFrom_of_passes (fun hab hbc => ?_) course_of_pass h
  obtain ⟨es, hes⟩ := hab
  obtain ⟨es', hes'⟩ := hbc
  exact ⟨es ++ es', hes.trans hes'⟩

theorem course_of_feedEach (net : Network) (i : Nat) (words : List Word) :
    net.Course [] (feedEach net i words) := by
  induction words generalizing net i with
  | nil => exact .done
  | cons w rest ih => exact (Course.feed .done).trans (ih (net.feed i [w]) (i + 1))

theorem after_course {p q : Pipeline} {fuel : Nat} {c : Call} (h : p.after fuel c = some q) :
    ∃ es, p.network.Course es q.network := by
  obtain ⟨rfl, -⟩ | ⟨j, word, -, rfl, -⟩ | ⟨words, -, rfl, -⟩ | ⟨r, hr, -, -⟩ := after_cases h
  · exact ⟨[], .done⟩
  · exact ⟨[], .feed .done⟩
  · exact ⟨[], course_of_feedEach ..⟩
  · exact course_of_runFrom (run_eq_some_iff.1 hr).1

theorem Calls.course {p q : Pipeline} {cs : List Call} (h : p.Calls cs q) :
    ∃ es, p.network.Course es q.network := by
  induction h with
  | done => exact ⟨[], .done⟩
  | call ha _ ih =>
    obtain ⟨es, hes⟩ := after_course ha
    obtain ⟨es', hes'⟩ := ih
    exact ⟨es ++ es', hes.trans hes'⟩

/-! ## Links -/

theorem source_of_link {feed : TapeId} {ms : List Machine} {i : Nat} {m : Machine}
    (h : (link feed ms)[i]? = some m) :
    ∃ o, (feed :: ms.map Machine.output)[i]? = some o ∧ m.source = .tape o := by
  induction ms generalizing feed i with
  | nil => cases h
  | cons n rest ih =>
    cases i with
    | zero =>
      cases h
      exact ⟨feed, rfl, rfl⟩
    | succ i => exact ih h

theorem source_of_wire {topology : Topology} {ms : List Machine} {i : Nat} {m : Machine}
    (h : (wire topology ms)[i + 1]? = some m) :
    ∃ o, (ms.map Machine.output)[i]? = some o ∧ m.source = .tape o := by
  cases ms with
  | nil => cases h
  | cons first rest => exact source_of_link h

theorem source_of_ring {ms : List Machine} {m : Machine} (h : (wire .ring ms)[0]? = some m) :
    ∃ o, (ms.map Machine.output)[ms.length - 1]? = some o ∧ m.source = .tape o := by
  cases ms with
  | nil => cases h
  | cons first rest =>
    cases h
    refine ⟨((first :: rest).getLast (by simp)).output, ?_, rfl⟩
    rw [List.getElem?_map, ← List.getLast?_eq_getElem?, List.getLast?_eq_some_getLast (by simp)]
    rfl

end Pipeline

namespace Network

/-- Machine `i` reads what machine `j` writes, and has not read anything yet. -/
def Linked (net : Network) (j i : Nat) : Prop :=
  ∃ n m, net.machine? j = some n ∧ net.machine? i = some m ∧ m.source = .tape n.output ∧
    m.cursor = 0

/-- The words that machine `i` read are those that stand on the tape of machine `j`, up to the
place at which machine `i` is. -/
def Delivers (net : Network) (es : List (Nat × History)) (j i : Nat) : Prop :=
  ∃ n m, net.machine? j = some n ∧ net.machine? i = some m ∧
    readBy i es = (net.tapes.values n.output).toList.take m.cursor ∧
    m.cursor ≤ (net.tapes.values n.output).size

theorem Course.delivers {net net' : Network} {es : List (Nat × History)} {i j : Nat}
    (h : net.Course es net') (hl : net.Linked j i) : net'.Delivers es j i := by
  obtain ⟨n, m, hn, hm, hs, hc⟩ := hl
  obtain ⟨n', hn', hwrites⟩ := h.reads hn
  obtain ⟨m', hm', hreads⟩ := h.reads hm
  have hinput : m'.input net'.tapes = net'.tapes.values n'.output := by
    rw [Machine.input, hreads.tape _ hs, hwrites.output]
    rfl
  have htake := hreads.eq_take hc
  have hle := hreads.cursor_le (by rw [hc]; exact Nat.zero_le _)
  rw [hinput] at htake hle
  exact ⟨n', m', hn', hm', htake, hle⟩

end Network

namespace Pipeline

open Network

theorem linked_of_source {p : Pipeline} {i j : Nat} {m : Machine} {o : TapeId}
    (hm : p.network.machine? i = some m) (hc : m.cursor = 0)
    (ho : p.network.outputs[j]? = some o) (hs : m.source = .tape o) :
    p.network.Linked j i := by
  rw [outputs, List.getElem?_map] at ho
  obtain ⟨n, hn, rfl⟩ := Option.map_eq_some_iff.1 ho
  exact ⟨n, m, hn, hm, hs, hc⟩

/-- In a pipeline of machines that have read nothing, every machine but the first is linked to the
one before it; in a ring the first one is linked to the last. -/
theorem linked_of_ofNetwork {net : Network} {topology : Topology} {p : Pipeline}
    (hp : ofNetwork net topology = .ok p) (hc : ∀ m ∈ net.machines, m.cursor = 0) :
    (∀ i, i + 1 < p.size → p.network.Linked i (i + 1)) ∧
      (topology = .ring → p.network.Linked (p.size - 1) 0) := by
  have houtputs := (ofNetwork_keeps hp).outputs
  have hsize := (ofNetwork_keeps hp).size
  obtain ⟨hne, rfl⟩ := ofNetwork_eq_ok_iff.1 hp
  have hlength : (wire topology net.machines).length = net.machines.length := hsize
  have hcursor : ∀ m ∈ wire topology net.machines, m.cursor = 0 := by
    intro m hm
    have hmem : m.cursor ∈ (wire topology net.machines).map Machine.cursor :=
      List.mem_map_of_mem hm
    rw [map_wire (fun _ _ => rfl)] at hmem
    obtain ⟨n, hn, he⟩ := List.mem_map.1 hmem
    rw [← he, hc n hn]
  constructor
  · intro i hi
    obtain ⟨m, hm⟩ : ∃ m, (wire topology net.machines)[i + 1]? = some m :=
      ⟨_, List.getElem?_eq_getElem hi⟩
    obtain ⟨o, ho, hs⟩ := source_of_wire hm
    exact linked_of_source hm (hcursor m (List.mem_of_getElem? hm)) (houtputs ▸ ho) hs
  · rintro rfl
    have hpos : 0 < (wire .ring net.machines).length := by
      rw [hlength]
      exact List.length_pos_iff.2 hne
    obtain ⟨m, hm⟩ : ∃ m, (wire .ring net.machines)[0]? = some m :=
      ⟨_, List.getElem?_eq_getElem hpos⟩
    obtain ⟨o, ho, hs⟩ := source_of_ring hm
    rw [← hlength] at ho
    exact linked_of_source hm (hcursor m (List.mem_of_getElem? hm)) (houtputs ▸ ho) hs

/-- **Every link delivers each word once, and in order.** -/
theorem links_deliver :
    (∀ net net' es i m, Network.Course net es net' → net.machine? i = some m →
      ∃ m', net'.machine? i = some m' ∧
        readBy i es = ((m'.input net'.tapes).extract m.cursor m'.cursor).toList ∧
        m'.cursor = m.cursor + (readBy i es).length ∧
        (m.cursor ≤ (m.input net.tapes).size → m'.cursor ≤ (m'.input net'.tapes).size)) ∧
    (∀ t t' m m' r, Machine.turn t m = (t', m', .rested r) →
      t' = t ∧ m' = { m with state := m'.state }) ∧
    ∀ net topology p q, ofNetwork net topology = .ok p → (∀ m ∈ net.machines, m.cursor = 0) →
      p.Driven q →
        (∃ es, p.network.Course es q.network) ∧
        ∀ es, p.network.Course es q.network →
          (∀ i, i + 1 < q.size → q.network.Delivers es i (i + 1)) ∧
          (topology = .ring → q.network.Delivers es (q.size - 1) 0) := by
  refine ⟨?_, ?_, ?_⟩
  · intro net net' es i m h hm
    obtain ⟨m', hm', hreads⟩ := h.reads hm
    exact ⟨m', hm', hreads.eq_extract, hreads.cursor, hreads.cursor_le⟩
  · intro t t' m m' r h
    exact Machine.turn_rested h
  · rintro net topology p q hp hc ⟨cs, hcs⟩
    obtain ⟨hchain, hring⟩ := linked_of_ofNetwork hp hc
    refine ⟨hcs.course, fun es hes => ⟨fun i hi => ?_, fun ht => ?_⟩⟩
    · exact hes.delivers (hchain i (hcs.size ▸ hi))
    · rw [hcs.size]
      exact hes.delivers (hring ht)

/-- A ring of two machines, each of which adds one to the word that it reads. The word that the
last one writes stands behind the seed, which the first one has read. -/
theorem links_deliver_ring :
    ∃ p q es, create (Memory.ofWords #[3, 0, 101, 1, 0, 0, 4, 0, 99] 9) 2 .ring = .ok p ∧
      p.Driven q ∧ p.network.Course es q.network ∧ q.network.tapes.values 1 = #[5, 7] ∧
      readBy 0 es = [5] ∧ readBy 1 es = [6] := by
  have told {memory : Memory} {p p' q : Pipeline} {report : Report} {m n : Machine}
      (hp : create memory 2 .ring = .ok p) (hs : p.seed 0 5 = .ok p')
      (hr : p'.run 4 = some (q, .ok report)) (hsize : q.size = 2)
      (hms : q.network.machines = [m, n]) (hcs : m.cursor = 1 ∧ n.cursor = 1)
      (hos : m.output = 0 ∧ n.output = 1) (hv : q.network.tapes.values 0 = #[6])
      (hv' : q.network.tapes.values 1 = #[5, 7]) :
      ∃ p q es, create memory 2 .ring = .ok p ∧ p.Driven q ∧ p.network.Course es q.network ∧
        q.network.tapes.values 1 = #[5, 7] ∧ readBy 0 es = [5] ∧ readBy 1 es = [6] := by
    have hd : p.Driven q := ⟨_, .seed hs (.run hr .done)⟩
    have hc : ∀ m ∈ (Network.addCopies {} memory 2).machines, m.cursor = 0 := by
      simp [addCopies, add, Machine.start]
    obtain ⟨⟨es, hes⟩, hall⟩ := links_deliver.2.2 _ _ p q hp hc hd
    obtain ⟨hchain, hring⟩ := hall es hes
    obtain ⟨n₁, m₁, hn₁, hm₁, hread, -⟩ := hring rfl
    obtain ⟨n₂, m₂, hn₂, hm₂, hread', -⟩ := hchain 0 (by rw [hsize]; decide)
    rw [machine?, hms] at hn₁ hm₁ hn₂ hm₂
    rw [hsize] at hn₁
    cases hn₁
    cases hm₁
    cases hn₂
    cases hm₂
    rw [hcs.1, hos.2, hv'] at hread
    rw [hcs.2, hos.1, hv] at hread'
    exact ⟨p, q, es, hp, hd, hes, hv', hread, hread'⟩
  exact told rfl rfl rfl rfl rfl ⟨rfl, rfl⟩ ⟨rfl, rfl⟩ rfl rfl

end Pipeline
end Intcode
