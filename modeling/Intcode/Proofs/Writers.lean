import Mathlib.Data.List.Nodup
import Intcode.Proofs.Passes
import Intcode.Proofs.Tapes

/-!
# Intcode.Proofs.Writers

Who writes to which tape. A network is built by the operations on networks, by picking machines
from a network in any order, and by wiring a network to a pipeline; a pipeline is seeded and run.

* `Network.Built.sound` : however a network is built, each machine has a tape of its own.
* `Pipeline.Made.sound` : the same of a pipeline, whatever was done to it.
-/

namespace Intcode

def Network.outputs (net : Network) : List TapeId := net.machines.map Machine.output

/-- No two machines write to the same tape, and all of their tapes have been made. -/
structure Network.Sound (net : Network) : Prop where
  apart : net.outputs.Nodup
  made : ∀ o ∈ net.outputs, o < net.tapes.fresh

/-- All networks there can be. -/
inductive Network.Built : Network → Prop where
  | empty : Built {}
  | perform {fuel : Nat} {net net' : Network} {op : Operation}
      {r : Option (Except Error HaltReason)} :
      Built net → net.perform fuel op = some (net', r) → Built net'
  | pick {net : Network} {machines : List Machine} :
      Built net → machines.Subperm net.machines → Built { net with machines }
  | wired {net : Network} {topology : Topology} {p : Pipeline} :
      Built net → Pipeline.ofNetwork net topology = .ok p → Built p.network

/-- All pipelines there can be. -/
inductive Pipeline.Made : Pipeline → Prop where
  | wired {net : Network} {topology : Topology} {p : Pipeline} :
      net.Built → ofNetwork net topology = .ok p → Made p
  | seed {p q : Pipeline} {i : Nat} {word : Word} : Made p → p.seed i word = .ok q → Made q
  | seedAll {p q : Pipeline} {words : List Word} :
      Made p → p.seedAll words = .ok q → Made q
  | run {fuel : Nat} {p q : Pipeline} {r : Except Error Report} :
      Made p → p.run fuel = some (q, r) → Made q

/-! ## Machines keep their tapes -/

namespace Machine

theorem turn_output {t t' : Tapes} {m m' : Machine} {r : Turn} (h : m.turn t = (t', m', r)) :
    m'.output = m.output ∧ t.fresh ≤ t'.fresh := by
  rw [turn_eq] at h
  cases hp : m.plan (m.unread? t) with
  | error fault =>
    rw [hp] at h
    cases h
    exact ⟨rfl, Nat.le_refl _⟩
  | ok p =>
    rw [hp] at h
    cases p with
    | act width action =>
      cases h
      refine ⟨act_output .., ?_⟩
      cases action with
      | emit w =>
        rw [actOn, Tapes.push, Tapes.fresh_extend]
        exact Nat.le_max_left ..
      | _ => exact Nat.le_refl _
    | wait =>
      cases h
      exact ⟨rfl, Nat.le_refl _⟩
    | halt =>
      cases h
      exact ⟨rfl, Nat.le_refl _⟩

theorem execute_output {fuel : Nat} {t : Tapes} {m : Machine}
    {out : Tapes × Machine × Except Error HaltReason} (h : execute fuel t m = some out) :
    out.2.1.output = m.output ∧ t.fresh ≤ out.1.fresh := by
  have hr := rests_of_execute h
  clear h
  induction hr with
  | rest ht => exact turn_output ht
  | next ht _ ih =>
    obtain ⟨ho, hf⟩ := turn_output ht
    exact ⟨ih.1.trans ho, Nat.le_trans hf ih.2⟩

theorem feed_output (t : Tapes) (m : Machine) (words : List Word) :
    (m.feed t words).2.output = m.output ∧ t.fresh ≤ (m.feed t words).1.fresh := by
  refine ⟨rfl, ?_⟩
  simp only [feed]
  cases m.source with
  | owned held => exact Nat.le_refl _
  | tape id =>
    rw [Source.extend, Tapes.fresh_extend]
    exact Nat.le_max_left ..

end Machine

/-! ## Networks -/

namespace Network

/-- The same tapes are written to, and none is lost. -/
structure Keeps (net net' : Network) : Prop where
  outputs : net'.outputs = net.outputs
  fresh : net.tapes.fresh ≤ net'.tapes.fresh

theorem Keeps.refl (net : Network) : net.Keeps net := ⟨rfl, Nat.le_refl _⟩

theorem Keeps.trans {a b c : Network} (h : a.Keeps b) (h' : b.Keeps c) : a.Keeps c :=
  ⟨h'.outputs.trans h.outputs, Nat.le_trans h.fresh h'.fresh⟩

theorem Keeps.size {net net' : Network} (h : net.Keeps net') : net'.size = net.size := by
  have hlen := congrArg List.length h.outputs
  rwa [Network.outputs, Network.outputs, List.length_map, List.length_map] at hlen

theorem Sound.keeps {net net' : Network} (h : net.Sound) (hk : net.Keeps net') : net'.Sound := by
  refine ⟨hk.outputs ▸ h.apart, fun o ho => ?_⟩
  rw [hk.outputs] at ho
  exact Nat.lt_of_lt_of_le (h.made o ho) hk.fresh

theorem outputs_set {net : Network} {i : Nat} {m m' : Machine} (hm : net.machine? i = some m)
    (ho : m'.output = m.output) : (net.machines.set i m').map Machine.output = net.outputs := by
  obtain ⟨hi, rfl⟩ := List.getElem?_eq_some_iff.1 hm
  have hi' : i < (net.machines.map Machine.output).length := by rwa [List.length_map]
  rw [List.map_set, ho, ← List.getElem_map Machine.output (h := hi')]
  exact List.set_getElem_self ..

theorem outputs_modify {f : Machine → Machine} (hf : ∀ m, (f m).output = m.output)
    (net : Network) (i : Nat) :
    (net.machines.modify i f).map Machine.output = net.outputs := by
  refine List.ext_getElem? fun j => ?_
  rw [outputs, List.getElem?_map, List.getElem?_map, List.getElem?_modify]
  cases net.machines[j]? with
  | none => rfl
  | some m =>
    split
    · exact congrArg some (hf m)
    · rfl

theorem execute_keeps {fuel : Nat} {net net' : Network} {i : Nat}
    {r : Option (Except Error HaltReason)} (h : net.execute fuel i = some (net', r)) :
    net.Keeps net' := by
  obtain ⟨-, rfl, -⟩ | ⟨m, t, m', result, hm, hx, rfl, -⟩ := execute_cases h
  · exact .refl _
  · obtain ⟨ho, hf⟩ := Machine.execute_output hx
    exact ⟨outputs_set hm ho, hf⟩

theorem feed_keeps (net : Network) (i : Nat) (words : List Word) :
    net.Keeps (net.feed i words) := by
  rw [feed]
  cases hm : net.machine? i with
  | none => exact .refl net
  | some m =>
    obtain ⟨ho, hf⟩ := Machine.feed_output net.tapes m words
    exact ⟨outputs_set hm ho, hf⟩

theorem passFrom_keeps {fuel index : Nat} {t t' : Tapes} {ms ms' : List Machine}
    {r : Except Error (List HaltReason)} (h : passFrom fuel index t ms = some (t', ms', r)) :
    Keeps { tapes := t, machines := ms } { tapes := t', machines := ms' } := by
  induction ms generalizing index t ms' r with
  | nil =>
    cases h
    exact .refl _
  | cons m rest ih =>
    obtain ⟨t₁, m₁, r₁, hx, ⟨e, -, rfl, rfl, -⟩ | ⟨reason, rest₁, reasons, -, hp, rfl, -⟩⟩ :=
      passFrom_cons h
    · obtain ⟨ho, hf⟩ := Machine.execute_output hx
      exact ⟨congrArg (· :: rest.map Machine.output) ho, hf⟩
    · obtain ⟨ho, hf⟩ := Machine.execute_output hx
      obtain ⟨hos, hfs⟩ := ih hp
      exact ⟨congrArg₂ List.cons ho hos, Nat.le_trans hf hfs⟩

/-- A machine is added with a tape that was made for it. -/
theorem Sound.snoc {net : Network} (h : net.Sound) {m : Machine} (hm : m.output = net.tapes.fresh)
    (words : Array Word) :
    Sound { tapes := net.tapes.create words, machines := net.machines ++ [m] } := by
  have ho : outputs { tapes := net.tapes.create words, machines := net.machines ++ [m] } =
      net.outputs ++ [net.tapes.fresh] := by
    rw [outputs, List.map_append, List.map_singleton, hm, outputs]
  refine ⟨?_, fun o hmem => ?_⟩
  · rw [ho, List.nodup_append]
    refine ⟨h.apart, List.nodup_singleton _, fun o hmem o' hmem' => ?_⟩
    rw [List.mem_singleton.1 hmem']
    exact Nat.ne_of_lt (h.made o hmem)
  · rw [Tapes.fresh_create]
    rw [ho, List.mem_append, List.mem_singleton] at hmem
    cases hmem with
    | inl hmem => exact Nat.lt_succ_of_lt (h.made o hmem)
    | inr hmem => exact hmem ▸ Nat.lt_succ_self _

theorem perform_sound {fuel : Nat} {net net' : Network} {op : Operation}
    {r : Option (Except Error HaltReason)} (h : net.Sound)
    (hp : net.perform fuel op = some (net', r)) : net'.Sound := by
  cases op with
  | add memory =>
    cases hp
    exact h.snoc rfl #[]
  | fork i =>
    cases hp
    rw [fork]
    cases hm : net.machine? i with
    | none => exact h
    | some m => exact h.snoc rfl _
  | addTape words =>
    cases hp
    refine h.keeps ⟨rfl, ?_⟩
    rw [addTape, Tapes.fresh_create]
    exact Nat.le_succ _
  | write t words =>
    cases hp
    refine h.keeps ⟨rfl, ?_⟩
    rw [write, Tapes.fresh_extend]
    exact Nat.le_max_left ..
  | feed i words =>
    cases hp
    exact h.keeps (feed_keeps net i words)
  | wire i t =>
    cases hp
    exact h.keeps ⟨outputs_modify (f := (·.wire (.tape t))) (fun _ => rfl) net i, Nat.le_refl _⟩
  | poke i a w =>
    cases hp
    exact h.keeps ⟨outputs_modify (f := (·.poke a w)) (fun _ => rfl) net i, Nat.le_refl _⟩
  | execute i => exact h.keeps (execute_keeps hp)

theorem Sound.pick {net : Network} (h : net.Sound) {machines : List Machine}
    (hs : machines.Subperm net.machines) : Sound { net with machines } := by
  obtain ⟨l, hperm, hsub⟩ := hs
  have hp : (l.map Machine.output).Perm (machines.map Machine.output) := hperm.map _
  have hl : (l.map Machine.output).Sublist net.outputs := hsub.map _
  exact ⟨hp.nodup_iff.1 (h.apart.sublist hl),
    fun o ho => h.made o (hl.subset (hp.mem_iff.2 ho))⟩

end Network

/-! ## Pipelines -/

namespace Pipeline

section Wiring

variable {β : Type} {f : Machine → β}

/-- What does not hang on where machines read is the same after they are wired. -/
theorem map_link (hf : ∀ m source, f (m.wire source) = f m) (feed : TapeId)
    (machines : List Machine) : (link feed machines).map f = machines.map f := by
  induction machines generalizing feed with
  | nil => rfl
  | cons m rest ih => rw [link, List.map_cons, List.map_cons, ih, hf]

theorem map_wire (hf : ∀ m source, f (m.wire source) = f m) (topology : Topology)
    (machines : List Machine) : (wire topology machines).map f = machines.map f := by
  cases machines with
  | nil => rfl
  | cons first rest => cases topology <;> simp [wire, map_link hf, hf]

end Wiring

theorem ofNetwork_eq_ok_iff {net : Network} {topology : Topology} {p : Pipeline} :
    ofNetwork net topology = .ok p ↔
      net.machines ≠ [] ∧
        p = { network := { net with machines := wire topology net.machines }, topology } := by
  rw [ofNetwork]
  split
  · next h => simp [List.isEmpty_iff.1 h]
  · next h =>
    rw [List.isEmpty_iff] at h
    simp [h, eq_comm]

theorem ofNetwork_keeps {net : Network} {topology : Topology} {p : Pipeline}
    (h : ofNetwork net topology = .ok p) : net.Keeps p.network := by
  obtain ⟨-, rfl⟩ := ofNetwork_eq_ok_iff.1 h
  exact ⟨map_wire (fun _ _ => rfl) topology net.machines, Nat.le_refl _⟩

theorem seed_eq_ok_iff {p q : Pipeline} {i : Nat} {word : Word} :
    p.seed i word = .ok q ↔ i < p.size ∧ q = { p with network := p.network.feed i [word] } := by
  rw [seed]
  split
  · next hi => simp [hi, eq_comm]
  · next hi => simp [hi]

theorem seedAll_eq_ok_iff {p q : Pipeline} {words : List Word} :
    p.seedAll words = .ok q ↔
      words.length = p.size ∧ q = { p with network := feedEach p.network 0 words } := by
  rw [seedAll]
  split
  · next hlen => simp [hlen, eq_comm]
  · next hlen => simp [hlen]

theorem seed_keeps {p q : Pipeline} {i : Nat} {word : Word} (h : p.seed i word = .ok q) :
    p.network.Keeps q.network := by
  obtain ⟨-, rfl⟩ := seed_eq_ok_iff.1 h
  exact Network.feed_keeps ..

theorem feedEach_keeps (net : Network) (i : Nat) (words : List Word) :
    net.Keeps (feedEach net i words) := by
  induction words generalizing net i with
  | nil => exact .refl net
  | cons w rest ih => exact (Network.feed_keeps net i [w]).trans (ih ..)

/-- Of the words for the machines from `i` on, the first one is for machine `i`, and the others are
for the machines behind it. -/
theorem share_cons (w : Word) (rest : List Word) (i j : Nat) :
    (if i ≤ j then (w :: rest)[j - i]?.toList else []) =
      (if j = i then [w] else []) ++ if i + 1 ≤ j then rest[j - (i + 1)]?.toList else [] := by
  by_cases hj : j = i
  · subst hj
    have hle : ¬ j + 1 ≤ j := Nat.not_succ_le_self j
    simp [hle]
  · by_cases hle : i + 1 ≤ j
    · have hsub : j - i = j - (i + 1) + 1 := by omega
      have hle' : i ≤ j := by omega
      simp [hj, hle, hle', hsub]
    · have hle' : ¬ i ≤ j := by omega
      simp [hj, hle, hle']

theorem seedAll_keeps {p q : Pipeline} {words : List Word} (h : p.seedAll words = .ok q) :
    p.network.Keeps q.network := by
  obtain ⟨-, rfl⟩ := seedAll_eq_ok_iff.1 h
  exact feedEach_keeps ..

theorem runFrom_keeps {fuel passes limit : Nat} {net net' : Network} {r : Except Error Report}
    (h : runFrom fuel passes net limit = some (net', r)) : net.Keeps net' :=
  runFrom_of_passes .trans (fun hp => Network.passFrom_keeps (Network.pass_eq_some_iff.1 hp)) h

end Pipeline

/-- However a network is built, each of its machines has a tape of its own. -/
theorem Network.Built.sound {net : Network} (h : net.Built) : net.Sound := by
  induction h with
  | empty => exact ⟨List.nodup_nil, List.forall_mem_nil _⟩
  | perform _ hp ih => exact perform_sound ih hp
  | pick _ hs ih => exact ih.pick hs
  | wired _ hp ih => exact ih.keeps (Pipeline.ofNetwork_keeps hp)

theorem Network.Built.addCopies {net : Network} (h : net.Built) (memory : Memory) (count : Nat) :
    (net.addCopies memory count).Built := by
  induction count generalizing net with
  | zero => exact h
  | succ count ih => exact ih (@Built.perform 0 net _ (.add memory) none h rfl)

theorem Pipeline.made_of_create {memory : Memory} {count : Nat} {topology : Topology}
    {p : Pipeline} (h : create memory count topology = .ok p) : p.Made :=
  .wired (Network.Built.empty.addCopies memory count) h

/-- Whatever is done to a pipeline, each of its machines has a tape of its own. -/
theorem Pipeline.Made.sound {p : Pipeline} (h : p.Made) : p.network.Sound := by
  induction h with
  | wired hb hp => exact hb.sound.keeps (ofNetwork_keeps hp)
  | seed _ hs ih => exact ih.keeps (seed_keeps hs)
  | seedAll _ hs ih => exact ih.keeps (seedAll_keeps hs)
  | run _ hr ih => exact ih.keeps (runFrom_keeps (run_eq_some_iff.1 hr).1)

end Intcode
