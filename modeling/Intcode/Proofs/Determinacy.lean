import Mathlib.Logic.Relation
import Intcode.Proofs.Writers

/-!
# Intcode.Proofs.Determinacy

What comes out of a pipeline does not hang on whose turn it is.

A machine moves when it completes an instruction or halts. Moves of two machines can be made in
either order: a move writes to the machine's own tape only, and what is added to a tape does not
change what another machine was about to do. So moves are confluent, and a network that is at rest
has none left.

* `Machine.Moves.more`     : a move is made just so with more to read.
* `Network.moves_diamond`  : two moves of a network can be completed by one another.
* `Network.at_rest_unique` : schedules that end at rest end in the same network.
* `Pipeline.determinate`   : the same of pipelines, and of a pipeline's run.
-/

namespace Intcode

open Relation

namespace Machine

/-- The machine completes an instruction, or it halts. -/
def Moves (t : Tapes) (m : Machine) (t' : Tapes) (m' : Machine) : Prop :=
  m.turn t = (t', m', .completed) ∨
    m.isHalted = false ∧ m.turn t = (t', m', .rested (.ok .haltInstruction))

theorem moves_unique {t t₁ t₂ : Tapes} {m m₁ m₂ : Machine} (h₁ : m.Moves t t₁ m₁)
    (h₂ : m.Moves t t₂ m₂) : t₁ = t₂ ∧ m₁ = m₂ := by
  cases h₁ with
  | inl h₁ =>
    cases h₂ with
    | inl h₂ => rw [h₁] at h₂; cases h₂; exact ⟨rfl, rfl⟩
    | inr h₂ => rw [h₁] at h₂; cases h₂.2
  | inr h₁ =>
    cases h₂ with
    | inl h₂ => rw [h₁.2] at h₂; cases h₂
    | inr h₂ => have h := h₂.2; rw [h₁.2] at h; cases h; exact ⟨rfl, rfl⟩

/-- A machine that rests without a fault has just halted, or it did nothing. -/
theorem moves_or_stays {t t' : Tapes} {m m' : Machine} {reason : HaltReason}
    (h : m.turn t = (t', m', .rested (.ok reason))) :
    m.Moves t t' m' ∨ t' = t ∧ m' = m := by
  by_cases hh : m.isHalted
  · rw [turn_of_halted (by simpa [isHalted] using hh)] at h
    cases h
    exact .inr ⟨rfl, rfl⟩
  · obtain ⟨-, rfl, rfl, -⟩ | ⟨-, -, -, hr⟩ | ⟨fault, -, -, -, hr⟩ := turn_rested_iff.1 h
    · exact .inr ⟨rfl, rfl⟩
    · cases hr
      exact .inl (.inr ⟨Bool.eq_false_iff.2 hh, h⟩)
    · cases hr

/-- A move writes one word at most, and it is made just so on tapes that hold more. -/
theorem Moves.more {t t' : Tapes} {m m' : Machine} (h : m.Moves t t' m') :
    m'.output = m.output ∧ ∃ action, t' = m.actOn t action ∧
      ∀ t₁, MoreToRead t m t₁ m → m.Moves t₁ (m.actOn t₁ action) m' := by
  cases h with
  | inl h =>
    obtain ⟨width, action, hp, rfl, rfl⟩ := turn_completed_iff.1 h
    refine ⟨act_output .., action, rfl, fun t₁ hmore => .inl ?_⟩
    have hp₁ := hmore.plan (by rw [hp]; simp)
    rw [hp] at hp₁
    exact turn_completed_iff.2 ⟨width, action, hp₁, rfl, rfl⟩
  | inr h =>
    obtain ⟨-, -, -, hr⟩ | ⟨hp, rfl, rfl, -⟩ | ⟨fault, -, -, -, hr⟩ := turn_rested_iff.1 h.2
    · cases hr
    · refine ⟨rfl, .pass, rfl, fun t₁ hmore => .inr ⟨h.1, ?_⟩⟩
      have hp₁ := hmore.plan (by rw [hp]; simp)
      rw [hp] at hp₁
      exact turn_rested_iff.2 (.inr (.inl ⟨hp₁, rfl, rfl, rfl⟩))
    · cases hr

/-- What another machine writes is there to be read. -/
theorem MoreToRead.actOn (t : Tapes) (m n : Machine) (action : Action) :
    MoreToRead t m (n.actOn t action) m := by
  cases action with
  | emit w => exact .write t m n.output [w]
  | _ => exact ⟨rfl, fun _ _ h => h⟩

theorem actOn_comm {m n : Machine} (h : m.output ≠ n.output) (t : Tapes) (a b : Action) :
    n.actOn (m.actOn t a) b = m.actOn (n.actOn t b) a := by
  cases a with
  | emit u =>
    cases b with
    | emit v => exact Tapes.push_comm t h u v
    | _ => rfl
  | _ => rfl

/-- Moves of machines with tapes of their own can be made in either order. -/
theorem moves_comm {t t₁ t₂ : Tapes} {m m' n n' : Machine} (h : m.output ≠ n.output)
    (hm : m.Moves t t₁ m') (hn : n.Moves t t₂ n') :
    ∃ t₃, n.Moves t₁ t₃ n' ∧ m.Moves t₂ t₃ m' := by
  obtain ⟨-, a, rfl, ha⟩ := hm.more
  obtain ⟨-, b, rfl, hb⟩ := hn.more
  refine ⟨n.actOn (m.actOn t a) b, hb _ (.actOn ..), ?_⟩
  rw [actOn_comm h]
  exact ha _ (.actOn ..)

theorem AtRest.not_moves {t t' : Tapes} {m m' : Machine} (h : m.AtRest t) : ¬ m.Moves t t' m' := by
  intro hm
  obtain hm | ⟨hh, hm⟩ := hm
  · rw [h.turn] at hm
    cases hm
  · rw [h.turn, restReason, if_neg (by simp [hh])] at hm
    cases hm

end Machine

namespace Network

def Moves (a b : Network) : Prop :=
  ∃ i m t m', a.machine? i = some m ∧ m.Moves a.tapes t m' ∧
    b = { tapes := t, machines := a.machines.set i m' }

theorem Moves.outputs_eq {a b : Network} (h : a.Moves b) : b.outputs = a.outputs := by
  obtain ⟨i, m, t, m', hm, hv, rfl⟩ := h
  exact outputs_set hm hv.more.1

theorem outputs_ne {net : Network} (h : net.outputs.Nodup) {i j : Nat} {m n : Machine}
    (hij : i ≠ j) (hm : net.machine? i = some m) (hn : net.machine? j = some n) :
    m.output ≠ n.output := by
  intro ho
  have hi : net.outputs[i]? = some m.output := by
    rw [outputs, List.getElem?_map]
    exact congrArg (Option.map Machine.output) hm
  have hj : net.outputs[j]? = some n.output := by
    rw [outputs, List.getElem?_map]
    exact congrArg (Option.map Machine.output) hn
  have hlt : i < net.outputs.length := (List.getElem?_eq_some_iff.1 hi).1
  exact hij ((List.getElem?_inj hlt h).1 (by rw [hi, hj, ho]))

/-- **Two moves of a network are the same one, or each can be made after the other.** -/
theorem moves_diamond {a b c : Network} (h : a.outputs.Nodup) (hb : a.Moves b)
    (hc : a.Moves c) : b = c ∨ ∃ d, b.Moves d ∧ c.Moves d := by
  obtain ⟨i, m, t₁, m', hm, hmv, rfl⟩ := hb
  obtain ⟨j, n, t₂, n', hn, hnv, rfl⟩ := hc
  by_cases hij : i = j
  · subst hij
    rw [hm] at hn
    cases hn
    obtain ⟨rfl, rfl⟩ := Machine.moves_unique hmv hnv
    exact .inl rfl
  · obtain ⟨t₃, hn₃, hm₃⟩ := Machine.moves_comm (outputs_ne h hij hm hn) hmv hnv
    refine .inr ⟨{ tapes := t₃, machines := (a.machines.set i m').set j n' }, ?_, ?_⟩
    · exact ⟨j, n, t₃, n', (List.getElem?_set_ne hij).trans hn, hn₃, rfl⟩
    · refine ⟨i, m, t₃, m', (List.getElem?_set_ne (Ne.symm hij)).trans hm, hm₃, ?_⟩
      rw [List.set_comm m' n' hij]

/-- The moves of networks in which each machine has a tape of its own. -/
def SoundMoves (a b : Network) : Prop := a.outputs.Nodup ∧ a.Moves b

theorem confluent {a b c : Network} (hb : ReflTransGen SoundMoves a b)
    (hc : ReflTransGen SoundMoves a c) : Join (ReflTransGen SoundMoves) b c := by
  refine church_rosser (fun a b c hb hc => ?_) hb hc
  have hb' : b.outputs.Nodup := hb.2.outputs_eq ▸ hb.1
  have hc' : c.outputs.Nodup := hc.2.outputs_eq ▸ hc.1
  obtain rfl | ⟨d, hbd, hcd⟩ := moves_diamond hb.1 hb.2 hc.2
  · exact ⟨b, .refl, .refl⟩
  · exact ⟨d, .single ⟨hb', hbd⟩, .single ⟨hc', hcd⟩⟩

theorem AtRest.eq_of_moves {a b : Network} (h : a.AtRest) (hb : ReflTransGen SoundMoves a b) :
    b = a := by
  obtain rfl | ⟨c, ⟨-, i, m, t, m', hm, hv, -⟩, -⟩ := hb.cases_head
  · rfl
  · exact absurd hv (h m (List.mem_of_getElem? hm)).not_moves

/-- What a machine does in a network until it rests is made of moves. -/
theorem moves_of_rests {t : Tapes} {m : Machine}
    {out : Tapes × Machine × Except Error HaltReason} {reason : HaltReason}
    (h : Machine.Rests t m out) (ho : out.2.2 = .ok reason) {ms : List Machine} {i : Nat}
    (hm : ms[i]? = some m) (hd : (ms.map Machine.output).Nodup) :
    ReflTransGen SoundMoves { tapes := t, machines := ms }
      { tapes := out.1, machines := ms.set i out.2.1 } := by
  induction h generalizing ms with
  | @rest t t' m m' r ht =>
    obtain rfl : r = .ok reason := ho
    obtain hv | ⟨rfl, rfl⟩ := Machine.moves_or_stays ht
    · exact .single ⟨hd, i, m, t', m', hm, hv, rfl⟩
    · obtain ⟨hi, rfl⟩ := List.getElem?_eq_some_iff.1 hm
      rw [List.set_getElem_self]
  | @next t t₁ m m₁ out ht _ ih =>
    have hv : m.Moves t t₁ m₁ := .inl ht
    obtain ⟨hi, -⟩ := List.getElem?_eq_some_iff.1 hm
    have hd₁ : ((ms.set i m₁).map Machine.output).Nodup :=
      @outputs_set { tapes := t, machines := ms } i m m₁ hm hv.more.1 ▸ hd
    have hrest := ih ho (List.getElem?_set_self hi) hd₁
    rw [List.set_set] at hrest
    exact .head ⟨hd, i, m, t₁, m₁, hm, hv, rfl⟩ hrest

theorem Schedule.moves {a b : Network} {is : List Nat} (h : a.Schedule is b)
    (hd : a.outputs.Nodup) : ReflTransGen SoundMoves a b := by
  induction h with
  | done => exact .refl
  | @execute net net₁ net₂ i is fuel reason hx _ ih =>
    have hk := execute_keeps hx
    refine ReflTransGen.trans ?_ (ih (hk.outputs ▸ hd))
    obtain ⟨-, -, hr⟩ | ⟨m, t, m', result, hm, hx, rfl, hr⟩ := execute_cases hx
    · cases hr
    · cases hr
      exact moves_of_rests (Machine.rests_of_execute hx) rfl hm hd

/-- Moves from one network that end at rest end in the same network. -/
theorem at_rest_of_moves_unique {net a b : Network} (ha : ReflTransGen SoundMoves net a)
    (ra : a.AtRest) (hb : ReflTransGen SoundMoves net b) (rb : b.AtRest) : b = a := by
  obtain ⟨c, hac, hbc⟩ := confluent ha hb
  exact (rb.eq_of_moves hbc).symm.trans (ra.eq_of_moves hac)

/-- Schedules of one network that end at rest end in the same network. -/
theorem at_rest_unique {net a b : Network} {is js : List Nat} (h : net.Sound)
    (ha : net.Schedule is a) (ra : a.AtRest) (hb : net.Schedule js b) (rb : b.AtRest) :
    b = a :=
  at_rest_of_moves_unique (ha.moves h.apart) ra (hb.moves h.apart) rb

end Network

namespace Pipeline

/-- **What comes out of a pipeline does not hang on whose turn it is.** All schedules that end at
rest end in one network, and so does a run that ends without a fault. -/
theorem determinate {p : Pipeline} (hp : p.Made) :
    (∀ is js a b, p.network.Schedule is a → a.AtRest → p.network.Schedule js b → b.AtRest →
      b = a) ∧
    ∀ fuel q report, p.run fuel = some (q, .ok report) →
      q.network.AtRest ∧ ∀ js b, p.network.Schedule js b → b.AtRest → b = q.network := by
  refine ⟨fun is js a b ha ra hb rb => Network.at_rest_unique hp.sound ha ra hb rb,
    fun fuel q report hr => ?_⟩
  obtain ⟨⟨is, hs⟩, hrest⟩ := run_at_rest hr
  exact ⟨hrest, fun js b hb rb => Network.at_rest_unique hp.sound hs hrest hb rb⟩

/-- Two machines in a ring, each of which adds one to the word that it reads. -/
theorem determinate_ring :
    let program := Memory.ofWords #[3, 0, 101, 1, 0, 0, 4, 0, 99] 9
    let m : Machine := { memory := program, source := .tape 1, output := 0 }
    let n : Machine := { memory := program, source := .tape 0, output := 1 }
    let ring : Pipeline := {
      network := { tapes := ⟨#[#[], #[5]]⟩, machines := [m, n] }, topology := .ring }
    let halted (m : Machine) (word : Word) : Machine := { m with
      memory := program.set 0 word, cursor := 1, lastEmitted := some word
      pc := 8, state := .halted, steps := 3 }
    let after : Network := {
      tapes := ⟨#[#[6], #[5, 7]]⟩, machines := [halted m 6, halted n 7] }
    ring.Made ∧ ring.network.Schedule [0, 1] after ∧ after.AtRest ∧
      ∀ js b, ring.network.Schedule js b → b.AtRest → b = after :=
  have made := Made.seed (@made_of_create _ 2 .ring _ rfl) (@rfl _ (seed _ 0 5))
  have halts := @Network.Schedule.execute _ _ _ 0 [1] 4 .haltInstruction rfl
    (@Network.Schedule.execute _ _ _ 1 [] 4 .haltInstruction rfl .done)
  have rests := List.forall_mem_cons.2 ⟨.inl rfl, List.forall_mem_cons.2 ⟨.inl rfl,
    List.forall_mem_nil _⟩⟩
  ⟨made, halts, rests, fun js b hb rb => (determinate made).1 [0, 1] js _ b halts rests hb rb⟩

end Pipeline
end Intcode
