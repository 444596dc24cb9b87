import Intcode.Proofs.Runs

/-!
# Intcode.Proofs.Resumption

A machine that is fed piece by piece and executed after each piece ends as one that is given all
its input at once.

* `rests_resume`   : where a machine came to rest, it goes on as if it had never stopped.
* `in_chunks_iff`  : any number of chunks come to the same as their concatenation.
-/

namespace Intcode
namespace Machine

theorem feed_owned {t : Tapes} {m : Machine} {held : Array Word} (h : m.source = .owned held)
    (words : List Word) : m.feed t words = (t, m.wire (.owned (held ++ words.toArray))) := by
  simp [feed, h, Source.extend, wire]

theorem MoreToRead.owned {t : Tapes} {m : Machine} {held : Array Word}
    (h : m.source = .owned held) (more : Array Word) :
    MoreToRead t m t (m.wire (.owned (held ++ more))) := by
  refine ⟨rfl, fun k w hk => ?_⟩
  rw [h] at hk
  exact getElem?_append_of_some hk

theorem turn_completed_more {t t' : Tapes} {m m' : Machine} {held : Array Word}
    (h : m.source = .owned held) (more : Array Word) (ht : m.turn t = (t', m', .completed)) :
    m'.source = .owned held ∧
      (m.wire (.owned (held ++ more))).turn t =
        (t', m'.wire (.owned (held ++ more)), .completed) := by
  obtain ⟨width, action, hp, rfl, rfl⟩ := turn_completed_iff.1 ht
  have hp' := (MoreToRead.owned (t := t) h more).plan (by simp [hp])
  rw [hp] at hp'
  refine ⟨(act_source ..).trans h, turn_completed_iff.2 ⟨width, action, hp', ?_, ?_⟩⟩
  · cases action <;> rfl
  · cases action <;> rfl

/-- Where a machine came to rest, it goes on with more input as if it had had it before. -/
theorem rests_resume {t : Tapes} {m : Machine} {held : Array Word}
    {out : Tapes × Machine × Except Error HaltReason} (hr : Rests t m out)
    (h : m.source = .owned held) (more : Array Word) :
    out.2.1.source = .owned held ∧ ∀ out',
      Rests t (m.wire (.owned (held ++ more))) out' ↔
        Rests out.1 (out.2.1.wire (.owned (held ++ more))) out' := by
  induction hr with
  | next ht _ ih =>
    obtain ⟨hs, ht'⟩ := turn_completed_more h more ht
    obtain ⟨hsrc, ih⟩ := ih hs
    exact ⟨hsrc, fun out' => (rests_next_iff ht').trans (ih out')⟩
  | @rest _ t m _ _ ht =>
    obtain ⟨-, rfl, rfl, -⟩ | ⟨hp, rfl, rfl, -⟩ | ⟨-, -, rfl, rfl, -⟩ := turn_rested_iff.1 ht
    · exact ⟨h, fun _ => Iff.rfl⟩
    · -- Both halt here, the one for the first time and the other once more.
      have hp' := (MoreToRead.owned (t := t) h more).plan (by rw [hp]; simp)
      rw [hp] at hp'
      have hl := turn_rested_iff.2 (.inr (.inl ⟨hp', rfl, rfl, rfl⟩))
      have hr := turn_of_halted
        (m := Machine.wire { m with state := .halted } (.owned (held ++ more))) rfl t
      exact ⟨h, fun _ => (rests_rest_iff hl).trans (rests_rest_iff hr).symm⟩
    · exact ⟨h, fun _ => Iff.rfl⟩

/-- A machine that comes to rest with more input comes to rest without it, and no later. -/
theorem exists_execute_of_more {fuel : Nat} {t : Tapes} {m : Machine} {held : Array Word}
    (more : Array Word) {out : Tapes × Machine × Except Error HaltReason}
    (hx : execute fuel t (m.wire (.owned (held ++ more))) = some out)
    (h : m.source = .owned held) : ∃ out₁, execute fuel t m = some out₁ := by
  induction fuel generalizing t m with
  | zero => cases hx
  | succ fuel ih =>
    cases ht : m.turn t with
    | mk t₁ p =>
      obtain ⟨m₁, _ | r⟩ := p
      · obtain ⟨hs, ht₁⟩ := turn_completed_more h more ht
        rw [execute, ht₁] at hx
        rw [execute, ht]
        exact ih hx hs
      · exact ⟨_, by rw [execute, ht]⟩

theorem exists_rests_of_more {t : Tapes} {m : Machine} {held : Array Word} (more : Array Word)
    {out : Tapes × Machine × Except Error HaltReason}
    (hr : Rests t (m.wire (.owned (held ++ more))) out) (h : m.source = .owned held) :
    ∃ out₁, Rests t m out₁ := by
  obtain ⟨fuel, hx⟩ := exists_execute_of_rests hr
  obtain ⟨out₁, hx₁⟩ := exists_execute_of_more more hx h
  exact ⟨out₁, rests_of_execute hx₁⟩

/-- The machine is fed each chunk in turn and executed after it. The outcome is that of the last
execution; those before it may have ended in any way. -/
inductive InChunks : Tapes → Machine → List (List Word) →
    Tapes × Machine × Except Error HaltReason → Prop where
  | last {t : Tapes} {m : Machine} {c : List Word}
      {out : Tapes × Machine × Except Error HaltReason} {fuel : Nat} :
      execute fuel (m.feed t c).1 (m.feed t c).2 = some out → InChunks t m [c] out
  | more {t t₁ : Tapes} {m m₁ : Machine} {c : List Word} {cs : List (List Word)}
      {r : Except Error HaltReason} {out : Tapes × Machine × Except Error HaltReason}
      {fuel : Nat} :
      execute fuel (m.feed t c).1 (m.feed t c).2 = some (t₁, m₁, r) →
      InChunks t₁ m₁ cs out → InChunks t m (c :: cs) out

theorem in_chunks_singleton_iff {t : Tapes} {m : Machine} {c : List Word}
    {out : Tapes × Machine × Except Error HaltReason} :
    InChunks t m [c] out ↔ Rests (m.feed t c).1 (m.feed t c).2 out := by
  rw [← execute_iff]
  constructor
  · intro h
    cases h with
    | last hx => exact ⟨_, hx⟩
    | more _ hn => cases hn
  · rintro ⟨fuel, hx⟩
    exact .last hx

theorem in_chunks_cons_iff {t : Tapes} {m : Machine} {c : List Word} {cs : List (List Word)}
    {out : Tapes × Machine × Except Error HaltReason} (hc : cs ≠ []) :
    InChunks t m (c :: cs) out ↔
      ∃ out₁, Rests (m.feed t c).1 (m.feed t c).2 out₁ ∧ InChunks out₁.1 out₁.2.1 cs out := by
  constructor
  · intro h
    cases h with
    | last => exact absurd rfl hc
    | more hx hn => exact ⟨_, rests_of_execute hx, hn⟩
  · rintro ⟨out₁, hr, hn⟩
    obtain ⟨fuel, hx⟩ := exists_execute_of_rests hr
    exact .more hx hn

/-- **Resumption is transparent.** A machine with words of its own that is fed chunk by chunk,
and executed after each chunk, ends as one that is fed all the chunks and executed once. -/
theorem in_chunks_iff {t : Tapes} {m : Machine} {held : Array Word}
    {chunks : List (List Word)} {out : Tapes × Machine × Except Error HaltReason}
    (h : m.source = .owned held) (hc : chunks ≠ []) :
    InChunks t m chunks out ↔
      ∃ fuel, execute fuel (m.feed t chunks.flatten).1 (m.feed t chunks.flatten).2 = some out := by
  rw [execute_iff]
  induction chunks generalizing t m held with
  | nil => exact absurd rfl hc
  | cons c cs ih =>
    by_cases hcs : cs = []
    · subst hcs
      rw [in_chunks_singleton_iff, List.flatten_cons, List.flatten_nil, List.append_nil]
    · -- `mc` has the first chunk only; with the others too it goes on where `mc` came to rest.
      have hwhole : m.feed t (c :: cs).flatten = (t, (m.wire (.owned (held ++ c.toArray))).wire
          (.owned (held ++ c.toArray ++ cs.flatten.toArray))) := by
        simp [feed_owned h, wire]
      rw [in_chunks_cons_iff hcs, hwhole, feed_owned h]
      have hmc : (m.wire (.owned (held ++ c.toArray))).source = .owned (held ++ c.toArray) := rfl
      constructor
      · rintro ⟨out₁, hr, hn⟩
        obtain ⟨hs, hgo⟩ := rests_resume hr hmc cs.flatten.toArray
        rw [ih hs hcs, feed_owned hs] at hn
        exact (hgo out).2 hn
      · intro hr
        obtain ⟨out₁, hr₁⟩ := exists_rests_of_more _ hr hmc
        obtain ⟨hs, hgo⟩ := rests_resume hr₁ hmc cs.flatten.toArray
        refine ⟨out₁, hr₁, ?_⟩
        rw [ih hs hcs, feed_owned hs]
        exact (hgo out).1 hr

/-- A machine that says two words after the other is given them one at a time. -/
theorem in_chunks_of_two :
    let m := Machine.start (Memory.ofWords #[3, 0, 4, 0, 3, 0, 4, 0, 99] Memory.defaultLimit) 0
    let m' := { m with
      memory := m.memory.set 0 8, source := .owned #[7, 8], cursor := 2, lastEmitted := some 8
      pc := 8, state := .halted, steps := 4 }
    InChunks {} m [[7], [8]] (⟨#[#[7, 8]]⟩, m', .ok .haltInstruction) :=
  (@in_chunks_iff {} _ #[] [[7], [8]] _ rfl (by simp)).2 ⟨6, rfl⟩

end Machine
end Intcode
