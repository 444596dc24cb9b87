import Intcode.Proofs.Writers

/-!
# Intcode.Proofs.Calls

What is done with a pipeline as a whole: its machines are given words, and it is run.

A call may be refused, and then nothing has changed. Otherwise it gives words to machines or makes a
run, and a run to the halt does to the pipeline what a run does. What is known of a call is shown
from these cases, and from there of any number of calls.

* `Pipeline.after`       : the pipeline after a call.
* `Pipeline.Calls`       : calls are made, one after the other.
* `Pipeline.Driven`      : some calls are made, whichever they are.
* `Pipeline.Seeded`      : the calls give words and execute nothing.
* `Pipeline.after_cases` : what a call does.
-/

namespace Intcode
namespace Pipeline

/-- What can be done with a pipeline as a whole. -/
inductive Call where
  | seed (i : Nat) (word : Word)
  | seedAll (words : List Word)
  | run
  | runToHalt

/-- The call gives words and executes nothing. -/
def Call.Seeds : Call → Prop
  | .seed .. | .seedAll .. => True
  | .run | .runToHalt => False

/-- The words that machine `i` of a pipeline of some size is given in a call. A call that is refused
gives none. -/
def Call.words (size : Nat) (i : Nat) : Call → List Word
  | .seed j word => if i = j ∧ j < size then [word] else []
  | .seedAll words => if words.length = size then words[i]?.toList else []
  | .run | .runToHalt => []

/-- The pipeline after a call. If the call is refused, nothing has changed; if it comes to an error,
what was done up to there stays done. -/
def after (fuel : Nat) (p : Pipeline) : Call → Option Pipeline
  | .seed i word => some ((p.seed i word).toOption.getD p)
  | .seedAll words => some ((p.seedAll words).toOption.getD p)
  | .run => (p.run fuel).map (·.1)
  | .runToHalt => (p.runToHalt fuel).map (·.1)

/-- The calls are made one after the other. -/
inductive Calls : Pipeline → List Call → Pipeline → Prop where
  | done {p : Pipeline} : Calls p [] p
  | call {p q r : Pipeline} {fuel : Nat} {c : Call} {cs : List Call} :
      p.after fuel c = some q → Calls q cs r → Calls p (c :: cs) r

/-- The pipeline is seeded and run, any number of times. The runs may end in any way. -/
def Driven (p q : Pipeline) : Prop := ∃ cs, p.Calls cs q

/-- The pipeline is seeded, any number of times, by which machine `i` is given the words
`given i`. -/
def Seeded (p q : Pipeline) (given : Nat → List Word) : Prop :=
  ∃ cs, p.Calls cs q ∧ (∀ c ∈ cs, c.Seeds) ∧ given = fun i => cs.flatMap (·.words p.size i)

variable {p q r : Pipeline} {fuel : Nat} {c : Call} {cs : List Call}

theorem Calls.seed {i : Nat} {word : Word} (h : p.seed i word = .ok q) (h' : q.Calls cs r) :
    p.Calls (.seed i word :: cs) r := by
  have ha : p.after 0 (.seed i word) = some q := by
    rw [after, h]
    rfl
  exact .call ha h'

theorem Calls.seedAll {words : List Word} (h : p.seedAll words = .ok q) (h' : q.Calls cs r) :
    p.Calls (.seedAll words :: cs) r := by
  have ha : p.after 0 (.seedAll words) = some q := by
    rw [after, h]
    rfl
  exact .call ha h'

theorem Calls.run {result : Except Error Report} (h : p.run fuel = some (q, result))
    (h' : q.Calls cs r) : p.Calls (.run :: cs) r := by
  have ha : p.after fuel .run = some q := by
    rw [after, h]
    rfl
  exact .call ha h'

theorem Calls.seeded (h : p.Calls cs q) (hcs : ∀ c ∈ cs, c.Seeds) :
    p.Seeded q fun i => cs.flatMap (·.words p.size i) :=
  ⟨cs, h, hcs, rfl⟩

/-- A run to the halt does what a run does, and reports an error of the run. -/
theorem run_of_runToHalt {result : Except Error Report}
    (h : p.runToHalt fuel = some (q, result)) :
    ∃ result', p.run fuel = some (q, result') ∧ ∀ e, result' = .error e → result = .error e := by
  obtain ⟨⟨q', result'⟩, hr, h⟩ := Option.map_eq_some_iff.1 h
  cases h
  refine ⟨result', hr, ?_⟩
  rintro e rfl
  rfl

/-- A call is refused, or it gives words to one machine or to all, or it makes a run. -/
theorem after_cases (h : p.after fuel c = some q) :
    (q = p ∧ ∀ i, c.words p.size i = []) ∨
    (∃ j word, j < p.size ∧ q = { p with network := p.network.feed j [word] } ∧
      ∀ i, c.words p.size i = if i = j then [word] else []) ∨
    (∃ words, words.length = p.size ∧ q = { p with network := feedEach p.network 0 words } ∧
      ∀ i, c.words p.size i = words[i]?.toList) ∨
    ∃ result, p.run fuel = some (q, result) ∧ ¬ c.Seeds ∧ ∀ i, c.words p.size i = [] := by
  cases c with
  | seed j word =>
    cases h
    by_cases hj : j < p.size
    · have hs : p.seed j word = .ok _ := seed_eq_ok_iff.2 ⟨hj, rfl⟩
      rw [hs]
      exact .inr (.inl ⟨j, word, hj, rfl, fun i => by simp [Call.words, hj]⟩)
    · rw [seed, if_neg hj]
      exact .inl ⟨rfl, fun i => by simp [Call.words, hj]⟩
  | seedAll words =>
    cases h
    by_cases hlen : words.length = p.size
    · have hs : p.seedAll words = .ok _ := seedAll_eq_ok_iff.2 ⟨hlen, rfl⟩
      rw [hs]
      exact .inr (.inr (.inl ⟨words, hlen, rfl, fun i => by simp [Call.words, hlen]⟩))
    · rw [seedAll, if_neg hlen]
      exact .inl ⟨rfl, fun i => by simp [Call.words, hlen]⟩
  | run =>
    obtain ⟨⟨q, result⟩, hr, rfl⟩ := Option.map_eq_some_iff.1 h
    exact .inr (.inr (.inr ⟨result, hr, id, fun _ => rfl⟩))
  | runToHalt =>
    obtain ⟨⟨q, result⟩, hr, rfl⟩ := Option.map_eq_some_iff.1 h
    obtain ⟨result', hr', -⟩ := run_of_runToHalt hr
    exact .inr (.inr (.inr ⟨result', hr', id, fun _ => rfl⟩))

/-! ## What stays, whatever is done -/

theorem after_keeps (h : p.after fuel c = some q) :
    q.topology = p.topology ∧ p.network.Keeps q.network := by
  obtain ⟨rfl, -⟩ | ⟨j, word, -, rfl, -⟩ | ⟨words, -, rfl, -⟩ | ⟨result, hr, -, -⟩ := after_cases h
  · exact ⟨rfl, .refl _⟩
  · exact ⟨rfl, Network.feed_keeps ..⟩
  · exact ⟨rfl, feedEach_keeps ..⟩
  · obtain ⟨hr, ht⟩ := run_eq_some_iff.1 hr
    exact ⟨ht, runFrom_keeps hr⟩

theorem Calls.keeps (h : p.Calls cs q) : q.topology = p.topology ∧ p.network.Keeps q.network := by
  induction h with
  | done => exact ⟨rfl, .refl _⟩
  | call ha _ ih =>
    obtain ⟨ht, hk⟩ := after_keeps ha
    exact ⟨ih.1.trans ht, hk.trans ih.2⟩

theorem Calls.size (h : p.Calls cs q) : q.size = p.size := h.keeps.2.size

theorem after_made (hp : p.Made) (h : p.after fuel c = some q) : q.Made := by
  obtain ⟨rfl, -⟩ | ⟨j, word, hj, rfl, -⟩ | ⟨words, hlen, rfl, -⟩ | ⟨result, hr, -, -⟩ :=
    after_cases h
  · exact hp
  · exact .seed hp (seed_eq_ok_iff.2 ⟨hj, rfl⟩)
  · exact .seedAll hp (seedAll_eq_ok_iff.2 ⟨hlen, rfl⟩)
  · exact .run hp hr

theorem Calls.made (h : p.Calls cs q) (hp : p.Made) : q.Made := by
  induction h with
  | done => exact hp
  | call ha _ ih => exact ih (after_made hp ha)

end Pipeline
end Intcode
