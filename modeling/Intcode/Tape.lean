import Intcode.Word

/-!
# Intcode.Tape

Tapes are the sequences of words that machines write and read. A tape only ever grows, at its
end; a reader keeps its own place, so reading changes nothing.

* `Tapes`  — all tapes, each found by its number; a tape never written to is empty.
* `Source` — where a machine reads: words of its own, or a tape that others can write to.

`values_push` and `values_extend` say what writing does to every tape.
-/

namespace Intcode

abbrev TapeId := Nat

/-- All tapes. -/
structure Tapes where
  contents : Array (Array Word) := #[]
deriving Repr, DecidableEq

namespace Tapes

def values (t : Tapes) (i : TapeId) : Array Word := t.contents.getD i #[]

def fresh (t : Tapes) : TapeId := t.contents.size

/-- The tapes with one more that holds `words`; its number is `t.fresh`. -/
def create (t : Tapes) (words : Array Word) : Tapes :=
  { contents := t.contents.push words }

/-- The tapes with `words` written at the end of tape `i`. -/
def extend (t : Tapes) (i : TapeId) (words : List Word) : Tapes :=
  if i < t.contents.size then
    { contents := t.contents.modify i fun held => words.foldl Array.push held }
  else
    { contents := (t.contents ++ Array.replicate (i - t.contents.size) #[]).push words.toArray }

/-- The tapes with one word written at the end of tape `i`. -/
def push (t : Tapes) (i : TapeId) (w : Word) : Tapes := t.extend i [w]

/-- A new tape holds what it was made with; the others are as before. -/
theorem values_create (t : Tapes) (words : Array Word) (j : TapeId) :
    (t.create words).values j = if t.fresh = j then words else t.values j := by
  simp only [values, create, fresh, Array.getD_eq_getD_getElem?, Array.getElem?_push]
  by_cases h : t.contents.size = j
  · simp [h]
  · have h' : ¬ j = t.contents.size := fun e => h e.symm
    simp [h, h']

/-- Writing adds to the end of one tape and leaves the others as they are. -/
theorem values_extend (t : Tapes) (i : TapeId) (words : List Word) (j : TapeId) :
    (t.extend i words).values j =
      if i = j then t.values i ++ words.toArray else t.values j := by
  unfold extend
  split
  · next h =>
    simp only [values, Array.getD_eq_getD_getElem?, Array.getElem?_modify]
    split
    · next hij =>
      subst hij
      simp [h]
    · rfl
  · next h =>
    have gap : t.contents.size ≤ i := Nat.le_of_not_lt h
    simp only [values, Array.getD_eq_getD_getElem?, Array.getElem?_push, Array.getElem?_append,
      Array.size_append, Array.size_replicate, Nat.add_sub_cancel' gap,
      Array.getElem?_replicate]
    by_cases hij : i = j
    · subst hij
      simp [Array.getElem?_eq_none gap]
    · have hji : ¬ j = i := fun e => hij e.symm
      simp only [hji, hij, if_false]
      split
      · rfl
      · next hj =>
        rw [Array.getElem?_eq_none (Nat.le_of_not_lt hj)]
        split <;> rfl

/-- Writing one word adds it to the end of one tape and leaves the others as they are. -/
theorem values_push (t : Tapes) (i : TapeId) (w : Word) (j : TapeId) :
    (t.push i w).values j = if i = j then (t.values i).push w else t.values j := by
  rw [push, values_extend]
  simp

end Tapes

/-- Where a machine reads its input. -/
inductive Source where
  | owned (words : Array Word)
  | tape (id : TapeId)
deriving Repr, DecidableEq

namespace Source

def empty : Source := .owned #[]

def values (tapes : Tapes) : Source → Array Word
  | .owned words => words
  | .tape id => tapes.values id

def get? (s : Source) (tapes : Tapes) (place : Nat) : Option Word := (s.values tapes)[place]?

/-- The tapes and the source after words are added to what the source stands for. -/
def extend (s : Source) (tapes : Tapes) (words : List Word) : Tapes × Source :=
  match s with
  | .owned held => (tapes, .owned (words.foldl Array.push held))
  | .tape id => (tapes.extend id words, .tape id)

def isTape : Source → Bool
  | .owned _ => false
  | .tape _ => true

/-- Added words come after those already there. -/
theorem values_extend (s : Source) (tapes : Tapes) (words : List Word) :
    (s.extend tapes words).2.values (s.extend tapes words).1 =
      s.values tapes ++ words.toArray := by
  cases s with
  | owned held => simp [extend, values]
  | tape id => simp [extend, values, Tapes.values_extend]

end Source
end Intcode
