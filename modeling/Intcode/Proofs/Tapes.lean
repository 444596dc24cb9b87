import Intcode.Tape

/-!
# Intcode.Proofs.Tapes

Writing to tapes, apart from what they hold.

* `fresh_create`, `fresh_extend` : which tapes have been made.
* `push_comm`                    : words written to two tapes can be written in either order.
* `Source.values_congr`          : which tapes matter to a source.
-/

namespace Intcode
namespace Tapes

theorem ext_values {t t' : Tapes} (hf : t.fresh = t'.fresh)
    (hv : ∀ i, t.values i = t'.values i) : t = t' := by
  obtain ⟨c⟩ := t
  obtain ⟨c'⟩ := t'
  congr 1
  refine Array.ext hf fun i hi hi' => ?_
  have h := hv i
  simp only [values, Array.getD_eq_getD_getElem?, Array.getElem?_eq_getElem hi,
    Array.getElem?_eq_getElem hi', Option.getD_some] at h
  exact h

@[simp] theorem values_fresh (t : Tapes) : t.values t.fresh = #[] := by
  simp [values, fresh]

@[simp] theorem fresh_create (t : Tapes) (words : Array Word) :
    (t.create words).fresh = t.fresh + 1 := by
  simp [fresh, create]

/-- A tape that is written to has been made, and with it those before. -/
@[simp] theorem fresh_extend (t : Tapes) (i : TapeId) (words : List Word) :
    (t.extend i words).fresh = max t.fresh (i + 1) := by
  simp only [fresh, extend]
  split
  · next hi =>
    rw [Array.size_modify]
    exact (Nat.max_eq_left hi).symm
  · next hi =>
    have gap : t.contents.size ≤ i := Nat.le_of_not_lt hi
    rw [Array.size_push, Array.size_append, Array.size_replicate, Nat.add_sub_cancel' gap]
    exact (Nat.max_eq_right (Nat.le_succ_of_le gap)).symm

theorem push_comm (t : Tapes) {i j : TapeId} (h : i ≠ j) (u v : Word) :
    (t.push i u).push j v = (t.push j v).push i u := by
  refine ext_values ?_ fun k => ?_
  · rw [push, push, push, push, fresh_extend, fresh_extend, fresh_extend, fresh_extend]
    exact Nat.max_right_comm ..
  · simp only [values_push]
    split <;> split <;> simp_all

end Tapes

/-- A source holds the same words where the tape holds them that it stands for. -/
theorem Source.values_congr {s : Source} {t t' : Tapes}
    (h : ∀ i, s = .tape i → t.values i = t'.values i) : s.values t = s.values t' := by
  cases s with
  | owned held => rfl
  | tape i => exact h i rfl

end Intcode
