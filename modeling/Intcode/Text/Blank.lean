/-!
# Intcode.Text.Blank

Blank characters, and cutting a text at its edges and at a separator.

* `isBlank` — the characters with Unicode's `White_Space` property.
* `trim`    — a text without the blanks at its two ends.
* `cut`     — a text up to the first separator, and what comes behind it.
-/

namespace Intcode
namespace Text

/-- The code points with Unicode's `White_Space` property, in order. -/
def blanks : List Nat :=
  [0x09, 0x0A, 0x0B, 0x0C, 0x0D, 0x20, 0x85, 0xA0, 0x1680,
   0x2000, 0x2001, 0x2002, 0x2003, 0x2004, 0x2005, 0x2006, 0x2007, 0x2008, 0x2009, 0x200A,
   0x2028, 0x2029, 0x202F, 0x205F, 0x3000]

/-- A character that separates words and is not seen. -/
def isBlank (c : Char) : Bool :=
  blanks.contains c.toNat

/-- A text without the blanks before its first and after its last other character. -/
def trim (s : List Char) : List Char :=
  ((s.dropWhile isBlank).reverse.dropWhile isBlank).reverse

/-- A text up to the first `sep`, and what comes behind it if there is one. -/
def cut (sep : Char) (s : List Char) : List Char × Option (List Char) :=
  (s.takeWhile (· != sep), (s.dropWhile (· != sep)).tail?)

/-- Every character that is white space in ASCII is blank. -/
theorem isBlank_of_isWhitespace {c : Char} (h : c.isWhitespace = true) : isBlank c = true := by
  simp only [Char.isWhitespace, Bool.or_eq_true, decide_eq_true_eq] at h
  rcases h with ((rfl | rfl) | rfl) | rfl <;> decide

theorem not_mem_of_blank {c : Char} (hc : isBlank c = false) {s : List Char}
    (h : ∀ d ∈ s, isBlank d = true) : c ∉ s := by
  intro hmem
  have hblank := h c hmem
  simp [hc] at hblank

/-- Blanks at its two ends are all that a text loses. -/
theorem exists_eq_trim (s : List Char) :
    ∃ before after, s = before ++ trim s ++ after ∧
      (∀ c ∈ before, isBlank c = true) ∧ ∀ c ∈ after, isBlank c = true := by
  have all {l : List Char} : ∀ c ∈ l.takeWhile isBlank, isBlank c = true :=
    List.all_eq_true.1 List.all_takeWhile
  refine ⟨s.takeWhile isBlank, ((s.dropWhile isBlank).reverse.takeWhile isBlank).reverse, ?_, all,
    fun c hc => all c (List.mem_reverse.1 hc)⟩
  rw [trim, List.append_assoc, ← List.reverse_append, List.takeWhile_append_dropWhile,
    List.reverse_reverse, List.takeWhile_append_dropWhile]

/-- A text that begins and ends with other characters is what is left after trimming. -/
theorem trim_append {before s after : List Char} (hbefore : ∀ c ∈ before, isBlank c = true)
    (hafter : ∀ c ∈ after, isBlank c = true) (hfirst : ∀ c ∈ s.head?, isBlank c = false)
    (hlast : ∀ c ∈ s.getLast?, isBlank c = false) : trim (before ++ s ++ after) = s := by
  have hkeep {l : List Char} (h : ∀ c ∈ l.head?, isBlank c = false) :
      l.dropWhile isBlank = l := by
    cases l with
    | nil => rfl
    | cons c rest => simp [h c (by simp)]
  have hafter' : ∀ c ∈ after.reverse, isBlank c = true := fun c hc =>
    hafter c (List.mem_reverse.1 hc)
  rw [trim, List.append_assoc, List.dropWhile_append_of_pos hbefore]
  cases s with
  | nil =>
    have hnil := @List.dropWhile_append_of_pos _ isBlank after [] hafter
    rw [List.append_nil] at hnil
    simp [hnil]
  | cons c rest =>
    have hc : ∀ d ∈ (c :: (rest ++ after)).head?, isBlank d = false := hfirst
    rw [List.cons_append, hkeep hc, ← List.cons_append, List.reverse_append,
      List.dropWhile_append_of_pos hafter', hkeep (by rwa [List.head?_reverse]),
      List.reverse_reverse]

theorem bne_of_not_mem {sep : Char} {s : List Char} (h : sep ∉ s) :
    ∀ c ∈ s, (c != sep) = true := by
  intro c hc
  rw [bne_iff_ne]
  rintro rfl
  exact h hc

/-- A text without a separator is not cut. -/
theorem cut_of_not_mem {sep : Char} {s : List Char} (h : sep ∉ s) : cut sep s = (s, none) := by
  have htake := @List.takeWhile_append_of_pos _ (· != sep) s [] (bne_of_not_mem h)
  have hdrop := @List.dropWhile_append_of_pos _ (· != sep) s [] (bne_of_not_mem h)
  rw [List.append_nil] at htake hdrop
  simp [cut, htake, hdrop]

/-- A text is cut where its separator comes first. -/
theorem cut_append {sep : Char} {front back : List Char} (h : sep ∉ front) :
    cut sep (front ++ sep :: back) = (front, some back) := by
  rw [cut, List.takeWhile_append_of_pos (bne_of_not_mem h),
    List.dropWhile_append_of_pos (bne_of_not_mem h)]
  simp

end Text
end Intcode
