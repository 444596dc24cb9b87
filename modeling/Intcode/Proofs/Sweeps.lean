import Intcode.Proofs.Lines

/-!
# Intcode.Proofs.Sweeps

A listing leaves nothing out and shows nothing twice.

The lines of a listing have different lengths, and the address at which one begins is worked out
from the one before it. The lines lie end to end all the same, from the address asked for to the
extent, and since the extent is an address no sum on the way is too large to be one.

* `Spans`            : lines that lie end to end.
* `Tells`            : a line that says what its cells hold.
* `sweep_partitions` : a listing consists of such lines, and can be taken up at each of them.
-/

namespace Intcode

namespace Memory

/-- The words of `n` cells from `a` on, where all of these have an address. -/
def wordsFrom (m : Memory) (a n : Nat) : List Word :=
  (List.range' a n).map fun b => m.get (UInt64.ofNat b)

@[simp] theorem length_wordsFrom (m : Memory) (a n : Nat) : (m.wordsFrom a n).length = n := by
  simp [wordsFrom]

theorem wordsFrom_append (m : Memory) (a n k : Nat) :
    m.wordsFrom a n ++ m.wordsFrom (a + n) k = m.wordsFrom a (n + k) := by
  rw [wordsFrom, wordsFrom, wordsFrom, ← List.map_append, List.range'_append_1]

/-- Before the highest address, no address is read twice. -/
theorem slice_eq_wordsFrom (m : Memory) (start : Address) {n : Nat}
    (h : start.toNat + n ≤ Address.top) : m.slice start n = m.wordsFrom start.toNat n := by
  rw [slice, wordsFrom, List.range'_eq_map_range, List.map_map]
  refine List.map_congr_left fun i hi => ?_
  have hlt : i < n := List.mem_range.1 hi
  rw [Address.advance, Nat.min_eq_left (by omega)]
  rfl

theorem extent_le_top {m : Memory} (h : m.denseSize ≤ Address.top) : m.extent ≤ Address.top :=
  (m.extent_le_iff _).2 ⟨h, fun _ _ => Nat.min_le_right ..⟩

end Memory

theorem Address.toNat_ofNat {a : Nat} (h : a ≤ top) : (UInt64.ofNat a).toNat = a :=
  UInt64.toNat_ofNat_of_lt' (Nat.lt_succ_of_le h)

namespace Listing

/-- The lines lie end to end from an address on, and the last one ends at `stop`. -/
def Spans (stop : Nat) : Nat → List Line → Prop
  | a, [] => a = stop
  | a, line :: rest => line.address = a ∧ Spans stop (a + line.words.length) rest

/-- The line says what its cells hold, and it ends within the extent. An instruction has all of its
words; a word of data is not one of an instruction that ends within the extent. -/
structure Tells (m : Memory) (line : Line) : Prop where
  words : line.words = m.wordsFrom line.address line.words.length
  within : line.address + line.words.length ≤ m.extent
  code : ∀ a i words, line = .code a i words →
    words.length = i.width ∧ ∃ word rest, words = word :: rest ∧ Instruction.decode word = .ok i
  data : ∀ a word, line = .data a word →
    ∀ i, Instruction.decode word = .ok i → m.extent < a + i.width

variable {m : Memory} {stop a : Nat}

/-! ## One line -/

theorem words_lineAt (ha : a < stop) (hstop : stop ≤ Address.top) :
    (lineAt m stop a).words = m.wordsFrom a (lineAt m stop a).cells := by
  cases hl : lineAt m stop a with
  | code b i words =>
    obtain ⟨-, -, hfits, rfl⟩ := lineAt_eq_code_iff.1 hl
    have htoNat : (UInt64.ofNat a).toNat = a := Address.toNat_ofNat (by omega)
    have hslice := m.slice_eq_wordsFrom (UInt64.ofNat a) (n := i.width) (by omega)
    rwa [htoNat] at hslice
  | data b word =>
    obtain ⟨-, rfl, -⟩ := lineAt_eq_data_iff.1 hl
    rfl

theorem length_words_lineAt (m : Memory) (stop a : Nat) :
    (lineAt m stop a).words.length = (lineAt m stop a).cells := by
  cases hl : lineAt m stop a with
  | code b i words =>
    obtain ⟨-, -, -, rfl⟩ := lineAt_eq_code_iff.1 hl
    simp [Line.words, Line.cells, Memory.slice]
  | data b word => rfl

theorem tells_lineAt (ha : a < m.extent) (htop : m.extent ≤ Address.top) :
    Tells m (lineAt m m.extent a) where
  words := by rw [length_words_lineAt, address_lineAt, words_lineAt ha htop]
  within := by
    rw [length_words_lineAt, address_lineAt]
    exact lineAt_le ha
  code := by
    intro b i words hl
    obtain ⟨-, hi, -, -⟩ := lineAt_eq_code_iff.1 hl
    have hwords := words_lineAt (m := m) ha htop
    rw [hl] at hwords
    replace hwords : words = m.wordsFrom a i.width := hwords
    rw [hwords, Memory.length_wordsFrom]
    -- The first cell of the line is the one whose word was decoded.
    exact ⟨rfl, _, _, rfl, hi⟩
  data := by
    intro b word hl
    obtain ⟨rfl, -, hcut⟩ := lineAt_eq_data_iff.1 hl
    exact hcut

/-! ## All lines -/

theorem spans_upTo (h : a ≤ stop) : Spans stop a (upTo m stop a) := by
  induction a using upTo.induct m stop with
  | case1 a ha line ih =>
    rw [upTo_of_lt ha]
    refine ⟨address_lineAt m stop a, ?_⟩
    rw [length_words_lineAt]
    exact ih (lineAt_le ha)
  | case2 a ha =>
    rw [upTo_of_le (Nat.not_lt.1 ha)]
    exact Nat.le_antisymm h (Nat.not_lt.1 ha)

theorem flatMap_words_upTo (h : a ≤ stop) (hstop : stop ≤ Address.top) :
    (upTo m stop a).flatMap Line.words = m.wordsFrom a (stop - a) := by
  induction a using upTo.induct m stop with
  | case1 a ha line ih =>
    have hle : a + (lineAt m stop a).cells ≤ stop := lineAt_le ha
    have hrest : (lineAt m stop a).cells + (stop - (a + (lineAt m stop a).cells)) = stop - a := by
      omega
    rw [upTo_of_lt ha, List.flatMap_cons, words_lineAt ha hstop, ih hle, Memory.wordsFrom_append]
    exact congrArg (m.wordsFrom a) hrest
  | case2 a ha =>
    rw [upTo_of_le (Nat.not_lt.1 ha), Nat.sub_eq_zero_of_le (Nat.not_lt.1 ha)]
    rfl

/-- **A listing is a partition of the cells.** Its lines lie end to end from the address asked for
to the extent, and together they show the words of a slice. Each line tells what its cells hold.
The sum of its address and its length does not wrap, even where the memory ends at the highest
address. A listing that begins at one of the lines shows what is left.

That an address can count the cells side by side is no more than that they can be stored in one
piece; where it can count those of the image and the limit, it always can (`Parted.bounded`). -/
theorem sweep_partitions {m : Memory} (h : m.denseSize ≤ Address.top) (start : Address) :
    m.extent ≤ Address.top ∧
    (m.extent ≤ start.toNat → sweep m start = []) ∧
    (start.toNat < m.extent → Spans m.extent start.toNat (sweep m start)) ∧
    (sweep m start).flatMap Line.words = m.slice start (m.extent - start.toNat) ∧
    ∀ before line after, sweep m start = before ++ line :: after →
      Tells m line ∧
      (UInt64.ofNat line.address + UInt64.ofNat line.words.length).toNat =
        line.address + line.words.length ∧
      sweep m (UInt64.ofNat line.address) = line :: after := by
  have htop := Memory.extent_le_top h
  refine ⟨htop, upTo_of_le, fun hlt => spans_upTo hlt.le, ?_, fun before line after hl => ?_⟩
  · by_cases hle : start.toNat ≤ m.extent
    · rw [Memory.slice_eq_wordsFrom _ _ (by omega)]
      exact flatMap_words_upTo hle htop
    · have hgt : m.extent ≤ start.toNat := by omega
      rw [sweep, upTo_of_le hgt, Nat.sub_eq_zero_of_le hgt]
      rfl
  · obtain ⟨hlt, hresume⟩ := resume_upTo hl
    have htells : Tells m line := by
      obtain ⟨-, hline, -⟩ := upTo_eq_cons_iff.1 hresume
      exact hline ▸ tells_lineAt hlt htop
    have hwithin := htells.within
    have haddress := Address.toNat_ofNat (hlt.le.trans htop)
    refine ⟨htells, ?_, by rw [sweep, haddress, hresume]⟩
    rw [← UInt64.ofNat_add, Address.toNat_ofNat (by omega)]

/-- The last two cells before the highest address hold the words of a product and of a halt. -/
def atHighestAddress : Memory :=
  (Memory.ofWords #[1, 2] 9).setAll [(18446744073709551613, 1102), (18446744073709551614, 99)]

/-- The product would need more cells than there are, so its word is data. -/
theorem sweep_partitions_atHighestAddress :
    let halt := Line.code 18446744073709551614 ⟨.halt, ⟨.position, .position, .position⟩⟩ [99]
    atHighestAddress.denseSize ≤ Address.top ∧ atHighestAddress.extent = Address.top ∧
      sweep atHighestAddress 18446744073709551613 =
        [.data 18446744073709551613 1102] ++ halt :: [] ∧
      atHighestAddress.slice 18446744073709551613 2 = [1102, 99] ∧
      Tells atHighestAddress halt ∧ sweep atHighestAddress 18446744073709551614 = [halt] := by
  intro halt
  have hsize : atHighestAddress.denseSize ≤ Address.top := by decide
  have hextent : atHighestAddress.extent = Address.top := by
    rw [atHighestAddress, Memory.extent_setAll (by decide), Memory.extent_ofWords]
    decide
  have hsweep : sweep atHighestAddress 18446744073709551613 =
      [.data 18446744073709551613 1102] ++ halt :: [] := by
    rw [sweep, hextent]
    exact upTo_eq_cons (by decide) rfl (upTo_eq_cons (by decide) rfl (upTo_of_le (by decide)))
  obtain ⟨-, -, -, hslice, hlines⟩ := sweep_partitions hsize 18446744073709551613
  obtain ⟨htells, -, hresume⟩ := hlines _ _ _ hsweep
  rw [hsweep, hextent] at hslice
  exact ⟨hsize, hextent, hsweep, hslice.symm, htells, hresume⟩

end Listing
end Intcode
