import Intcode.Error
import Intcode.Word
import Std.Data.TreeMap

/-!
# Intcode.Memory

The memory of a machine: a word at every address, zero where nothing was stored.

The cells from address zero on lie side by side; cells far from there are kept one by one, so
that a program which stores at a high address does not fill all the memory below it. Where a
cell is kept does not show in its value: `get_ofWords` and `get_set` say what every address
holds, whatever the layout.
-/

namespace Intcode

/-- A memory. -/
structure Memory where
  /-- The cells from address zero on that lie side by side. -/
  dense : Array Word
  sparse : Std.TreeMap Address Word
  /-- Cells below this address are put beside the others. -/
  limit : Nat
  /-- No cell is kept in both ways, nor will be. -/
  sparse_high : ∀ a ∈ sparse, dense.size ≤ a.toNat ∧ limit ≤ a.toNat

namespace Memory

def defaultLimit : Nat := 65536

def maxLimit : Nat := 67108864

def checkLimit (limit : Nat) : Except Error Nat :=
  if maxLimit < limit then
    .error <| (Error.configInvalid ("dense limit " ++ Text.decimal limit ++ " exceeds maximum "
      ++ Text.decimal maxLimit)).noting "dense_limit" (Text.decimal limit)
  else .ok limit

/-- The memory that holds `words` from address zero on. They lie side by side, even above the
limit. -/
def ofWords (words : Array Word) (limit : Nat) : Memory where
  dense := words
  sparse := ∅
  limit := limit
  sparse_high := by simp

def get (m : Memory) (a : Address) : Word :=
  if h : a.toNat < m.dense.size then m.dense[a.toNat] else m.sparse.getD a 0

/-- The memory after a word is stored at an address. -/
def set (m : Memory) (a : Address) (w : Word) : Memory :=
  if h : a.toNat < m.dense.size then
    { m with
      dense := m.dense.set a.toNat w h
      sparse_high := by simpa using m.sparse_high }
  else if hl : a.toNat < m.limit then
    { m with
      dense := (m.dense ++ Array.replicate (a.toNat - m.dense.size) 0).push w
      sparse_high := by
        intro b hb
        have := m.sparse_high b hb
        simp only [Array.size_push, Array.size_append, Array.size_replicate]
        omega }
  else
    { m with
      sparse := m.sparse.insert a w
      sparse_high := by
        intro b hb
        rcases Std.TreeMap.mem_insert.1 hb with hab | hb
        · have := Std.LawfulEqCmp.eq_of_compare hab
          subst this
          omega
        · exact m.sparse_high b hb }

/-- The words of `n` cells from an address on. Behind the highest address it is read again. -/
def slice (m : Memory) (start : Address) (n : Nat) : List Word :=
  (List.range n).map fun i => m.get (start.advance i)

/-- One more than the highest address at which a word was stored, but no more than the highest
address there is. -/
def extent (m : Memory) : Nat :=
  match m.sparse.maxKey? with
  | none => m.dense.size
  | some a => max m.dense.size (min (a.toNat + 1) Address.top)

def denseSize (m : Memory) : Nat := m.dense.size

def sparseSize (m : Memory) : Nat := m.sparse.size

/-- At first an address holds the word of the image, or zero behind it. -/
theorem get_ofWords (words : Array Word) (limit : Nat) (a : Address) :
    (ofWords words limit).get a = words.getD a.toNat 0 := by
  simp [get, ofWords, Array.getD]

/-- Below the limit, what does not lie beside the others was never stored. -/
theorem getD_sparse_of_lt (m : Memory) {a : Address} (h : a.toNat < m.limit) :
    m.sparse.getD a 0 = 0 :=
  Std.TreeMap.getD_eq_fallback fun ha => by have := (m.sparse_high a ha).2; omega

/-- An address holds what was stored there last. -/
theorem get_set (m : Memory) (a b : Address) (w : Word) :
    (m.set a w).get b = if a = b then w else m.get b := by
  have inj : a = b ↔ a.toNat = b.toNat := UInt64.toNat_inj.symm
  unfold set
  split
  · simp only [get, Array.size_set, Array.getElem_set, inj]
    split <;> split <;> simp_all
  · next h =>
    split
    · next hl =>
      simp only [get, Array.size_push, Array.size_append, Array.size_replicate,
        Array.getElem_push, Array.getElem_append, Array.getElem_replicate, inj]
      by_cases hab : a.toNat = b.toNat
      · have : ¬ b.toNat < m.dense.size + (a.toNat - m.dense.size) := by omega
        have : b.toNat < m.dense.size + (a.toNat - m.dense.size) + 1 := by omega
        simp_all
      · by_cases hb : b.toNat < m.dense.size
        · have : b.toNat < m.dense.size + (a.toNat - m.dense.size) := by omega
          have : b.toNat < m.dense.size + (a.toNat - m.dense.size) + 1 := by omega
          simp_all
        · by_cases hba : b.toNat < a.toNat
          · have : b.toNat < m.dense.size + (a.toNat - m.dense.size) := by omega
            have : b.toNat < m.dense.size + (a.toNat - m.dense.size) + 1 := by omega
            have := m.getD_sparse_of_lt (a := b) (by omega)
            simp_all
          · have : ¬ b.toNat < m.dense.size + (a.toNat - m.dense.size) + 1 := by omega
            rw [dif_neg this, dif_neg hb, if_neg hab]
    · simp only [get, Std.TreeMap.getD_insert, Std.compare_eq_iff_eq]
      split
      · next hb =>
        have : ¬ a = b := by rw [inj]; omega
        simp [this]
      · rfl

end Memory
end Intcode
