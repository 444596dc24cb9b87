import Intcode.Memory

/-!
# Intcode.Proofs.Cells

What a memory holds after any number of words were stored in it.

Storing a word can move the boundary between the cells that lie side by side and those kept one
by one. `Parted` is what keeps such a move from hiding a cell or bringing back an old one.

* `size_dense_set`, `mem_sparse_set` : what storing one word does to the layout.
* `get_setAll`                       : an address holds the word stored there last.
* `total_map`                        : the same from the first image on, with `Parted` throughout.
-/

namespace Intcode
namespace Memory

/-- The memory after words are stored, first one first. -/
def setAll (m : Memory) (stores : List (Address × Word)) : Memory :=
  stores.foldl (fun m s => m.set s.1 s.2) m

/-- The word that was stored last at an address, if any was. -/
def lastStored? (stores : List (Address × Word)) (a : Address) : Option Word :=
  stores.reverse.lookup a

/-- The cells kept one by one lie behind those side by side and not below the limit, and those
side by side reach behind the limit only where the image did. -/
structure Parted (image : Nat) (m : Memory) : Prop where
  behind : ∀ a ∈ m.sparse, m.dense.size ≤ a.toNat
  high : ∀ a ∈ m.sparse, m.limit ≤ a.toNat
  bounded : m.dense.size ≤ max image m.limit

/-! ## The layout -/

@[simp] theorem limit_set (m : Memory) (a : Address) (w : Word) : (m.set a w).limit = m.limit := by
  unfold set
  split
  · rfl
  · split
    · rfl
    · rfl

/-- Below the limit, the cells side by side grow to hold the new one. -/
theorem size_dense_set (m : Memory) (a : Address) (w : Word) :
    (m.set a w).dense.size =
      if a.toNat < m.limit then max m.dense.size (a.toNat + 1) else m.dense.size := by
  unfold set
  split
  · next h =>
    rw [Array.size_set]
    split
    · omega
    · rfl
  · next h =>
    split
    · simp only [Array.size_push, Array.size_append, Array.size_replicate]
      omega
    · rfl

/-- Only a cell behind those side by side, and not below the limit, is kept by itself. -/
theorem mem_sparse_set (m : Memory) (a b : Address) (w : Word) :
    b ∈ (m.set a w).sparse ↔
      (a = b ∧ max m.dense.size m.limit ≤ a.toNat) ∨ b ∈ m.sparse := by
  unfold set
  split
  · next h =>
    have : ¬ max m.dense.size m.limit ≤ a.toNat := by omega
    simp [this]
  · next h =>
    split
    · next hl =>
      have : ¬ max m.dense.size m.limit ≤ a.toNat := by omega
      simp [this]
    · next hl =>
      have : max m.dense.size m.limit ≤ a.toNat := by omega
      simp [this, Std.TreeMap.mem_insert]

theorem parted_ofWords (words : Array Word) (limit : Nat) :
    Parted words.size (ofWords words limit) := by
  refine ⟨?_, ?_, Nat.le_max_left ..⟩
  · simp [ofWords]
  · simp [ofWords]

/-- A cell that comes to lie beside the others is below the limit, and no cell there is kept by
itself. -/
theorem Parted.set {image : Nat} {m : Memory} (h : m.Parted image) (a : Address) (w : Word) :
    (m.set a w).Parted image := by
  have hsize := m.size_dense_set a w
  have hbound := h.bounded
  refine ⟨fun b hb => ?_, fun b hb => ?_, ?_⟩
  · obtain ⟨rfl, hmax⟩ | hb := (mem_sparse_set m a b w).1 hb
    · rw [hsize]
      split <;> omega
    · have hbehind := h.behind b hb
      have hhigh := h.high b hb
      rw [hsize]
      split <;> omega
  · rw [limit_set]
    obtain ⟨rfl, hmax⟩ | hb := (mem_sparse_set m a b w).1 hb
    · omega
    · exact h.high b hb
  · rw [hsize, limit_set]
    split <;> omega

/-! ## The words -/

@[simp] theorem setAll_nil (m : Memory) : m.setAll [] = m := rfl

@[simp] theorem setAll_cons (m : Memory) (s : Address × Word) (stores : List (Address × Word)) :
    m.setAll (s :: stores) = (m.set s.1 s.2).setAll stores := rfl

theorem setAll_append (m : Memory) (stores more : List (Address × Word)) :
    m.setAll (stores ++ more) = (m.setAll stores).setAll more :=
  List.foldl_append

theorem lastStored?_cons (s : Address × Word) (stores : List (Address × Word)) (a : Address) :
    lastStored? (s :: stores) a =
      (lastStored? stores a).or (if s.1 = a then some s.2 else none) := by
  rw [lastStored?, List.reverse_cons, List.lookup_append, ← lastStored?]
  congr 1
  by_cases h : s.1 = a
  · subst h
    rw [if_pos rfl]
    exact List.lookup_cons_self
  · have h' : (a == s.1) = false := beq_eq_false_iff_ne.2 (Ne.symm h)
    rw [List.lookup_cons, h', List.lookup_nil, if_neg h]

/-- An address holds what was stored there last, or else what it held before. -/
theorem get_setAll (m : Memory) (stores : List (Address × Word)) (a : Address) :
    (m.setAll stores).get a = (lastStored? stores a).getD (m.get a) := by
  induction stores generalizing m with
  | nil => rfl
  | cons s rest ih =>
    rw [setAll_cons, ih, get_set, lastStored?_cons]
    cases lastStored? rest a with
    | some w => rfl
    | none =>
      split
      · rfl
      · rfl

@[simp] theorem limit_setAll (m : Memory) (stores : List (Address × Word)) :
    (m.setAll stores).limit = m.limit := by
  induction stores generalizing m with
  | nil => rfl
  | cons s rest ih => rw [setAll_cons, ih, limit_set]

theorem Parted.setAll {image : Nat} {m : Memory} (h : m.Parted image)
    (stores : List (Address × Word)) : (m.setAll stores).Parted image := by
  induction stores generalizing m with
  | nil => exact h
  | cons s rest ih => exact ih (h.set s.1 s.2)

/-- **A memory is a total map, whatever its layout.** An address holds the word stored there
last; where none was, it holds its word of the image, and zero behind the image. However the
boundary between the two kinds of cells moves, no cell is ever on both sides of it. -/
theorem total_map (image : Array Word) (limit : Nat) :
    (∀ (m : Memory) (a : Address) (w : Word),
      m.Parted image.size → (m.set a w).Parted image.size) ∧
    ∀ stores, ((ofWords image limit).setAll stores).limit = limit ∧
      ((ofWords image limit).setAll stores).Parted image.size ∧
      ∀ a, ((ofWords image limit).setAll stores).get a =
        (lastStored? stores a).getD (image.getD a.toNat 0) := by
  refine ⟨fun m a w h => h.set a w, fun stores => ⟨?_, ?_, fun a => ?_⟩⟩
  · rw [limit_setAll]
    rfl
  · exact (parted_ofWords image limit).setAll stores
  · rw [get_setAll, get_ofWords]

/-- The cell at 9 is kept by itself, also after those side by side have come to end at 6. -/
example : let m := (ofWords #[1, 2] 6).setAll [(9, 4), (3, 5), (5, 7), (9, 8)]
    m.dense.size = 6 ∧ m.get 4 = 0 ∧ m.get 5 = 7 ∧ m.get 9 = 8 := by decide

end Memory
end Intcode
