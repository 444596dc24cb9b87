import Intcode.Proofs.Cells
import Mathlib.Data.Finset.Card
import Mathlib.Data.List.Perm.Basic
import Mathlib.Order.Basic

/-!
# Intcode.Proofs.Layouts

Where the cells of a memory are kept, in a closed form.

A word is put beside the others or by itself as the memory stands when it is stored, and each store
can change that for the next one. What never moves is the border from which on a cell is kept by
itself: the cells side by side grow up to the limit only. So the layout can be told from the
addresses that were ever stored at, in whatever order.

* `border_set`          : the border does not move.
* `extent_set`          : what storing one word does to the extent.
* `Laid`                : a layout told from the addresses.
* `layout_of_addresses` : every memory is laid out so, in whatever order the words are stored.
-/

namespace Intcode
namespace Memory

/-! ## The border -/

/-- From here on a cell is kept by itself. -/
def border (m : Memory) : Nat := max m.dense.size m.limit

@[simp] theorem border_set (m : Memory) (a : Address) (w : Word) :
    (m.set a w).border = m.border := by
  rw [border, border, size_dense_set, limit_set]
  split <;> omega

theorem mem_sparse_setAll (m : Memory) (stores : List (Address × Word)) (b : Address) :
    b ∈ (m.setAll stores).sparse ↔
      (b ∈ stores.map Prod.fst ∧ m.border ≤ b.toNat) ∨ b ∈ m.sparse := by
  induction stores generalizing m with
  | nil => simp
  | cons s rest ih =>
    have hset : b ∈ (m.set s.1 s.2).sparse ↔
        (s.1 = b ∧ m.border ≤ s.1.toNat) ∨ b ∈ m.sparse := mem_sparse_set ..
    rw [setAll_cons, ih, border_set, hset, List.map_cons, List.mem_cons]
    constructor
    · rintro (⟨hb, hborder⟩ | ⟨rfl, hborder⟩ | hb)
      · exact .inl ⟨.inr hb, hborder⟩
      · exact .inl ⟨.inl rfl, hborder⟩
      · exact .inr hb
    · rintro (⟨rfl | hb, hborder⟩ | hb)
      · exact .inr (.inl ⟨rfl, hborder⟩)
      · exact .inl ⟨hb, hborder⟩
      · exact .inr (.inr hb)

theorem sparseSize_eq_card (m : Memory) : m.sparseSize = m.sparse.keys.toFinset.card := by
  rw [List.toFinset_card_of_nodup Std.TreeMap.nodup_keys, Std.TreeMap.length_keys]
  rfl

/-! ## The extent -/

theorem extent_le_iff (m : Memory) (n : Nat) :
    m.extent ≤ n ↔
      m.dense.size ≤ n ∧ ∀ a ∈ m.sparse, min (a.toNat + 1) Address.top ≤ n := by
  cases hk : m.sparse.maxKey? with
  | none =>
    have hempty : ∀ a, a ∉ m.sparse := fun a =>
      Std.TreeMap.not_mem_of_isEmpty (Std.TreeMap.maxKey?_eq_none_iff.1 hk)
    simp [extent, hk, hempty]
  | some k =>
    obtain ⟨hmem, hmax⟩ := Std.TreeMap.maxKey?_eq_some_iff_mem_and_forall.1 hk
    simp only [extent, hk, Nat.max_le]
    refine and_congr_right fun _ => ⟨fun hle a ha => ?_, fun h => h k hmem⟩
    have hak : a.toNat ≤ k.toNat := UInt64.le_iff_toNat_le.1 (Std.isLE_compare.1 (hmax a ha))
    omega

theorem extent_ofWords (words : Array Word) (limit : Nat) :
    (ofWords words limit).extent = words.size := by
  simp [ofWords, extent]

/-- A word moves the extent to behind its cell, unless it is there already. -/
theorem extent_set {m : Memory} (h : m.limit ≤ Address.top) (a : Address) (w : Word) :
    (m.set a w).extent = max m.extent (min (a.toNat + 1) Address.top) := by
  refine eq_of_forall_ge_iff fun n => ?_
  rw [Nat.max_le, extent_le_iff, extent_le_iff, size_dense_set]
  simp only [mem_sparse_set]
  constructor
  · rintro ⟨hdense, hsparse⟩
    have hsize : m.dense.size ≤ n := by
      split at hdense <;> omega
    refine ⟨⟨hsize, fun b hb => hsparse b (.inr hb)⟩, ?_⟩
    by_cases ha : max m.dense.size m.limit ≤ a.toNat
    · exact hsparse a (.inl ⟨rfl, ha⟩)
    · -- The word is beside the others, which do not end before it.
      split at hdense <;> omega
  · rintro ⟨⟨hdense, hsparse⟩, ha⟩
    refine ⟨by split <;> omega, ?_⟩
    rintro b (⟨rfl, -⟩ | hb)
    · exact ha
    · exact hsparse b hb

/-! ## Many stores -/

variable {image limit : Nat} {stores stores' : List (Address × Word)} {m m' : Memory}

/-- The memory is laid out as these stores leave it, behind an image of this length. -/
structure Laid (image limit : Nat) (stores : List (Address × Word)) (m : Memory) : Prop where
  dense : m.denseSize =
    ((stores.filter fun s => s.1.toNat < limit).map fun s => s.1.toNat + 1).foldl max image
  sparse : m.sparseSize =
    ((stores.map Prod.fst).toFinset.filter fun a => max image limit ≤ a.toNat).card
  extent : m.extent = (stores.map fun s => min (s.1.toNat + 1) Address.top).foldl max image

theorem denseSize_setAll (m : Memory) (stores : List (Address × Word)) :
    (m.setAll stores).denseSize =
      ((stores.filter fun s => s.1.toNat < m.limit).map fun s => s.1.toNat + 1).foldl max
        m.denseSize := by
  induction stores generalizing m with
  | nil => rfl
  | cons s rest ih =>
    rw [setAll_cons, ih, limit_set, denseSize, size_dense_set, List.filter_cons]
    by_cases hs : s.1.toNat < m.limit
    · simp [hs, denseSize]
    · simp [hs, denseSize]

theorem extent_setAll (h : m.limit ≤ Address.top) (stores : List (Address × Word)) :
    (m.setAll stores).extent =
      (stores.map fun s => min (s.1.toNat + 1) Address.top).foldl max m.extent := by
  induction stores generalizing m with
  | nil => rfl
  | cons s rest ih =>
    rw [setAll_cons, ih (by rwa [limit_set]), extent_set h, List.map_cons, List.foldl_cons]

theorem laid_setAll (image : Array Word) (h : limit ≤ Address.top)
    (stores : List (Address × Word)) :
    Laid image.size limit stores ((ofWords image limit).setAll stores) where
  dense := denseSize_setAll _ stores
  sparse := by
    rw [sparseSize_eq_card]
    congr 1
    ext b
    rw [List.mem_toFinset, Std.TreeMap.mem_keys, mem_sparse_setAll, Finset.mem_filter,
      List.mem_toFinset]
    simp [ofWords, border]
  extent := by rw [extent_setAll h, extent_ofWords]

theorem Laid.perm (h : Laid image limit stores m) (hp : stores.Perm stores') :
    Laid image limit stores' m where
  dense := h.dense.trans (((hp.filter _).map _).foldl_eq image)
  sparse := by rw [h.sparse, List.toFinset_eq_of_perm _ _ (hp.map _)]
  extent := h.extent.trans ((hp.map _).foldl_eq image)

theorem lastStored?_eq_some_iff (h : (stores.map Prod.fst).Nodup) {a : Address} {w : Word} :
    lastStored? stores a = some w ↔ (a, w) ∈ stores := by
  rw [lastStored?, List.lookup_eq_some_iff]
  constructor
  · rintro ⟨later, earlier, hstores, -⟩
    rw [← List.mem_reverse, hstores]
    simp
  · intro hmem
    obtain ⟨later, earlier, hstores⟩ := List.append_of_mem (List.mem_reverse.2 hmem)
    refine ⟨later, earlier, hstores, ?_⟩
    rw [← List.nodup_reverse, ← List.map_reverse, hstores, List.map_append,
      List.nodup_append] at h
    intro p hp
    have hne : p.1 ≠ a := h.2.2 _ (List.mem_map_of_mem hp) _ (by simp)
    exact bne_iff_ne.2 hne.symm

theorem lastStored?_perm (h : (stores.map Prod.fst).Nodup) (hp : stores.Perm stores')
    (a : Address) : lastStored? stores' a = lastStored? stores a := by
  ext w
  rw [lastStored?_eq_some_iff h, lastStored?_eq_some_iff ((hp.map _).nodup h), hp.mem_iff]

/-- **The layout is told by the addresses.** How many cells lie side by side, how many are kept by
themselves and where the memory ends follow from the image, the limit and the addresses that were
stored at. So stores at different addresses can be made in any order, and the extent is the same
with any limit. -/
theorem layout_of_addresses (image : Array Word) (limit : Address) :
    (∀ stores, Laid image.size limit.toNat stores
      ((ofWords image limit.toNat).setAll stores)) ∧
    (∀ stores stores', stores.Perm stores' → (stores.map Prod.fst).Nodup →
      let m := (ofWords image limit.toNat).setAll stores
      let m' := (ofWords image limit.toNat).setAll stores'
      (∀ a, m'.get a = m.get a) ∧ m'.denseSize = m.denseSize ∧ m'.sparseSize = m.sparseSize ∧
        m'.extent = m.extent) ∧
    ∀ (limit' : Address) stores, ((ofWords image limit'.toNat).setAll stores).extent =
      ((ofWords image limit.toNat).setAll stores).extent := by
  have laid (limit : Address) (stores : List (Address × Word)) :=
    laid_setAll image (Nat.le_pred_of_lt limit.toNat_lt_size) stores
  refine ⟨laid limit, fun stores stores' hp hn => ⟨fun a => ?_, ?_⟩, fun limit' stores => ?_⟩
  · rw [get_setAll, get_setAll, lastStored?_perm hn hp]
  · have h := (laid limit stores).perm hp
    have h' := laid limit stores'
    exact ⟨h'.dense.trans h.dense.symm, h'.sparse.trans h.sparse.symm,
      h'.extent.trans h.extent.symm⟩
  · exact (laid limit' stores).extent.trans (laid limit stores).extent.symm

/-- Three words are stored in two orders: at the highest address, below the limit, and behind the
cells that come to lie side by side. -/
theorem layout_of_addresses_reversed :
    let stores : List (Address × Word) := [(18446744073709551615, 4), (3, 5), (9, 7)]
    let m := (ofWords #[1, 2] 6).setAll stores
    let m' := (ofWords #[1, 2] 6).setAll stores.reverse
    stores.Perm stores.reverse ∧ (stores.map Prod.fst).Nodup ∧
      (∀ a, m'.get a = m.get a) ∧ m'.denseSize = 4 ∧ m'.sparseSize = 2 ∧
      m'.extent = Address.top := by
  have told {stores : List (Address × Word)} (hn : (stores.map Prod.fst).Nodup) :=
    (layout_of_addresses #[1, 2] 6).2.1 stores stores.reverse stores.reverse_perm.symm hn
  have laid := (layout_of_addresses #[1, 2] 6).1
    [(9, 7), (3, 5), (18446744073709551615, 4)]
  exact ⟨(List.reverse_perm _).symm, by decide, (told (by decide)).1, laid.dense, laid.sparse,
    laid.extent⟩

end Memory
end Intcode
