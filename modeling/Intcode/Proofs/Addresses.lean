import Mathlib.Algebra.Group.Nat.Defs
import Mathlib.Algebra.Group.Int.Defs
import Intcode.Proofs.Plan

/-!
# Intcode.Proofs.Addresses

Words as addresses, in exact integers: which cell a word names, which one a relative parameter
names, and where the parameters of an instruction lie. Only addresses below `2 ^ 63` can be named
by a word.
-/

namespace Intcode
namespace Word

theorem address?_eq_some_iff {w : Word} {a : Address} :
    w.address? = some a ↔ (a.toNat : Int) = w.toInt := by
  rw [address?]
  by_cases h : w.toInt < 0
  · rw [if_pos h]
    constructor
    · intro h'
      cases h'
    · intro h'
      omega
  · have hw : (w.toUInt64.toNat : Int) = w.toInt := by
      rw [Int64.toNat_toUInt64_of_le (Int64.le_iff_toInt_le.2 (by simpa using h))]
      exact Int.toNat_of_nonneg (by omega)
    rw [if_neg h, Option.some_inj, ← UInt64.toNat_inj, ← hw, Int.natCast_inj, eq_comm]

theorem address_eq_ok_iff {w : Word} {a : Address} :
    w.address = .ok a ↔ (a.toNat : Int) = w.toInt := by
  rw [← address?_eq_some_iff, address]
  cases w.address? with
  | none => simp
  | some b => simp

theorem exactSum?_eq_some_iff {a b s : Word} :
    a.exactSum? b = some s ↔ s.toInt = a.toInt + b.toInt := by
  have hlt := s.toInt_lt
  have hle := s.le_toInt
  have hmin := Int64.toInt_minValue
  have hmax := Int64.toInt_maxValue
  unfold exactSum?
  by_cases h : a.toInt + b.toInt < Int64.minValue.toInt ∨
      Int64.maxValue.toInt < a.toInt + b.toInt
  · rw [if_pos h]
    constructor
    · intro h'
      cases h'
    · intro h'
      omega
  · have hs : (Int64.ofInt (a.toInt + b.toInt)).toInt = a.toInt + b.toInt :=
      Int64.toInt_ofInt_of_le (by omega) (by omega)
    rw [if_neg h, Option.some_inj, ← Int64.toInt_inj, hs, eq_comm]

end Word

namespace Machine

theorem cell_eq_ok_iff {m : Machine} {p w : Word} :
    m.cell p = .ok w ↔ ∃ a : Address, (a.toNat : Int) = p.toInt ∧ m.memory.get a = w := by
  rw [cell]
  constructor
  · intro h
    cases ha : Word.address p with
    | error fault => rw [ha] at h; cases h
    | ok a =>
      rw [ha] at h
      cases h
      exact ⟨a, Word.address_eq_ok_iff.1 ha, rfl⟩
  · rintro ⟨a, ha, rfl⟩
    rw [Word.address_eq_ok_iff.2 ha]
    rfl

theorem relativeAddress_eq_ok_iff {m : Machine} {p : Word} {a : Address} :
    m.relativeAddress p = .ok a ↔
      (a.toNat : Int) = p.toInt + m.relativeBase.toInt ∧ a.toNat < 2 ^ 63 := by
  rw [relativeAddress]
  constructor
  · intro h
    cases hs : p.exactSum? m.relativeBase with
    | none => rw [hs] at h; cases h
    | some s =>
      rw [hs] at h
      have ha := Word.address_eq_ok_iff.1 h
      have hlt := s.toInt_lt
      rw [← Word.exactSum?_eq_some_iff.1 hs]
      omega
  · rintro ⟨ha, hlt⟩
    have hs : (Int64.ofInt a.toNat).toInt = a.toNat :=
      Int64.toInt_ofInt_of_le (by omega) (by omega)
    rw [Word.exactSum?_eq_some_iff.2 (hs.trans ha)]
    exact Word.address_eq_ok_iff.2 hs.symm

/-- The cell of a parameter lies behind the instruction word, or beyond the last cell that a
word can name. -/
theorem place_toInt (m : Machine) (i : Fin 3) :
    (m.place i).toInt = m.pc.toInt + (i + 1) ∨
      (m.place i).toInt < 0 ∧ 2 ^ 63 ≤ m.pc.toInt + (i + 1) := by
  have hlt := m.pc.toInt_lt
  have hle := m.pc.le_toInt
  have hi := i.isLt
  have ho : (Int64.ofNat (i + 1)).toInt = i + 1 :=
    Int64.toInt_ofNat_of_lt (by omega)
  rw [place_eq, Int64.toInt_add, ho]
  by_cases h : m.pc.toInt + (i + 1) < 2 ^ 63
  · left
    exact Int.bmod_eq_of_le (by omega) (by omega)
  · right
    have hb : (m.pc.toInt + (i + 1)).bmod (2 ^ 64) = m.pc.toInt + (i + 1) - 2 ^ 64 := by
      rw [← Int.sub_bmod_right]
      exact Int.bmod_eq_of_le (by omega) (by omega)
    omega

end Machine
end Intcode
