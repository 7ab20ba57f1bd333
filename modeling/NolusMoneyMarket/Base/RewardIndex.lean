import Mathlib.Algebra.Order.Floor.Semifield
import Mathlib.Data.Rat.Floor
import Mathlib.Tactic

/-! # Reward indexes

An index sums up the rewards for one unit held. An account marks the index at
its last settlement, and since then it is due the difference of two floored
products. What an account has a right to keeps the fraction of the product
too, hence a settlement leaves it alone unless the units held change. -/

set_option autoImplicit false

namespace Nolus.RewardIndex

structure Account where
  held : ℕ
  mark : ℚ
  pending : ℕ

def accrued (held : ℕ) (index : ℚ) : ℕ := ⌊held * index⌋₊

def Account.due (a : Account) (index : ℚ) : ℕ :=
  a.pending + accrued a.held index - accrued a.held a.mark

def Account.Ahead (a : Account) (index : ℚ) : Prop :=
  accrued a.held a.mark ≤ a.pending + accrued a.held index

def Account.right (a : Account) (index : ℚ) : ℚ :=
  max 0 (a.pending + a.held * index - accrued a.held a.mark)

theorem accrued_le (held : ℕ) (index : ℚ) (h : 0 ≤ index) :
    (accrued held index : ℚ) ≤ held * index :=
  Nat.floor_le (mul_nonneg (Nat.cast_nonneg held) h)

theorem lt_accrued (held : ℕ) (index : ℚ) : (held : ℚ) * index < accrued held index + 1 :=
  Nat.lt_floor_add_one _

theorem accrued_mono (held : ℕ) (i j : ℚ) (h : i ≤ j) : accrued held i ≤ accrued held j :=
  Nat.floor_mono (mul_le_mul_of_nonneg_left h (Nat.cast_nonneg held))

theorem ahead_of_mark_le (a : Account) (index : ℚ) (h : a.mark ≤ index) : a.Ahead index := by
  have hm := accrued_mono a.held a.mark index h
  unfold Account.Ahead
  omega

theorem right_nonneg (a : Account) (index : ℚ) : 0 ≤ a.right index := le_max_left _ _

theorem due_le_right (a : Account) (index : ℚ) (h : 0 ≤ index) :
    (a.due index : ℚ) ≤ a.right index := by
  have hf := accrued_le a.held index h
  rcases Nat.le_total (accrued a.held a.mark) (a.pending + accrued a.held index) with hle | hle
  · apply le_trans _ (le_max_right _ _)
    rw [Account.due, Nat.cast_sub hle]
    push_cast
    linarith
  · rw [Account.due, Nat.sub_eq_zero_of_le hle]
    exact_mod_cast right_nonneg a index

theorem right_grows (a : Account) (index next share : ℚ) (hs : 0 ≤ share)
    (h : next ≤ index + share) :
    a.right next ≤ a.right index + a.held * share := by
  have hheld : (0 : ℚ) ≤ a.held := Nat.cast_nonneg _
  have hmul := mul_le_mul_of_nonneg_left h hheld
  have hshare := mul_nonneg hheld hs
  have h0 := right_nonneg a index
  have h1 : a.pending + a.held * index - accrued a.held a.mark ≤ a.right index := le_max_right _ _
  apply max_le
  · linarith
  · linarith

theorem settled_right (held left : ℕ) (index : ℚ) (h : 0 ≤ index) :
    Account.right ⟨held, index, left⟩ index = left + (held * index - accrued held index) := by
  have hf := accrued_le held index h
  have hleft : (0 : ℚ) ≤ left := Nat.cast_nonneg left
  rw [Account.right, max_eq_right]
  · ring
  · simp only
    linarith

theorem settled_same (a : Account) (index : ℚ) (paid : ℕ) (h : 0 ≤ index) (ha : a.Ahead index)
    (hp : paid ≤ a.due index) :
    Account.right ⟨a.held, index, a.due index - paid⟩ index + paid ≤ a.right index := by
  rw [settled_right _ _ _ h, Nat.cast_sub hp]
  have h1 : a.pending + a.held * index - accrued a.held a.mark ≤ a.right index := le_max_right _ _
  have hdue : (a.due index : ℚ) = a.pending + accrued a.held index - accrued a.held a.mark := by
    rw [Account.due, Nat.cast_sub ha]
    push_cast
    ring
  linarith

theorem settled_changed (a : Account) (index : ℚ) (held paid : ℕ) (h : 0 ≤ index)
    (hp : paid ≤ a.due index) :
    Account.right ⟨held, index, a.due index - paid⟩ index + paid ≤ a.right index + 1 := by
  rw [settled_right _ _ _ h, Nat.cast_sub hp]
  have hdue := due_le_right a index h
  have hf := lt_accrued held index
  linarith

end Nolus.RewardIndex
