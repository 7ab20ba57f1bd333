import Mathlib.Algebra.Order.Field.Basic
import Mathlib.Data.Rat.Cast.Order
import Mathlib.Logic.Function.Iterate
import Mathlib.Tactic

/-! # Rounding envelopes

A chain of rounded operations on values of an interval ends in the interval
widened once an operation. One operation moves a value by a share of its size,
measured against one, and downwards in addition by a fixed grain. Dropping the
same number of low bits of both terms of a ratio is such an operation. -/

set_option autoImplicit false

namespace Nolus.Rounding

def below (share grain x : ℚ) : ℚ := x - max 1 x * share - grain

def above (share x : ℚ) : ℚ := x + x * max 1 x * share

variable (share grain : ℚ)

theorem below_le (x : ℚ) (hs : 0 ≤ share) (hg : 0 ≤ grain) : below share grain x ≤ x := by
  have h := mul_nonneg (le_trans zero_le_one (le_max_left 1 x)) hs
  simp only [below]
  linarith

theorem le_above (x : ℚ) (hx : 0 ≤ x) (hs : 0 ≤ share) : x ≤ above share x := by
  have h := mul_nonneg (mul_nonneg hx (le_trans zero_le_one (le_max_left 1 x))) hs
  simp only [above]
  linarith

theorem max_sub_le (x y : ℚ) (h : x ≤ y) : max 1 y - max 1 x ≤ y - x := by
  rcases max_cases 1 y with ⟨hy, _⟩ | ⟨hy, _⟩
  · have hx : (1 : ℚ) ≤ max 1 x := le_max_left 1 x
    linarith
  · have hx : x ≤ max 1 x := le_max_right 1 x
    linarith

theorem below_mono (hs : 0 ≤ share) (hs1 : share ≤ 1) : Monotone (below share grain) := by
  intro x y h
  have hd := max_sub_le x y h
  have h1 : (max 1 y - max 1 x) * share ≤ (y - x) * share := mul_le_mul_of_nonneg_right hd hs
  have h2 : (y - x) * share ≤ (y - x) * 1 := mul_le_mul_of_nonneg_left hs1 (by linarith)
  simp only [below]
  linarith

theorem above_mono (x y : ℚ) (hs : 0 ≤ share) (hx : 0 ≤ x) (h : x ≤ y) :
    above share x ≤ above share y := by
  have hm : x * max 1 x ≤ y * max 1 y :=
    mul_le_mul h (max_le_max le_rfl h) (le_trans zero_le_one (le_max_left 1 x)) (by linarith)
  have := mul_le_mul_of_nonneg_right hm hs
  simp only [above]
  linarith

def low (n : ℕ) (x : ℚ) : ℚ := (below share grain)^[n] x

def high (n : ℕ) (x : ℚ) : ℚ := (above share)^[n] x

@[simp] theorem low_zero (x : ℚ) : low share grain 0 x = x := rfl

@[simp] theorem high_zero (x : ℚ) : high share 0 x = x := rfl

theorem low_succ (n : ℕ) (x : ℚ) :
    low share grain (n + 1) x = below share grain (low share grain n x) :=
  Function.iterate_succ_apply' _ _ _

theorem high_succ (n : ℕ) (x : ℚ) : high share (n + 1) x = above share (high share n x) :=
  Function.iterate_succ_apply' _ _ _

theorem high_nonneg (n : ℕ) (x : ℚ) (hs : 0 ≤ share) (hx : 0 ≤ x) : 0 ≤ high share n x := by
  induction n with
  | zero => exact hx
  | succ n ih =>
    rw [high_succ]
    exact le_trans ih (le_above share _ ih hs)

theorem low_antitone (x : ℚ) (hs : 0 ≤ share) (hg : 0 ≤ grain) :
    Antitone fun n => low share grain n x := by
  apply antitone_nat_of_succ_le
  intro n
  rw [low_succ]
  exact below_le share grain _ hs hg

theorem high_monotone (x : ℚ) (hs : 0 ≤ share) (hx : 0 ≤ x) :
    Monotone fun n => high share n x := by
  apply monotone_nat_of_le_succ
  intro n
  rw [high_succ]
  exact le_above share _ (high_nonneg share n x hs hx) hs

theorem low_ge (n : ℕ) (x : ℚ) (hs : 0 ≤ share) (hg : 0 ≤ grain) :
    x - n * (max 1 x * share + grain) ≤ low share grain n x := by
  induction n with
  | zero => simp
  | succ n ih =>
    have hle : low share grain n x ≤ x := low_antitone share grain x hs hg (Nat.zero_le n)
    have hm : max 1 (low share grain n x) * share ≤ max 1 x * share :=
      mul_le_mul_of_nonneg_right (max_le_max le_rfl hle) hs
    rw [low_succ, below]
    push_cast
    linarith

/-- Upwards the relative cost doubles at most, as long as all the shares add up
to a small part of one. -/
theorem high_le (n : ℕ) (x : ℚ) (hs : 0 ≤ share) (hx : 0 ≤ x)
    (hn : 8 * (n * (max 1 x * share)) ≤ 1) :
    high share n x ≤ x * (1 + 2 * (n * (max 1 x * share))) := by
  induction n with
  | zero => simp
  | succ n ih =>
    push_cast at hn ⊢
    set t := max 1 x * share with ht
    have hm : 1 ≤ max 1 x := le_max_left 1 x
    have ht0 : 0 ≤ t := mul_nonneg (by linarith) hs
    have hb := ih (by linarith)
    have h0 := high_nonneg share n x hs hx
    have htop : high share n x ≤ x * (5 / 4) :=
      le_trans hb (mul_le_mul_of_nonneg_left (by linarith) hx)
    have hmax : max 1 (high share n x) ≤ max 1 x * (5 / 4) := by
      apply max_le
      · linarith
      · exact le_trans htop (mul_le_mul_of_nonneg_right (le_max_right 1 x) (by norm_num))
    have hinc : high share n x * max 1 (high share n x) * share ≤ x * (2 * t) := by
      have h1 : max 1 (high share n x) * share ≤ t * (5 / 4) := by
        have := mul_le_mul_of_nonneg_right hmax hs
        linarith
      calc high share n x * max 1 (high share n x) * share
          = high share n x * (max 1 (high share n x) * share) := by ring
        _ ≤ x * (5 / 4) * (t * (5 / 4)) :=
            mul_le_mul htop h1 (mul_nonneg (le_trans zero_le_one (le_max_left _ _)) hs)
              (by linarith)
        _ ≤ x * (2 * t) := by nlinarith [mul_nonneg hx ht0]
    rw [high_succ, above]
    linarith

theorem below_split (half x y : ℚ) (hx : 0 ≤ x) (hy : 0 ≤ y) (hh : 0 ≤ half) :
    below (half + half) grain (x + y) ≤ below half 0 x + below half 0 y - grain := by
  have h1 : max 1 x ≤ max 1 (x + y) := max_le_max le_rfl (by linarith)
  have h2 : max 1 y ≤ max 1 (x + y) := max_le_max le_rfl (by linarith)
  have h3 := mul_le_mul_of_nonneg_right (add_le_add h1 h2) hh
  simp only [below]
  linarith

theorem above_split (x y : ℚ) (hx : 0 ≤ x) (hy : 0 ≤ y) (hs : 0 ≤ share) :
    above share x + above share y ≤ above share (x + y) := by
  have h1 : x * max 1 x ≤ x * max 1 (x + y) :=
    mul_le_mul_of_nonneg_left (max_le_max le_rfl (by linarith)) hx
  have h2 : y * max 1 y ≤ y * max 1 (x + y) :=
    mul_le_mul_of_nonneg_left (max_le_max le_rfl (by linarith)) hy
  have h3 := mul_le_mul_of_nonneg_right (add_le_add h1 h2) hs
  simp only [above]
  linarith

/-! ## Dropping the low bits of a ratio -/

theorem div_floor_bounds (a k : ℕ) (hk : 0 < k) :
    ((a / k : ℕ) : ℚ) * k ≤ a ∧ (a : ℚ) < ((a / k : ℕ) + 1) * k := by
  constructor
  · exact_mod_cast Nat.div_mul_le_self a k
  · have h := Nat.lt_div_mul_add (a := a) hk
    have h' : a < (a / k + 1) * k := by nlinarith
    exact_mod_cast h'

/-- Of the ratio of truncated terms, upwards within one unit of the denominator. -/
theorem truncated_le (num den unit : ℕ) (hd : 0 < den / unit) :
    ((num / unit : ℕ) : ℚ) / (den / unit : ℕ) ≤
      num / den + num / den * (1 / (den / unit : ℕ)) := by
  have hu : 0 < unit := Nat.pos_of_ne_zero fun h => by simp [h] at hd
  obtain ⟨hn1, _⟩ := div_floor_bounds num unit hu
  obtain ⟨hd1, hd2⟩ := div_floor_bounds den unit hu
  have hdq : (0 : ℚ) < (den / unit : ℕ) := by exact_mod_cast hd
  have huq : (0 : ℚ) < unit := by exact_mod_cast hu
  have hden : (0 : ℚ) < den := lt_of_lt_of_le (mul_pos hdq huq) hd1
  have hx : (num : ℚ) / den + num / den * (1 / (den / unit : ℕ)) =
      num * ((den / unit : ℕ) + 1) / (den * (den / unit : ℕ)) := by
    field_simp
  rw [hx, div_le_div_iff₀ hdq (mul_pos hden hdq)]
  have hsplit : ((num / unit : ℕ) : ℚ) * den ≤ num * ((den / unit : ℕ) + 1) := by
    calc ((num / unit : ℕ) : ℚ) * den
        ≤ (num / unit : ℕ) * (((den / unit : ℕ) + 1) * unit) :=
          mul_le_mul_of_nonneg_left hd2.le (Nat.cast_nonneg _)
      _ = (num / unit : ℕ) * unit * ((den / unit : ℕ) + 1) := by ring
      _ ≤ num * ((den / unit : ℕ) + 1) := mul_le_mul_of_nonneg_right hn1 (by linarith)
  nlinarith

theorem le_truncated (num den unit : ℕ) (hd : 0 < den / unit) :
    (num : ℚ) / den - unit / den ≤ ((num / unit : ℕ) : ℚ) / (den / unit : ℕ) := by
  have hu : 0 < unit := Nat.pos_of_ne_zero fun h => by simp [h] at hd
  obtain ⟨_, hn2⟩ := div_floor_bounds num unit hu
  obtain ⟨hd1, _⟩ := div_floor_bounds den unit hu
  have hdq : (0 : ℚ) < (den / unit : ℕ) := by exact_mod_cast hd
  have huq : (0 : ℚ) < unit := by exact_mod_cast hu
  have hden : (0 : ℚ) < den := lt_of_lt_of_le (mul_pos hdq huq) hd1
  rw [← sub_div, div_le_div_iff₀ hden hdq]
  have hnum : (num : ℚ) - unit ≤ (num / unit : ℕ) * unit := by linarith
  calc ((num : ℚ) - unit) * (den / unit : ℕ)
      ≤ (num / unit : ℕ) * unit * (den / unit : ℕ) :=
        mul_le_mul_of_nonneg_right hnum hdq.le
    _ = (num / unit : ℕ) * ((den / unit : ℕ) * unit) := by ring
    _ ≤ (num / unit : ℕ) * den := mul_le_mul_of_nonneg_left hd1 (Nat.cast_nonneg _)

theorem unit_le (a unit : ℕ) (plenty : ℚ) (hp : 0 < plenty) (hu : 0 < unit)
    (h : plenty ≤ (a / unit : ℕ)) : (unit : ℚ) ≤ a * (1 / plenty) := by
  obtain ⟨h1, _⟩ := div_floor_bounds a unit hu
  rw [mul_one_div, le_div_iff₀ hp]
  have huq : (0 : ℚ) < unit := by exact_mod_cast hu
  nlinarith

/-- The terms lose the bits below a common unit and one of them keeps plenty. -/
theorem dropped_bits (num den unit : ℕ) (plenty exact kept : ℚ) (hp : 0 < plenty)
    (hd : 0 < den / unit) (h : unit = 1 ∨ plenty ≤ (num / unit : ℕ) ∨ plenty ≤ (den / unit : ℕ))
    (hx : exact = num / den) (hk : kept = (num / unit : ℕ) / (den / unit : ℕ)) :
    below (1 / plenty) 0 exact ≤ kept ∧ kept ≤ exact + exact * max 1 kept * (1 / plenty) := by
  have hu : 0 < unit := Nat.pos_of_ne_zero fun h => by simp [h] at hd
  have hw : 0 < 1 / plenty := by positivity
  have hx0 : 0 ≤ exact := hx ▸ by positivity
  have hden : (0 : ℚ) < den := by
    have : 0 < den := lt_of_lt_of_le hd (Nat.div_le_self _ _)
    exact_mod_cast this
  have hdq : (0 : ℚ) < (den / unit : ℕ) := by exact_mod_cast hd
  have hlow := le_truncated num den unit hd
  have hhigh := truncated_le num den unit hd
  rw [← hx, ← hk] at hlow hhigh
  have hmx : 1 * (1 / plenty) ≤ max 1 exact * (1 / plenty) :=
    mul_le_mul_of_nonneg_right (le_max_left 1 exact) hw.le
  have hmx' : exact * (1 / plenty) ≤ max 1 exact * (1 / plenty) :=
    mul_le_mul_of_nonneg_right (le_max_right 1 exact) hw.le
  have hmk : exact * 1 * (1 / plenty) ≤ exact * max 1 kept * (1 / plenty) :=
    mul_le_mul_of_nonneg_right (mul_le_mul_of_nonneg_left (le_max_left 1 kept) hx0) hw.le
  simp only [below]
  rcases h with h | h | h
  · have heq : kept = exact := by rw [hk, hx, h, Nat.div_one, Nat.div_one]
    rw [heq] at hmk ⊢
    constructor
    · linarith
    · have := mul_nonneg hx0 hw.le
      linarith
  · -- a long numerator
    have hdrop : (unit : ℚ) / den ≤ exact * (1 / plenty) := by
      rw [hx, div_mul_eq_mul_div]
      exact div_le_div_of_nonneg_right (unit_le num unit plenty hp hu h) hden.le
    have hrel : exact * (1 / (den / unit : ℕ)) ≤ exact * max 1 kept * (1 / plenty) := by
      rw [mul_assoc]
      apply mul_le_mul_of_nonneg_left _ hx0
      have hkp : 1 / ((den / unit : ℕ) : ℚ) ≤ kept * (1 / plenty) := by
        rw [hk, mul_one_div, div_div, div_le_div_iff₀ hdq (mul_pos hdq hp)]
        nlinarith
      exact le_trans hkp (mul_le_mul_of_nonneg_right (le_max_right 1 kept) hw.le)
    constructor <;> linarith
  · -- a long denominator
    have hdrop : (unit : ℚ) / den ≤ 1 / plenty := by
      rw [div_le_iff₀ hden, mul_comm]
      exact unit_le den unit plenty hp hu h
    have hrel : exact * (1 / (den / unit : ℕ)) ≤ exact * (1 / plenty) :=
      mul_le_mul_of_nonneg_left (one_div_le_one_div_of_le hp h) hx0
    constructor <;> linarith

theorem dropped_bits_above (plenty exact kept : ℚ) (hp : 0 < plenty) (hx : 0 ≤ exact)
    (h2 : kept ≤ 2 * exact) (h : kept ≤ exact + exact * max 1 kept * (1 / plenty)) :
    kept ≤ above (1 / plenty + 1 / plenty) exact := by
  have hw : 0 < 1 / plenty := by positivity
  have hm : max 1 kept ≤ 2 * max 1 exact := by
    apply max_le
    · linarith [le_max_left 1 exact]
    · linarith [le_max_right 1 exact]
  have h1 : exact * max 1 kept * (1 / plenty) ≤ exact * (2 * max 1 exact) * (1 / plenty) :=
    mul_le_mul_of_nonneg_right (mul_le_mul_of_nonneg_left hm hx) hw.le
  simp only [above]
  linarith

end Nolus.Rounding
