import NolusMoneyMarket.Lease.Steady

/-! # The range a policy does not close in

The limits of a close policy cut a range of loan-to-values from both sides. What
is left are exactly the loan-to-values of the range at which neither of the
strategies is triggered, as the check of the policy on amounts does it. -/

set_option autoImplicit false

namespace Nolus.LeaseNoClose
open Nolus.Fallible Nolus.Fraction Nolus.Ranges
open Nolus.LeasePosition Nolus.LeaseSteady

variable {ε : Type}

def strategyAt (policy : Policy) (t : ℕ) : Option Strategy :=
  ((policy.stopLoss.filter fun sl => sl ≤ t).map .stopLoss).or
    ((policy.takeProfit.filter fun tp => t < tp).map .takeProfit)

theorem strategyAt_none (policy : Policy) (t : ℕ) :
    strategyAt policy t = none ↔
      (∀ tp ∈ policy.takeProfit, tp ≤ t) ∧ ∀ sl ∈ policy.stopLoss, t < sl := by
  simp only [strategyAt, Option.or_eq_none_iff, Option.map_eq_none_iff,
    Option.filter_eq_none_iff, decide_eq_true_eq, not_le, not_lt]
  exact and_comm

theorem noClose_untriggered (policy : Policy) (during : Ascending ℕ) (t : ℕ) :
    (policy.noClose during).Contains t ↔ during.Contains t ∧ strategyAt policy t = none := by
  rw [strategyAt_none]
  rcases policy with ⟨_ | tp, _ | sl⟩
  · simp [Policy.noClose]
  · simp [Policy.noClose, contains_cutFrom]
  · simp [Policy.noClose, contains_cutTo]
  · simp [Policy.noClose, contains_cutFrom, contains_cutTo, and_assoc]

/-! ## Positions at a loan-to-value -/

/-- The due is exactly that part of the asset, and a permille of the asset is not below a unit. -/
structure AtLtv (asset d t : ℕ) : Prop where
  exact_part : d * hundred = asset * t
  divisible : hundred ≤ asset

theorem hundred_pos : 0 < hundred := by decide

theorem portion_le_iff (asset d t limit : ℕ) (h : AtLtv asset d t) :
    portion asset limit ≤ d ↔ limit ≤ t := by
  have hpos := hundred_pos
  constructor
  · intro hle
    by_contra hlt
    have hnext : asset * (t + 1) ≤ asset * limit := Nat.mul_le_mul_left asset (by omega)
    have hfloor : asset * limit < (d + 1) * hundred :=
      (Nat.div_lt_iff_lt_mul hpos).1 (Nat.lt_succ_of_le hle)
    have hexact := h.exact_part
    have hdivisible := h.divisible
    rw [Nat.mul_succ] at hnext
    rw [Nat.succ_mul] at hfloor
    omega
  · intro hle
    have hportion := portion_mono asset hle
    have hd : portion asset t = d := by
      rw [portion, Ratio.part, percent, ← h.exact_part, Nat.mul_div_cancel d hpos]
    rwa [hd] at hportion

theorem strategyOf_atLtv (policy : Policy) (asset d t : ℕ) (h : AtLtv asset d t) :
    strategyOf policy asset d = strategyAt policy t := by
  have hle : ∀ limit, portion asset limit ≤ d ↔ limit ≤ t := fun limit =>
    portion_le_iff asset d t limit h
  have hlt : ∀ limit, d < portion asset limit ↔ t < limit := fun limit => by
    rw [← not_le, hle limit, not_le]
  simp only [strategyOf, strategyAt, hle, hlt]

theorem mayTrigger_atLtv (policy : Policy) (asset d t : ℕ) (strategy : Option Strategy)
    (h : AtLtv asset d t) (ht : (policy.mayTrigger asset d : Outcome ε _) = .ok strategy) :
    strategy = strategyAt policy t := by
  rw [evaluates_ok _ _ _ (mayTrigger_evaluates policy asset d) ht]
  exact strategyOf_atLtv policy asset d t h

theorem mayTrigger_hundred (policy : Policy) (t : ℕ)
    (hsl : ∀ sl ∈ policy.stopLoss, sl < 2 ^ percentBits)
    (htp : ∀ tp ∈ policy.takeProfit, tp < 2 ^ percentBits) :
    (policy.mayTrigger hundred t : Outcome ε _) = .ok (strategyAt policy t) := by
  have hat : AtLtv hundred t t := ⟨Nat.mul_comm _ _, le_refl _⟩
  have hportion : ∀ limit, limit < 2 ^ percentBits → portion hundred limit < 2 ^ amountBits := by
    intro limit hlimit
    have heq : portion hundred limit = limit := by
      rw [portion, Ratio.part, percent, Nat.mul_div_cancel_left _ hundred_pos]
    rw [heq]
    exact hlimit.trans (by decide)
  rw [mayTrigger_strategyOf policy hundred t (fun sl he => hportion sl (hsl sl he))
    fun tp he => hportion tp (htp tp he), strategyOf_atLtv policy hundred t t hat]

/-- The cuts of a range are relative complements, and the policy that cuts a range from both
sides leaves the loan-to-values at which the check of a position triggers nothing. -/
theorem noClose_exact {T : Type} [LinearOrder T] (r : Ascending T) (bound v : T)
    (policy : Policy) (during : Ascending ℕ) (t : ℕ) :
    (((r.cutTo bound).Contains v ↔ r.Contains v ∧ bound ≤ v) ∧
      ∀ s ∈ (r.cutTo bound).start, s ≤ (r.cutTo bound).finish) ∧
    (((r.cutFrom bound).Contains v ↔ r.Contains v ∧ v < bound) ∧
      ∀ s ∈ (r.cutFrom bound).start, s ≤ (r.cutFrom bound).finish) ∧
    ((policy.noClose during).Contains t ↔ during.Contains t ∧
      (∀ tp ∈ policy.takeProfit, tp ≤ t) ∧ ∀ sl ∈ policy.stopLoss, t < sl) ∧
    ∀ (asset d : ℕ) (strategy : Option Strategy), AtLtv asset d t →
      (policy.mayTrigger asset d : Outcome ε _) = .ok strategy →
      ((policy.noClose during).Contains t ↔ during.Contains t ∧ strategy = none) := by
  refine ⟨⟨contains_cutTo r bound v, (r.cutTo bound).invariant⟩,
    ⟨contains_cutFrom r bound v, (r.cutFrom bound).invariant⟩, ?_, ?_⟩
  · rw [← strategyAt_none]
    exact noClose_untriggered policy during t
  · intro asset d strategy hat htrigger
    rw [mayTrigger_atLtv policy asset d t strategy hat htrigger]
    exact noClose_untriggered policy during t

def bothLimits : Policy := ⟨some 310, some 820⟩

theorem noClose_exact_both : (bothLimits.noClose (.upTo 900)).Contains 750 :=
  ((noClose_exact (.upTo 900) 310 750 bothLimits (.upTo 900) 750).2.2.2 2000 1500 none
    ⟨by decide, by decide⟩ (rfl : (_ : Outcome Empty _) = _)).2
    ⟨⟨by simp [Ascending.upTo], by decide⟩, rfl⟩

end Nolus.LeaseNoClose
