import NolusMoneyMarket.Finance.Liability

/-! # The amount to liquidate

Between the maximum and the whole, the amount solves `due - amount = healthy of
(lease - amount)`. It is floored twice: the healthy part of the lease first,
the amount next. The former leaves less than a unit too much to liquidate, the
latter less than a unit too little. -/

set_option autoImplicit false

namespace Nolus.LeaseLiquidation
open Nolus.Fallible Nolus.Fraction Nolus.LeaseLiability

variable {ε : Type}

/-- The amount to liquidate of what the due is above the healthy part. -/
def excess (self : Liability) (leaseAmount totalDue : ℕ) : ℕ :=
  Ratio.part ⟨hundred, hundred - self.healthy⟩
    (totalDue - (percent self.healthy).part leaseAmount)

theorem healthy_limits (self : Liability) :
    0 < self.healthy ∧ self.healthy < self.max ∧ self.max ≤ hundred := by
  obtain ⟨h1, h2, h3, h4, h5, h6, h7, _⟩ := held_limits self
  omega

theorem healthy_below_max (self : Liability) (leaseAmount : ℕ) :
    (percent self.healthy).part leaseAmount ≤ (percent self.max).part leaseAmount := by
  obtain ⟨_, h, _⟩ := healthy_limits self
  exact Nat.div_le_div_right (Nat.mul_le_mul_left _ h.le)

theorem excess_mono (self : Liability) (leaseAmount due later : ℕ) (h : due ≤ later) :
    excess self leaseAmount due ≤ excess self leaseAmount later :=
  part_mono _ _ _ (Nat.sub_le_sub_right h _)

theorem excess_lt_iff (self : Liability) (leaseAmount totalDue bound : ℕ) :
    excess self leaseAmount totalDue < bound ↔
      (totalDue - leaseAmount * self.healthy / hundred) * hundred <
        bound * (hundred - self.healthy) := by
  obtain ⟨_, hmax, hle⟩ := healthy_limits self
  have hpos : 0 < hundred - self.healthy := by omega
  exact Nat.div_lt_iff_lt_mul hpos

theorem excess_lt (self : Liability) (leaseAmount totalDue : ℕ)
    (h : totalDue < leaseAmount) : excess self leaseAmount totalDue < leaseAmount := by
  obtain ⟨_, hmax, hle⟩ := healthy_limits self
  have hfloor := Nat.lt_div_mul_add (a := leaseAmount * self.healthy) (b := hundred) (by decide)
  rw [excess_lt_iff]
  generalize leaseAmount * self.healthy / hundred = healthyPart at hfloor ⊢
  unfold hundred at *
  rcases Nat.le_total totalDue healthyPart with hd | hd
  · rw [Nat.sub_eq_zero_of_le hd, Nat.zero_mul]
    exact Nat.mul_pos (by omega) (by omega)
  · zify [hd, show self.healthy ≤ 1000 by omega] at hfloor ⊢
    nlinarith

theorem excess_le (self : Liability) (leaseAmount totalDue : ℕ)
    (h : totalDue < leaseAmount) : excess self leaseAmount totalDue ≤ totalDue := by
  obtain ⟨h0, hmax, hle⟩ := healthy_limits self
  have hfloor := Nat.lt_div_mul_add (a := leaseAmount * self.healthy) (b := hundred) (by decide)
  apply Nat.le_of_lt_succ
  rw [excess_lt_iff]
  generalize leaseAmount * self.healthy / hundred = healthyPart at hfloor ⊢
  unfold hundred at *
  rcases Nat.le_total totalDue healthyPart with hd | hd
  · rw [Nat.sub_eq_zero_of_le hd, Nat.zero_mul]
    exact Nat.mul_pos (Nat.succ_pos _) (by omega)
  · have hlast : (totalDue + 1) * self.healthy ≤ leaseAmount * self.healthy :=
      Nat.mul_le_mul_right _ h
    zify [hd, show self.healthy ≤ 1000 by omega] at hfloor hlast ⊢
    nlinarith

/-- What is left due never goes below the healthy part of what is left of the
lease, and is above it by a unit at most. -/
theorem excess_heals (self : Liability) (leaseAmount totalDue : ℕ)
    (hdue : (percent self.healthy).part leaseAmount ≤ totalDue)
    (h : totalDue < leaseAmount) :
    (percent self.healthy).part (leaseAmount - excess self leaseAmount totalDue) ≤
        totalDue - excess self leaseAmount totalDue ∧
      totalDue - excess self leaseAmount totalDue ≤
        (percent self.healthy).part (leaseAmount - excess self leaseAmount totalDue) + 1 := by
  obtain ⟨_, hmax, hle⟩ := healthy_limits self
  have hlt := excess_lt self leaseAmount totalDue h
  have hbound := excess_le self leaseAmount totalDue h
  have hdivisor : 0 < hundred - self.healthy := by omega
  have hpart := Nat.div_mul_le_self (leaseAmount * self.healthy) hundred
  have hpart_lt := Nat.lt_div_mul_add (a := leaseAmount * self.healthy) (b := hundred) (by decide)
  have hexcess := Nat.div_mul_le_self
    ((totalDue - (percent self.healthy).part leaseAmount) * hundred) (hundred - self.healthy)
  have hexcess_lt := Nat.lt_div_mul_add
    (a := (totalDue - (percent self.healthy).part leaseAmount) * hundred) hdivisor
  change excess self leaseAmount totalDue * (hundred - self.healthy) ≤ _ at hexcess
  change _ < excess self leaseAmount totalDue * (hundred - self.healthy) + _ at hexcess_lt
  generalize excess self leaseAmount totalDue = amount at *
  change _ ≤ totalDue at hdue
  unfold Ratio.part percent at *
  simp only at *
  generalize leaseAmount * self.healthy / hundred = healthyPart at *
  unfold hundred at *
  constructor
  · apply Nat.le_of_lt_succ
    apply (Nat.div_lt_iff_lt_mul (by decide)).2
    zify [hbound, hlt.le, hdue, show self.healthy ≤ 1000 by omega] at *
    nlinarith
  · apply Nat.sub_le_iff_le_add.1
    apply (Nat.le_div_iff_mul_le (by decide)).2
    rcases Nat.eq_zero_or_pos (totalDue - amount) with h0 | hpos
    · simp [h0]
    · zify [hbound, hlt.le, hdue, hpos, show self.healthy ≤ 1000 by omega] at *
      nlinarith

theorem amount_to_liquidate_part (self : Liability) (leaseAmount totalDue : ℕ)
    (ha : leaseAmount < 2 ^ amountBits) :
    (self.amountToLiquidate leaseAmount totalDue : Outcome ε ℕ) =
      .ok (if totalDue < (percent self.max).part leaseAmount then 0
        else if leaseAmount ≤ totalDue then leaseAmount
        else excess self leaseAmount totalDue) := by
  obtain ⟨h0, hmax, hle⟩ := healthy_limits self
  have hbound : (percent self.max).part leaseAmount ≤ leaseAmount := part_le _ _ hle
  have hhealthy := healthy_below_max self leaseAmount
  rw [Liability.amountToLiquidate, bind_ok]
  refine ⟨_, safeMul_fits _ _ _ (percent_total_pos _) (by omega), ?_⟩
  split_ifs with hbelow hwhole
  · rfl
  · rfl
  · have hexcess := excess_lt self leaseAmount totalDue (by omega)
    simp only [bind_ok, nativeSub_ok]
    refine ⟨_, ⟨by omega, rfl⟩, _, safeMul_fits _ _ _ (percent_total_pos _) (by omega), _,
      ⟨Nat.min_le_left _ _, rfl⟩, ?_⟩
    rw [Nat.min_eq_right (by omega)]
    exact safeMul_fits _ _ _ (show 0 < hundred - self.healthy by omega)
      (lt_trans hexcess ha)

/-- Nothing is liquidated below the maximum, the whole lease at its amount, and
an amount in between brings the rest back to the healthy level. More due never
liquidates less. -/
theorem amount_to_liquidate (self : Liability) (leaseAmount : ℕ)
    (ha : leaseAmount < 2 ^ amountBits) :
    ∃ bound, ((percent self.max).of leaseAmount : Outcome ε ℕ) = .ok bound ∧
      ∃ amount : ℕ → ℕ,
        (∀ due, (self.amountToLiquidate leaseAmount due : Outcome ε ℕ) = .ok (amount due)) ∧
          (∀ due, due < bound → amount due = 0) ∧
          (∀ due, leaseAmount ≤ due → amount due = leaseAmount) ∧
          (∀ due, bound ≤ due → due < leaseAmount →
            amount due < leaseAmount ∧ amount due ≤ due ∧
              ∃ rest, ((percent self.healthy).of (leaseAmount - amount due) : Outcome ε ℕ) =
                  .ok rest ∧
                rest ≤ due - amount due ∧ due - amount due ≤ rest + 1) ∧
          ∀ due later, due ≤ later → amount due ≤ amount later := by
  obtain ⟨h0, hmax, hle⟩ := healthy_limits self
  have hbound : (percent self.max).part leaseAmount ≤ leaseAmount := part_le _ _ hle
  have hhealthy := healthy_below_max self leaseAmount
  refine ⟨_, safeMul_fits _ _ _ (percent_total_pos _) (by omega), _,
    fun due => amount_to_liquidate_part self leaseAmount due ha, ?_, ?_, ?_, ?_⟩
  · intro due h
    rw [if_pos h]
  · intro due h
    rw [if_neg (by omega), if_pos h]
  · intro due h hdue
    rw [if_neg (by omega), if_neg (by omega)]
    refine ⟨excess_lt self leaseAmount due hdue, excess_le self leaseAmount due hdue, _,
      safeMul_fits _ _ _ (percent_total_pos _) ?_,
      excess_heals self leaseAmount due (by omega) hdue⟩
    have hrest := part_le (percent self.healthy) (leaseAmount - excess self leaseAmount due)
      (hmax.le.trans hle)
    omega
  · intro due later h
    have hmono := excess_mono self leaseAmount due later h
    have hexcess := excess_lt self leaseAmount due
    split_ifs
    all_goals omega

def sampleLiability : Liability := ⟨⟨600, 700, 730, 750, 780, 800, Interest.hour⟩, rfl⟩

theorem amount_to_liquidate_sample :
    ∃ bound, ((percent sampleLiability.max).of 1000 : Outcome Empty ℕ) = .ok bound ∧
      ∃ amount : ℕ → ℕ,
        (∀ due, (sampleLiability.amountToLiquidate 1000 due : Outcome Empty ℕ) =
          .ok (amount due)) ∧
          (∀ due, due < bound → amount due = 0) ∧
          (∀ due, 1000 ≤ due → amount due = 1000) ∧
          (∀ due, bound ≤ due → due < 1000 →
            amount due < 1000 ∧ amount due ≤ due ∧
              ∃ rest, ((percent sampleLiability.healthy).of (1000 - amount due) :
                  Outcome Empty ℕ) = .ok rest ∧
                rest ≤ due - amount due ∧ due - amount due ≤ rest + 1) ∧
          ∀ due later, due ≤ later → amount due ≤ amount later :=
  amount_to_liquidate sampleLiability 1000 (by decide)

/-- A tenth of the lease above its healthy part takes a third of the lease. -/
example : (sampleLiability.amountToLiquidate 1000 800 : Outcome Empty ℕ) = .ok 333 := by decide

end Nolus.LeaseLiquidation
