import NolusMoneyMarket.Lpp.Loan

/-! # Pool configuration

The borrow rate grows linearly with the utilization up to its optimal level.
The limits that the validation of a configuration sets are fields, so that a
rate out of them cannot be built. -/

set_option autoImplicit false

namespace Nolus.LppConfig
open Nolus.Fallible Nolus.Fraction Nolus.LppLoan

structure InterestRate where
  baseInterestRate : ℕ
  utilizationOptimal : ℕ
  addonOptimalInterestRate : ℕ
  base_le : baseInterestRate ≤ hundred
  optimal_pos : 0 < utilizationOptimal
  optimal_lt : utilizationOptimal < hundred
  addon_le : addonOptimalInterestRate ≤ hundred

def InterestRate.tryFrom (base optimal addon : ℕ) : Except String InterestRate :=
  if h : base ≤ hundred ∧ 0 < optimal ∧ optimal < hundred ∧ addon ≤ hundred then
    .ok ⟨base, optimal, addon, h.1, h.2.1, h.2.2.1, h.2.2.2⟩
  else .error "Rates should not be greater than a hundred percent!"

variable {ε : Type}

def InterestRate.utilizationMax (self : InterestRate) : Outcome ε ℕ := do
  let rest ← nativeSub hundred self.utilizationOptimal
  safeMul percentBits hundred ⟨self.utilizationOptimal, rest⟩

def InterestRate.utilization (self : InterestRate) (totalLiability balance : ℕ) :
    Outcome ε ℕ := do
  let utilizationMax ← self.utilizationMax
  if balance = 0 then pure utilizationMax
  else do
    let current ← percentFromRatio totalLiability balance
    pure (min current utilizationMax)

def InterestRate.calculate (self : InterestRate) (totalLiability balance : ℕ) :
    Outcome ε ℕ := do
  let utilization ← self.utilization totalLiability balance
  let addon ← safeMul percentBits utilization
    ⟨self.addonOptimalInterestRate, self.utilizationOptimal⟩
  nativeAdd percentBits self.baseInterestRate addon

structure Config where
  leaseCode : ℕ
  borrowRate : InterestRate
  minUtilization : ℕ
  min_utilization_le : minUtilization ≤ hundred

def utilizationLimit (self : InterestRate) : ℕ :=
  Ratio.part ⟨self.utilizationOptimal, hundred - self.utilizationOptimal⟩ hundred

theorem utilizationMax_ok (self : InterestRate) :
    (self.utilizationMax : Outcome ε ℕ) = .ok (utilizationLimit self) := by
  have hlt := self.optimal_lt
  have hb : utilizationLimit self < 2 ^ percentBits := by
    have hle : hundred * self.utilizationOptimal / (hundred - self.utilizationOptimal) ≤
        hundred * hundred := by
      apply (Nat.div_le_self _ _).trans
      exact Nat.mul_le_mul_left _ hlt.le
    exact lt_of_le_of_lt hle (by decide)
  rw [InterestRate.utilizationMax, bind_ok]
  have hs : (nativeSub hundred self.utilizationOptimal : Outcome ε ℕ) =
      .ok (hundred - self.utilizationOptimal) := by simp [hlt.le]
  exact ⟨_, hs, safeMul_fits _ _ _ (Nat.sub_pos_of_lt hlt) hb⟩

end Nolus.LppConfig
