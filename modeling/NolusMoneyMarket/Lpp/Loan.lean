import NolusMoneyMarket.Base.KeyedStore
import NolusMoneyMarket.Finance.Interest

/-! # Pool loans

A loan of the liquidity pool and the repository of loans by lease address. A
repayment covers the interest due first, then the principal, and the rest is
excess. The repository removes a loan whose principal is paid in full. -/

set_option autoImplicit false

namespace Nolus.LppLoan
open Nolus.Fallible Nolus.Fraction Nolus.Interest Nolus.KeyedStore

abbrev Addr := ℕ

inductive Denom
  | lpn
  | nls
  | other (symbol : ℕ)
deriving DecidableEq, Repr

inductive PlatformError
  | noFunds (expected : Denom)
  | unexpectedFunds (expected : Denom)
  | unexpectedCode (expected : ℕ) (instance_ : Addr)
  | cosmWasmQueryContractInfo
  | insufficientFunds
deriving DecidableEq, Repr

inductive ContractError
  | stdNotFound
  | platform (cause : PlatformError)
  | unknownCurrency (denom : Denom)
  | unauthorized
  | noLiquidity
  | noLoan
  | loanExists
  | noDeposit
  | zeroLoanAmount
  | zeroDepositFunds
  | zeroWithdrawFunds
  | noRewards
  | zeroRewardsFunds
  | zeroBalanceRewards
  | insufficientBalance
  | utilizationBelowMinimalRates
  | overflowError (message : String)
deriving DecidableEq, Repr

structure Loan where
  principalDue : ℕ
  annualInterestRate : ℕ
  interestPaid : ℕ
deriving DecidableEq, Repr

structure RepayShares where
  interest : ℕ
  principal : ℕ
  excess : ℕ
deriving DecidableEq, Repr

variable {ε : Type}

def Loan.rate (self : Loan) : Ratio := percent self.annualInterestRate

def Loan.duePeriod (self : Loan) (by_ : ℕ) : Outcome ε ℕ :=
  between self.interestPaid (max by_ self.interestPaid)

def Loan.interestDue (self : Loan) (by_ : ℕ) : Outcome ε ℕ := do
  let period ← self.duePeriod by_
  interest self.rate self.principalDue period

def Loan.repay (self : Loan) (by_ repayment : ℕ) : Outcome ε (Loan × RepayShares) := do
  let period ← self.duePeriod by_
  let (paidFor, interestChange) ← pay self.rate self.principalDue repayment period
  let interestPaid ← nativeSub repayment interestChange
  let principalPaid := min interestChange self.principalDue
  let excess ← nativeSub interestChange principalPaid
  let principalDue ← nativeSub self.principalDue principalPaid
  let interestPaidBy ← nativeAdd timeBits self.interestPaid paidFor
  pure (⟨principalDue, self.annualInterestRate, interestPaidBy⟩,
    ⟨interestPaid, principalPaid, excess⟩)

abbrev Repo := Store Addr Loan

def Repo.openLoan (loans : Repo) (addr : Addr) (loan : Loan) : Outcome ContractError Repo :=
  if (loans.lookup addr).isSome then failing .loanExists else pure (loans.insert addr loan)

def Repo.load (loans : Repo) (addr : Addr) : Outcome ContractError Loan :=
  okOr (loans.lookup addr) .stdNotFound

/-- The rate of a stored loan is never overwritten. -/
def Repo.save (loans : Repo) (addr : Addr) (loan : Loan) : Outcome ContractError Repo :=
  if loan.principalDue = 0 then pure (loans.erase addr)
  else do
    let loaded ← okOr (loans.lookup addr) .noLoan
    pure (loans.insert addr
      { loaded with principalDue := loan.principalDue, interestPaid := loan.interestPaid })

def Loan.annualInterest (self : Loan) : ℕ := self.rate.part self.principalDue

def Loan.due (self : Loan) (by_ : ℕ) : ℕ :=
  accrued self.annualInterest (by_ - self.interestPaid)

def Loan.shares (self : Loan) (by_ repayment : ℕ) : RepayShares where
  interest := min (self.due by_) repayment
  principal := min (repayment - self.due by_) self.principalDue
  excess := repayment - self.due by_ - self.principalDue

def Loan.repaid (self : Loan) (by_ repayment : ℕ) : Loan where
  principalDue := self.principalDue - (self.shares by_ repayment).principal
  annualInterestRate := self.annualInterestRate
  interestPaid := self.interestPaid +
    paidFor (self.due by_) repayment (by_ - self.interestPaid)

theorem Loan.rate_total_pos (self : Loan) : 0 < self.rate.total := percent_total_pos _

theorem shares_sum (self : Loan) (by_ repayment : ℕ) :
    (self.shares by_ repayment).interest + (self.shares by_ repayment).principal +
      (self.shares by_ repayment).excess = repayment := by
  simp only [Loan.shares]
  omega

theorem principal_paid_le (self : Loan) (by_ repayment : ℕ) :
    (self.shares by_ repayment).principal ≤ self.principalDue := by
  simp only [Loan.shares]
  omega

theorem duePeriod_ok (self : Loan) (by_ v : ℕ) :
    (self.duePeriod by_ : Outcome ε ℕ) = .ok v ↔ v = by_ - self.interestPaid := by
  simp only [Loan.duePeriod, between, nativeSub_ok]
  omega

theorem Loan.duePeriod_evaluates (self : Loan) (by_ : ℕ) :
    Evaluates (self.duePeriod by_ : Outcome ε ℕ) (by_ - self.interestPaid) :=
  .inl ((duePeriod_ok self by_ _).2 rfl)

theorem interestDue_evaluates (self : Loan) (by_ : ℕ) :
    Evaluates (self.interestDue by_ : Outcome ε ℕ) (self.due by_) :=
  evaluates_bind _ _ _ _ (self.duePeriod_evaluates by_)
    (interest_evaluates _ _ _ self.rate_total_pos)

theorem interestDue_fits (self : Loan) (by_ : ℕ) (h1 : self.annualInterest < 2 ^ amountBits)
    (h2 : self.due by_ < 2 ^ amountBits) :
    (self.interestDue by_ : Outcome ε ℕ) = .ok (self.due by_) := by
  simp only [Loan.interestDue, bind_ok, duePeriod_ok]
  exact ⟨_, rfl, interest_fits _ _ _ self.rate_total_pos h1 h2⟩

theorem repay_evaluates (self : Loan) (by_ repayment : ℕ) :
    Evaluates (self.repay by_ repayment : Outcome ε (Loan × RepayShares))
      (self.repaid by_ repayment, self.shares by_ repayment) := by
  apply evaluates_bind _ _ _ _ (self.duePeriod_evaluates by_)
  apply evaluates_bind _ _ _ _ (pay_evaluates _ _ _ _ self.rate_total_pos)
  have hinterest : repayment - (repayment - self.due by_) = min (self.due by_) repayment := by
    omega
  have hexcess : repayment - self.due by_ -
      min (repayment - self.due by_) self.principalDue =
        repayment - self.due by_ - self.principalDue := by omega
  apply evaluates_bind _ _ _ _ (nativeSub_evaluates _ _ (Nat.sub_le _ _))
  apply evaluates_bind _ _ _ _ (nativeSub_evaluates _ _ (min_le_left _ _))
  apply evaluates_bind _ _ _ _ (nativeSub_evaluates _ _ (min_le_right _ _))
  apply evaluates_bind _ _ _ _ (nativeAdd_evaluates _ _ _)
  apply evaluates_pure_eq
  simp only [Loan.repaid, Loan.shares, Prod.mk.injEq, RepayShares.mk.injEq]
  exact ⟨rfl, hinterest, rfl, hexcess⟩

theorem repay_ok (self loan : Loan) (by_ repayment : ℕ) (shares : RepayShares)
    (h : (self.repay by_ repayment : Outcome ε (Loan × RepayShares)) = .ok (loan, shares)) :
    loan = self.repaid by_ repayment ∧ shares = self.shares by_ repayment :=
  Prod.mk.inj (evaluates_ok _ _ _ (repay_evaluates self by_ repayment) h)

theorem repay_fits (self : Loan) (by_ repayment : ℕ) (hb : by_ < 2 ^ timeBits)
    (hi : self.interestPaid < 2 ^ timeBits) (h1 : self.annualInterest < 2 ^ amountBits)
    (h2 : self.due by_ < 2 ^ amountBits) :
    (self.repay by_ repayment : Outcome ε (Loan × RepayShares)) =
      .ok (self.repaid by_ repayment, self.shares by_ repayment) := by
  have hlen : by_ - self.interestPaid < 2 ^ timeBits := by omega
  have hpay : (pay self.rate self.principalDue repayment (by_ - self.interestPaid) :
      Outcome ε (ℕ × ℕ)) = .ok (paidFor (self.due by_) repayment (by_ - self.interestPaid),
        repayment - self.due by_) := pay_fits _ _ _ _ self.rate_total_pos hlen h1 h2
  have hcov := paidFor_le (self.due by_) repayment (by_ - self.interestPaid)
  simp only [Loan.repay, bind_ok, duePeriod_ok, nativeSub_ok, nativeAdd_ok, pure_ok,
    Prod.mk.injEq]
  have hfit : self.interestPaid + paidFor (self.due by_) repayment (by_ - self.interestPaid) <
      2 ^ timeBits := by omega
  refine ⟨_, rfl, _, hpay, _, ⟨by omega, rfl⟩, _, ⟨min_le_left _ _, rfl⟩, _,
    ⟨min_le_right _ _, rfl⟩, _, ⟨hfit, rfl⟩, rfl, ?_⟩
  simp only [Loan.shares, RepayShares.mk.injEq, true_and]
  omega

theorem openLoan_ok (loans loans' : Repo) (addr : Addr) (loan : Loan)
    (h : loans.openLoan addr loan = .ok loans') :
    loans.lookup addr = none ∧ loans' = loans.insert addr loan := by
  unfold Repo.openLoan at h
  split_ifs at h with hs
  · simp at h
  · exact ⟨by simpa using hs, ((pure_ok _ _).1 h).symm⟩

theorem load_ok (loans : Repo) (addr : Addr) (loan : Loan) :
    loans.load addr = .ok loan ↔ loans.lookup addr = some loan := okOr_ok _ _ _

theorem save_ok (loans loans' : Repo) (addr : Addr) (old new : Loan)
    (ho : loans.lookup addr = some old) (hr : new.annualInterestRate = old.annualInterestRate)
    (h : loans.save addr new = .ok loans') :
    loans' = if new.principalDue = 0 then loans.erase addr else loans.insert addr new := by
  unfold Repo.save at h
  split_ifs at h ⊢ with h0
  · exact ((pure_ok _ _).1 h).symm
  · simp only [bind_ok, okOr_ok, ho, pure_ok] at h
    obtain ⟨_, he, h⟩ := h
    rw [← h, ← Option.some.inj he, ← hr]

end Nolus.LppLoan
