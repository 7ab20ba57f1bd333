import NolusMoneyMarket.Base.Waterfall
import NolusMoneyMarket.Finance.Period
import NolusMoneyMarket.Lpp.Loan

/-! # Lease loans

The lease splits a payment over its own view of the debt: the overdue interest
and margin, the due interest and margin, the principal. It pays the margin to
the profit and one lump sum to the pool, which splits that sum again by its
own rules. The two time points interest is paid by, the one of the pool and
the one of the margin, are not related. -/

set_option autoImplicit false

namespace Nolus.LeaseLoan
open Nolus.Fallible Nolus.Fraction Nolus.Interest Nolus.Periods Nolus.LppLoan

structure LppLoan where
  loan : LppLoan.Loan
  repayment : ℕ
deriving DecidableEq, Repr

variable {ε : Type}

def LppLoan.repay (self : LppLoan) (by_ repayment : ℕ) :
    Outcome ε (LppLoan × RepayShares) := do
  let scheduled ← nativeAdd amountBits self.repayment repayment
  let (loan, shares) ← self.loan.repay by_ repayment
  pure (⟨loan, scheduled⟩, shares)

def LppLoan.message (self : LppLoan) : Option ℕ :=
  if self.repayment = 0 then none else some self.repayment

inductive Overdue
  | startIn (period : ℕ)
  | accrued (interest margin : ℕ)
deriving DecidableEq, Repr

def Overdue.interest : Overdue → ℕ
  | .startIn _ => 0
  | .accrued interest _ => interest

def Overdue.margin : Overdue → ℕ
  | .startIn _ => 0
  | .accrued _ margin => margin

/-- The overdue period ends where the latest period of the maximum length starts. -/
def overduePeriod (duePeriodMargin : Period) (maxDue : ℕ) : Outcome ε Period :=
  if duePeriodMargin.length = maxDue then Period.tillLength duePeriodMargin.start 0
  else do
    let till ← duePeriodMargin.till
    let duePeriodMax ← Period.tillLength till maxDue
    duePeriodMargin.cut duePeriodMax

def Overdue.new (duePeriodMargin : Period) (maxDue marginInterest : ℕ) (lppLoan : LppLoan) :
    Outcome ε Overdue :=
  if duePeriodMargin.length < maxDue then do
    let period ← nativeSub maxDue duePeriodMargin.length
    pure (.startIn period)
  else do
    let period ← overduePeriod duePeriodMargin maxDue
    let margin ← Interest.interest (percent marginInterest) lppLoan.loan.principalDue period.length
    let till ← period.till
    let interest ← lppLoan.loan.interestDue till
    pure (.accrued interest margin)

structure State where
  annualInterest : ℕ
  annualInterestMargin : ℕ
  principalDue : ℕ
  dueInterest : ℕ
  dueMarginInterest : ℕ
  overdue : Overdue
deriving DecidableEq, Repr

structure Receipt where
  overdueMarginPaid : ℕ
  overdueInterestPaid : ℕ
  dueMarginPaid : ℕ
  dueInterestPaid : ℕ
  principalPaid : ℕ
  change : ℕ
  close : Bool
deriving DecidableEq, Repr

def Receipt.new (overdueInterest overdueMargin dueInterest dueMargin principalDue principalPaid
    change : ℕ) : Receipt :=
  ⟨overdueMargin, overdueInterest, dueMargin, dueInterest, principalPaid, change,
    principalDue = principalPaid⟩

structure Loan where
  lppLoan : LppLoan
  duePeriod : ℕ
  marginInterest : ℕ
  marginPaidBy : ℕ
deriving DecidableEq, Repr

def Loan.state (self : Loan) (now : ℕ) : Outcome ε State := do
  let duePeriodMargin ← Period.fromTill self.marginPaidBy now
  let overdue ← Overdue.new duePeriodMargin self.duePeriod self.marginInterest self.lppLoan
  let principalDue := self.lppLoan.loan.principalDue
  let margin ← Interest.interest (percent self.marginInterest) principalDue duePeriodMargin.length
  let dueMarginInterest ← nativeSub margin overdue.margin
  let till ← duePeriodMargin.till
  let interest ← self.lppLoan.loan.interestDue till
  let dueInterest ← nativeSub interest overdue.interest
  pure ⟨self.lppLoan.loan.annualInterestRate, self.marginInterest, principalDue, dueInterest,
    dueMarginInterest, overdue⟩

def Loan.repayMargin (self : Loan) (principalDue marginPaid by_ : ℕ) : Outcome ε (Loan × ℕ) := do
  let period ← between self.marginPaidBy by_
  let (marginPaidFor, change) ← pay (percent self.marginInterest) principalDue marginPaid period
  let marginPaidBy ← nativeAdd timeBits self.marginPaidBy marginPaidFor
  pure ({ self with marginPaidBy := marginPaidBy }, change)

def Loan.repayLoan (self : Loan) (interestPaid principalPaid by_ : ℕ) :
    Outcome ε (Loan × RepayShares) := do
  let repayment ← coinAdd interestPaid principalPaid
  let (lppLoan, shares) ← self.lppLoan.repay by_ repayment
  pure ({ self with lppLoan := lppLoan }, shares)

structure Repayment where
  loan : Loan
  profit : ℕ
  marginChange : ℕ
  shares : RepayShares
  receipt : Receipt
deriving DecidableEq, Repr

def Loan.repay (self : Loan) (payment by_ : ℕ) : Outcome ε Repayment := do
  let state ← self.state by_
  let overdueInterest := min state.overdue.interest payment
  let rest ← nativeSub payment overdueInterest
  let overdueMargin := min state.overdue.margin rest
  let rest ← nativeSub rest overdueMargin
  let dueInterest := min state.dueInterest rest
  let rest ← nativeSub rest dueInterest
  let dueMargin := min state.dueMarginInterest rest
  let interestPaid ← coinAdd overdueInterest dueInterest
  let marginPaid ← coinAdd overdueMargin dueMargin
  let rest ← nativeSub payment interestPaid
  let rest ← nativeSub rest marginPaid
  let principalPaid := min state.principalDue rest
  let change ← nativeSub rest principalPaid
  let (marginRepaid, marginChange) ← self.repayMargin state.principalDue marginPaid by_
  let (loan, shares) ← marginRepaid.repayLoan interestPaid principalPaid by_
  pure ⟨loan, marginPaid, marginChange, shares, Receipt.new overdueInterest overdueMargin
    dueInterest dueMargin state.principalDue principalPaid change⟩

def Loan.elapsed (self : Loan) (now : ℕ) : ℕ := now - self.marginPaidBy

def Loan.overdueTill (self : Loan) (now : ℕ) : ℕ :=
  self.marginPaidBy + (self.elapsed now - self.duePeriod)

def Loan.marginAnnual (self : Loan) : ℕ :=
  (percent self.marginInterest).part self.lppLoan.loan.principalDue

def Loan.overdueAt (self : Loan) (now : ℕ) : Overdue :=
  if self.elapsed now < self.duePeriod then .startIn (self.duePeriod - self.elapsed now)
  else .accrued (self.lppLoan.loan.due (self.overdueTill now))
    (accrued (self.marginAnnual) (self.elapsed now - self.duePeriod))

def Loan.marginDue (self : Loan) (now : ℕ) : ℕ := accrued self.marginAnnual (self.elapsed now)

def Loan.stateAt (self : Loan) (now : ℕ) : State where
  annualInterest := self.lppLoan.loan.annualInterestRate
  annualInterestMargin := self.marginInterest
  principalDue := self.lppLoan.loan.principalDue
  dueInterest := self.lppLoan.loan.due now - (self.overdueAt now).interest
  dueMarginInterest := accrued (self.marginAnnual) (self.elapsed now) - (self.overdueAt now).margin
  overdue := self.overdueAt now

def State.dues (state : State) : List ℕ :=
  [state.overdue.interest, state.overdue.margin, state.dueInterest, state.dueMarginInterest,
    state.principalDue]

def Receipt.payments (receipt : Receipt) : List ℕ :=
  [receipt.overdueInterestPaid, receipt.overdueMarginPaid, receipt.dueInterestPaid,
    receipt.dueMarginPaid, receipt.principalPaid, receipt.change]

def Receipt.interestPaid (receipt : Receipt) : ℕ :=
  receipt.overdueInterestPaid + receipt.dueInterestPaid

def Receipt.marginPaid (receipt : Receipt) : ℕ :=
  receipt.overdueMarginPaid + receipt.dueMarginPaid

def State.receipt (state : State) (payment : ℕ) : Receipt :=
  let overdueInterest := min state.overdue.interest payment
  let overdueMargin := min state.overdue.margin (payment - overdueInterest)
  let dueInterest := min state.dueInterest (payment - overdueInterest - overdueMargin)
  let dueMargin := min state.dueMarginInterest
    (payment - overdueInterest - overdueMargin - dueInterest)
  let rest := payment - (overdueInterest + dueInterest) - (overdueMargin + dueMargin)
  Receipt.new overdueInterest overdueMargin dueInterest dueMargin state.principalDue
    (min state.principalDue rest) (rest - min state.principalDue rest)

def Receipt.lppPaid (receipt : Receipt) : ℕ := receipt.interestPaid + receipt.principalPaid

def Loan.marginRepaid (self : Loan) (marginPaid by_ : ℕ) : Loan :=
  let covered := paidFor (self.marginDue by_) marginPaid (self.elapsed by_)
  { self with marginPaidBy := self.marginPaidBy + covered }

def Loan.loanRepaid (self : Loan) (lppPaid by_ : ℕ) : Loan :=
  let scheduled := self.lppLoan.repayment + lppPaid
  { self with lppLoan := ⟨self.lppLoan.loan.repaid by_ lppPaid, scheduled⟩ }

def Loan.repaymentAt (self : Loan) (payment by_ : ℕ) : Repayment :=
  let receipt := (self.stateAt by_).receipt payment
  { loan := (self.marginRepaid receipt.marginPaid by_).loanRepaid receipt.lppPaid by_
    profit := receipt.marginPaid
    marginChange := receipt.marginPaid - self.marginDue by_
    shares := self.lppLoan.loan.shares by_ receipt.lppPaid
    receipt := receipt }

end Nolus.LeaseLoan
