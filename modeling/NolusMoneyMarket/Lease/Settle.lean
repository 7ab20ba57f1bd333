import NolusMoneyMarket.Lease.Overdue
import NolusMoneyMarket.Lease.Payment

/-! # The settlement of a full close

A full close brings the payment up to the total due at the expense of the
reserve, and then repays the loan. The repayment finds all the dues anew; they
add up to the very total the payment was brought up to, so the whole of them
is covered, and only a payment above them leaves change. -/

set_option autoImplicit false

namespace Nolus.LeaseSettle
open Nolus.Fallible Nolus.Fraction Nolus.Interest Nolus.Waterfall
open Nolus.LppLoan hiding ContractError
open Nolus.LeaseLoan Nolus.LeasePosition Nolus.LeaseSplit Nolus.LeaseDues Nolus.LeaseOverdue
open Nolus.LeasePayment Nolus.Leases

variable {ε : Type}

theorem receipt_change (state : State) (payment : ℕ) :
    (state.receipt payment).change = payment - state.dues.sum := by
  have hat := waterfall_change state.dues payment
  rw [← receipt_payments] at hat
  exact Option.some.inj hat

theorem covered_principal (state : State) (payment : ℕ) (h : state.dues.sum ≤ payment) :
    (state.receipt payment).principalPaid = state.principalDue := by
  have hsum : state.dues.sum = state.dues.dropLast.sum + state.principalDue := by
    simp [State.dues, add_assoc]
  rw [principal_paid]
  omega

/-! ## When a repayment returns -/

theorem repayMargin_fits (self : LeaseLoan.Loan) (marginPaid by_ : ℕ)
    (h : self.marginPaidBy ≤ by_) (hr : InRange self by_) :
    (self.repayMargin self.lppLoan.loan.principalDue marginPaid by_ :
        Outcome ε (LeaseLoan.Loan × ℕ)) =
      .ok (self.marginRepaid marginPaid by_, marginPaid - self.marginDue by_) := by
  have htime := hr.time
  have hperiod : by_ - self.marginPaidBy < 2 ^ timeBits := by omega
  have hpay := @pay_fits ε (percent self.marginInterest) self.lppLoan.loan.principalDue marginPaid
    _ (percent_total_pos _) hperiod hr.marginAnnual hr.margin
  have hcovered := paidFor_le (self.marginDue by_) marginPaid (self.elapsed by_)
  have hby : self.marginPaidBy + paidFor (self.marginDue by_) marginPaid (self.elapsed by_) <
      2 ^ timeBits := by
    simp only [LeaseLoan.Loan.elapsed] at hcovered ⊢
    omega
  simp only [LeaseLoan.Loan.repayMargin, between, bind_ok, nativeSub_ok, nativeAdd_ok, pure_ok]
  exact ⟨_, ⟨h, rfl⟩, _, hpay, _, ⟨hby, rfl⟩, rfl⟩

theorem repayLoan_fits (self : LeaseLoan.Loan) (interestPaid principalPaid by_ : ℕ)
    (hb : by_ < 2 ^ timeBits) (hi : self.lppLoan.loan.interestPaid < 2 ^ timeBits)
    (h1 : self.lppLoan.loan.annualInterest < 2 ^ amountBits)
    (h2 : self.lppLoan.loan.due by_ < 2 ^ amountBits)
    (hs : self.lppLoan.repayment + (interestPaid + principalPaid) < 2 ^ amountBits) :
    (self.repayLoan interestPaid principalPaid by_ : Outcome ε (LeaseLoan.Loan × RepayShares)) =
      .ok (self.loanRepaid (interestPaid + principalPaid) by_,
        self.lppLoan.loan.shares by_ (interestPaid + principalPaid)) := by
  have hpool := @LppLoan.repay_fits ε self.lppLoan.loan by_ (interestPaid + principalPaid)
    hb hi h1 h2
  simp only [LeaseLoan.Loan.repayLoan, LeaseLoan.LppLoan.repay, bind_ok, coinAdd_ok, nativeAdd_ok,
    pure_ok]
  exact ⟨_, ⟨by omega, rfl⟩, _, ⟨_, ⟨hs, rfl⟩, _, hpool, rfl⟩, rfl⟩

theorem repay_returns (self : LeaseLoan.Loan) (payment by_ : ℕ) (h : self.marginPaidBy ≤ by_)
    (hi : self.lppLoan.loan.interestPaid < 2 ^ timeBits) (hr : InRange self by_)
    (hs : self.lppLoan.repayment + payment < 2 ^ amountBits) :
    ∃ r, (self.repay payment by_ : Outcome ε Repayment) = .ok r := by
  have hstate := @state_fits ε self by_ h hr
  simp only [LeaseLoan.Loan.repay, bind_ok, coinAdd_ok, nativeSub_ok, pure_ok]
  have hmargin := fun marginPaid => @repayMargin_fits ε self marginPaid by_ h hr
  refine ⟨_, _, hstate, _, ⟨min_le_right _ _, rfl⟩, _, ⟨min_le_right _ _, rfl⟩, _,
    ⟨min_le_right _ _, rfl⟩, _, ⟨by omega, rfl⟩, _, ⟨by omega, rfl⟩, _, ⟨by omega, rfl⟩, _,
    ⟨by omega, rfl⟩, _, ⟨min_le_right _ _, rfl⟩, _, hmargin _, _,
    repayLoan_fits _ _ _ by_ hr.time hi hr.interestAnnual hr.interest ?_, rfl⟩
  change self.lppLoan.repayment + _ < _
  omega

/-! ## A full close -/

theorem totalDue_evaluates (lease : Lease) (now : ℕ) (h : lease.loan.marginPaidBy ≤ now) :
    Evaluates (lease.totalDue now) (lease.loan.stateAt now).dues.sum := by
  have hsum : (lease.loan.stateAt now).dues.sum =
      (lease.loan.stateAt now).principalDue + (lease.loan.stateAt now).overdue.margin +
        (lease.loan.stateAt now).overdue.interest + (lease.loan.stateAt now).dueMarginInterest +
        (lease.loan.stateAt now).dueInterest := by
    simp only [State.dues, List.sum_cons, List.sum_nil]
    omega
  rw [hsum]
  apply evaluates_bind _ _ _ _ (nativeAdd_evaluates _ _ _)
  apply evaluates_bind _ _ _ _ (state_evaluates lease.loan now h)
  apply evaluates_bind _ _ _ _ (collection_evaluates _ _)
  apply evaluates_bind _ _ _ _ (coinAdd_evaluates _ _)
  apply evaluates_bind _ _ _ _ (coinAdd_evaluates _ _)
  apply evaluates_bind _ _ _ _ (coinAdd_evaluates _ _)
  exact coinAdd_evaluates _ _

structure Settleable (lease : Lease) (payment now : ℕ) : Prop where
  accrues : InRange lease.loan now
  paidBy : lease.loan.lppLoan.loan.interestPaid < 2 ^ timeBits
  principal : lease.loan.lppLoan.loan.principalDue < 2 ^ amountBits
  overdue : Estimable (lease.loan.stateAt now) lease.position.spec.minTransaction
  scheduled : lease.loan.lppLoan.repayment + max (lease.loan.stateAt now).dues.sum payment <
    2 ^ amountBits

theorem totalDue_fits (lease : Lease) (payment now : ℕ) (h : lease.loan.marginPaidBy ≤ now)
    (hs : Settleable lease payment now) : ∃ totalDue, lease.totalDue now = .ok totalDue := by
  have htime := hs.accrues.time
  have hstate := @state_fits ContractError lease.loan now h hs.accrues
  have hdues := hs.scheduled
  obtain ⟨collected, hcollected⟩ :=
    (@collection_returns_iff ContractError _ _ hs.principal).2 hs.overdue
  simp only [State.dues, List.sum_cons, List.sum_nil] at hdues
  simp only [Lease.totalDue, bind_ok, nativeAdd_ok, coinAdd_ok]
  exact ⟨_, _, ⟨htime, rfl⟩, _, hstate, _, hcollected, _, ⟨by omega, rfl⟩, _, ⟨by omega, rfl⟩, _,
    ⟨by omega, rfl⟩, by omega, rfl⟩

def settled (lease : Lease) (payment now : ℕ) : Repayment :=
  lease.loan.repaymentAt (max (lease.loan.stateAt now).dues.sum payment) now

def settlement (lease : Lease) (payment now : ℕ) : FullRepayReceipt where
  receipt := (settled lease payment now).receipt
  losses :=
    if payment < (lease.loan.stateAt now).dues.sum then
      some ((lease.loan.stateAt now).dues.sum - payment)
    else none
  lppRepay := (settled lease payment now).loan.lppLoan.message
  profit := (settled lease payment now).profit
  change := (settled lease payment now).receipt.change

theorem closeFull_evaluates (lease : Lease) (payment now : ℕ)
    (h : lease.loan.marginPaidBy ≤ now) :
    Evaluates (lease.closeFull payment now) (settlement lease payment now) := by
  apply evaluates_bind _ _ _ _ (totalDue_evaluates lease now h)
  apply evaluates_bind _ _ ⟨{ lease with loan := (settled lease payment now).loan },
    (settled lease payment now).profit, (settled lease payment now).receipt⟩
  · apply evaluates_bind _ _ _ _ (repay_evaluates lease.loan _ now h)
    exact evaluates_pure _
  · exact evaluates_pure _

theorem closeFull_fits (lease : Lease) (payment now : ℕ) (h : lease.loan.marginPaidBy ≤ now)
    (hs : Settleable lease payment now) :
    ∃ receipt, lease.closeFull payment now = .ok receipt := by
  obtain ⟨totalDue, htotal⟩ := totalDue_fits lease payment now h hs
  have hdue := evaluates_ok _ _ _ (totalDue_evaluates lease now h) htotal
  subst hdue
  obtain ⟨r, hrepay⟩ :=
    @repay_returns ContractError lease.loan _ now h hs.paidBy hs.accrues hs.scheduled
  simp only [Lease.closeFull, Lease.repay, bind_ok, pure_ok]
  exact ⟨_, _, htotal, _, ⟨r, hrepay, rfl⟩, rfl⟩

theorem settlement_losses (lease : Lease) (payment now : ℕ) :
    (settlement lease payment now).losses.getD 0 =
      (lease.loan.stateAt now).dues.sum - payment := by
  unfold settlement
  simp only
  split_ifs with hshort
  · rfl
  · rw [Option.getD_none]
    omega

theorem settlement_change (lease : Lease) (payment now : ℕ) :
    (settlement lease payment now).change = payment - (lease.loan.stateAt now).dues.sum := by
  have hchange := receipt_change (lease.loan.stateAt now)
    (max (lease.loan.stateAt now).dues.sum payment)
  change ((lease.loan.stateAt now).receipt _).change = _
  rw [hchange]
  omega

/-- A full close only overflows, and it does not when all it computes is in range. It draws from
the reserve what the payment is short of the total due, repays the loan in full and gives back
what the payment is above the total due. -/
theorem close_full_settles (lease : Lease) (payment now : ℕ)
    (h : lease.loan.marginPaidBy ≤ now) :
    FaultsIn Overflows (lease.closeFull payment now) ∧
    (Settleable lease payment now → ∃ receipt, lease.closeFull payment now = .ok receipt) ∧
    ∀ receipt, lease.closeFull payment now = .ok receipt →
      ∃ totalDue repaid, lease.totalDue now = .ok totalDue ∧
        lease.repay (max totalDue payment) now = .ok repaid ∧
        receipt.losses.getD 0 = totalDue - payment ∧
        receipt.receipt = repaid.receipt ∧ receipt.receipt.close = true ∧
        receipt.receipt.principalPaid = lease.loan.lppLoan.loan.principalDue ∧
        repaid.lease.loan.lppLoan.loan.principalDue = 0 ∧
        receipt.lppRepay = repaid.lease.loan.lppLoan.message ∧
        receipt.change = payment - totalDue := by
  have heval := closeFull_evaluates lease payment now h
  refine ⟨evaluates_faults _ _ heval, closeFull_fits lease payment now h, ?_⟩
  intro receipt hok
  have hvalue := evaluates_ok _ _ _ heval hok
  simp only [Lease.closeFull, bind_ok] at hok
  obtain ⟨totalDue, htotal, repaid, hrepay, -⟩ := hok
  have hdue := evaluates_ok _ _ _ (totalDue_evaluates lease now h) htotal
  subst hdue
  obtain ⟨-, -, hrepaid⟩ := doRepay_ok .repayLease lease _ now repaid hrepay
  have hclose : (settled lease payment now).receipt.close = true :=
    (closes_iff lease.loan _ now).2 (le_max_left _ _)
  have hzero := (close_iff_repaid lease.loan _ now h).1 hclose
  subst hvalue hrepaid
  exact ⟨_, _, htotal, hrepay, settlement_losses lease payment now, rfl, hclose,
    covered_principal _ _ (le_max_left _ _), hzero, rfl, settlement_change lease payment now⟩

/-- A payment short of the total due, with some interest and margin overdue. -/
theorem close_full_settles_sample :
    (sampleLease 1000).loan.marginPaidBy ≤ year ∧ ∃ receipt,
      (sampleLease 1000).closeFull 500 year = .ok receipt ∧
        (sampleLease 1000).totalDue year = .ok 690 ∧ receipt.losses = some 190 ∧
        receipt.receipt.close = true ∧ receipt.change = 0 := by
  have hle : (sampleLease 1000).loan.marginPaidBy ≤ year := Nat.zero_le _
  have htotal : (sampleLease 1000).totalDue year = .ok 690 := by rfl
  have hin : InRange (sampleLease 1000).loan year :=
    ⟨by decide, by decide, by decide, by decide, by decide⟩
  have hs : Settleable (sampleLease 1000) 500 year :=
    ⟨hin, by decide, by decide, ⟨by decide, by decide, by decide, by decide⟩, by decide⟩
  obtain ⟨_, hreturns, hsettles⟩ := close_full_settles (sampleLease 1000) 500 year hle
  obtain ⟨receipt, hreceipt⟩ := hreturns hs
  obtain ⟨totalDue, _, hdue, -, -, -, hclose, -, -, -, hchange⟩ := hsettles receipt hreceipt
  have heq : totalDue = 690 := Except.ok.inj (hdue.symm.trans htotal)
  subst heq
  refine ⟨hle, receipt, hreceipt, htotal, ?_, hclose, hchange⟩
  have hvalue := evaluates_ok _ _ _ (closeFull_evaluates (sampleLease 1000) 500 year hle) hreceipt
  rw [hvalue]
  rfl

end Nolus.LeaseSettle
