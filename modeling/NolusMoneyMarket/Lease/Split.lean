import NolusMoneyMarket.Lease.Loan

/-! # The split of a lease payment

A lease payment is a payment in order over the dues of the lease, and the pool
splits the lump sum it gets into exactly the interest and the principal the
lease has meant. Both hold for any relation between the two time points
interest is paid by: the dues are differences of the same accruals. -/

set_option autoImplicit false

namespace Nolus.LeaseSplit
open Nolus.Fallible Nolus.Fraction Nolus.Interest Nolus.Periods Nolus.Waterfall
open Nolus.LppLoan Nolus.LeaseLoan

variable {ε : Type}

theorem due_mono (loan : LppLoan.Loan) (t u : ℕ) (h : t ≤ u) : loan.due t ≤ loan.due u :=
  accrued_mono _ _ _ _ (le_refl _) (by omega)

theorem overdue_interest_le (self : LeaseLoan.Loan) (now : ℕ) (h : self.marginPaidBy ≤ now) :
    (self.overdueAt now).interest ≤ self.lppLoan.loan.due now := by
  unfold Loan.overdueAt
  split_ifs
  · exact Nat.zero_le _
  · apply due_mono
    simp only [Loan.overdueTill, Loan.elapsed]
    omega

theorem overdue_margin_le (self : LeaseLoan.Loan) (now : ℕ) :
    (self.overdueAt now).margin ≤ accrued (self.marginAnnual) (self.elapsed now) := by
  unfold Loan.overdueAt
  split_ifs
  · exact Nat.zero_le _
  · exact accrued_mono _ _ _ _ (le_refl _) (Nat.sub_le _ _)

theorem overduePeriod_evaluates (start now maxDue : ℕ) (h : start ≤ now)
    (hd : maxDue ≤ now - start) :
    Evaluates (overduePeriod ⟨start, now - start⟩ maxDue : Outcome ε Period)
      ⟨start, now - start - maxDue⟩ := by
  unfold overduePeriod
  split_ifs with he
  · have hp := @tillLength_evaluates ε start 0
    simp only [Nat.sub_zero, Nat.sub_self] at hp
    rw [show now - start - maxDue = 0 by simp only at he; omega]
    exact hp
  · simp only at he
    apply evaluates_bind _ _ _ _ (till_evaluates start now h)
    apply evaluates_bind _ _ _ _ (tillLength_evaluates now maxDue)
    have hcut := @cut_suffix_evaluates ε start (now - maxDue) now (by omega) (Nat.sub_le _ _)
    rwa [show now - maxDue - start = now - start - maxDue by omega] at hcut

theorem overdue_evaluates (self : LeaseLoan.Loan) (now : ℕ) (h : self.marginPaidBy ≤ now) :
    Evaluates (Overdue.new ⟨self.marginPaidBy, self.elapsed now⟩ self.duePeriod
      self.marginInterest self.lppLoan : Outcome ε Overdue) (self.overdueAt now) := by
  unfold Overdue.new Loan.overdueAt
  split_ifs with hlt
  · apply evaluates_bind _ _ _ _ (nativeSub_evaluates _ _ (le_of_lt hlt))
    exact evaluates_pure _
  · have hd : self.duePeriod ≤ now - self.marginPaidBy := Nat.le_of_not_lt hlt
    apply evaluates_bind _ _ _ _ (overduePeriod_evaluates _ now _ h hd)
    apply evaluates_bind _ _ _ _ (interest_evaluates _ _ _ (percent_total_pos _))
    apply evaluates_bind _ _ _ _ (nativeAdd_evaluates _ _ _)
    apply evaluates_bind _ _ _ _ (interestDue_evaluates _ _)
    exact evaluates_pure _

theorem state_evaluates (self : LeaseLoan.Loan) (now : ℕ) (h : self.marginPaidBy ≤ now) :
    Evaluates (self.state now : Outcome ε State) (self.stateAt now) := by
  apply evaluates_bind _ _ _ _ (fromTill_evaluates _ _ h)
  apply evaluates_bind _ _ _ _ (overdue_evaluates self now h)
  apply evaluates_bind _ _ _ _ (interest_evaluates _ _ _ (percent_total_pos _))
  apply evaluates_bind _ _ _ _ (nativeSub_evaluates _ _ (overdue_margin_le self now))
  apply evaluates_bind _ _ _ _ (till_evaluates _ _ h)
  apply evaluates_bind _ _ _ _ (interestDue_evaluates _ _)
  apply evaluates_bind _ _ _ _ (nativeSub_evaluates _ _ (overdue_interest_le self now h))
  exact evaluates_pure _

theorem receipt_payments (state : State) (payment : ℕ) :
    (state.receipt payment).payments = waterfall state.dues payment := by
  have hrest : ∀ a b c d : ℕ, payment - (a + c) - (b + d) = payment - a - b - c - d := by
    intro a b c d
    omega
  simp only [Receipt.payments, State.receipt, Receipt.new, State.dues, waterfall, hrest]

theorem receipt_sum (state : State) (payment : ℕ) :
    (state.receipt payment).payments.sum = payment := by
  rw [receipt_payments]
  exact waterfall_sum _ _

theorem principal_paid (state : State) (payment : ℕ) :
    (state.receipt payment).principalPaid =
      min state.principalDue (payment - state.dues.dropLast.sum) := by
  have hat := waterfall_at state.dues.dropLast state.principalDue [] payment
  have hdues : state.dues.dropLast ++ [state.principalDue] = state.dues := rfl
  rw [hdues, ← receipt_payments] at hat
  exact Option.some.inj hat

theorem receipt_inOrder (state : State) (payment : ℕ) :
    InOrder state.dues (state.receipt payment).payments := by
  rw [receipt_payments]
  exact waterfall_inOrder _ _

theorem repayMargin_evaluates (self : LeaseLoan.Loan) (marginPaid by_ : ℕ)
    (h : self.marginPaidBy ≤ by_) :
    Evaluates (self.repayMargin self.lppLoan.loan.principalDue marginPaid by_ :
        Outcome ε (LeaseLoan.Loan × ℕ))
      (self.marginRepaid marginPaid by_, marginPaid - self.marginDue by_) := by
  apply evaluates_bind _ _ _ _ (nativeSub_evaluates _ _ h)
  apply evaluates_bind _ _ _ _ (pay_evaluates _ _ _ _ (percent_total_pos _))
  apply evaluates_bind _ _ _ _ (nativeAdd_evaluates _ _ _)
  exact evaluates_pure _

theorem repayLoan_evaluates (self : LeaseLoan.Loan) (interestPaid principalPaid by_ : ℕ) :
    Evaluates (self.repayLoan interestPaid principalPaid by_ :
        Outcome ε (LeaseLoan.Loan × RepayShares))
      (self.loanRepaid (interestPaid + principalPaid) by_,
        self.lppLoan.loan.shares by_ (interestPaid + principalPaid)) := by
  apply evaluates_bind _ _ _ _ (coinAdd_evaluates _ _)
  apply evaluates_bind _ _ (⟨self.lppLoan.loan.repaid by_ (interestPaid + principalPaid),
    self.lppLoan.repayment + (interestPaid + principalPaid)⟩, _)
  · apply evaluates_bind _ _ _ _ (nativeAdd_evaluates _ _ _)
    apply evaluates_bind _ _ _ _ (LppLoan.repay_evaluates _ _ _)
    exact evaluates_pure _
  · exact evaluates_pure _

theorem repay_evaluates (self : LeaseLoan.Loan) (payment by_ : ℕ)
    (h : self.marginPaidBy ≤ by_) :
    Evaluates (self.repay payment by_ : Outcome ε Repayment) (self.repaymentAt payment by_) := by
  apply evaluates_bind _ _ _ _ (state_evaluates self by_ h)
  apply evaluates_bind _ _ _ _ (nativeSub_evaluates _ _ (min_le_right _ _))
  apply evaluates_bind _ _ _ _ (nativeSub_evaluates _ _ (min_le_right _ _))
  apply evaluates_bind _ _ _ _ (nativeSub_evaluates _ _ (min_le_right _ _))
  apply evaluates_bind _ _ _ _ (coinAdd_evaluates _ _)
  apply evaluates_bind _ _ _ _ (coinAdd_evaluates _ _)
  apply evaluates_bind _ _ _ _ (nativeSub_evaluates _ _ (by omega))
  apply evaluates_bind _ _ _ _ (nativeSub_evaluates _ _ (by omega))
  apply evaluates_bind _ _ _ _ (nativeSub_evaluates _ _ (min_le_right _ _))
  apply evaluates_bind _ _ _ _ (repayMargin_evaluates _ _ _ h)
  apply evaluates_bind _ _ _ _ (repayLoan_evaluates _ _ _ _)
  exact evaluates_pure _

theorem interest_dues (self : LeaseLoan.Loan) (now : ℕ) (h : self.marginPaidBy ≤ now) :
    (self.stateAt now).overdue.interest + (self.stateAt now).dueInterest =
      self.lppLoan.loan.due now :=
  Nat.add_sub_cancel' (overdue_interest_le self now h)

theorem margin_dues (self : LeaseLoan.Loan) (now : ℕ) :
    (self.stateAt now).overdue.margin + (self.stateAt now).dueMarginInterest =
      self.marginDue now :=
  Nat.add_sub_cancel' (overdue_margin_le self now)

theorem interest_before_principal (state : State) (payment : ℕ) :
    (state.receipt payment).interestPaid = state.overdue.interest + state.dueInterest ∨
      (state.receipt payment).principalPaid = 0 := by
  have horder := receipt_inOrder state payment
  simp only [State.dues, Receipt.payments, InOrder, List.mem_cons, List.not_mem_nil, or_false,
    forall_eq_or_imp, forall_eq] at horder
  simp only [Receipt.interestPaid]
  omega

theorem interest_paid_le (state : State) (payment : ℕ) :
    (state.receipt payment).interestPaid ≤ state.overdue.interest + state.dueInterest := by
  have horder := receipt_inOrder state payment
  simp only [State.dues, Receipt.payments, InOrder] at horder
  simp only [Receipt.interestPaid]
  omega

theorem margin_paid_le (state : State) (payment : ℕ) :
    (state.receipt payment).marginPaid ≤ state.overdue.margin + state.dueMarginInterest := by
  have horder := receipt_inOrder state payment
  simp only [State.dues, Receipt.payments, InOrder] at horder
  simp only [Receipt.marginPaid]
  omega

theorem principal_paid_le (state : State) (payment : ℕ) :
    (state.receipt payment).principalPaid ≤ state.principalDue := by
  have horder := receipt_inOrder state payment
  simp only [State.dues, Receipt.payments, InOrder] at horder
  exact horder.2.2.2.2.2.2.2.2.1

theorem shares_of_parts (loan : LppLoan.Loan) (by_ interest principal : ℕ)
    (hi : interest ≤ loan.due by_) (hp : principal ≤ loan.principalDue)
    (h : interest = loan.due by_ ∨ principal = 0) :
    loan.shares by_ (interest + principal) = ⟨interest, principal, 0⟩ := by
  simp only [LppLoan.Loan.shares, RepayShares.mk.injEq]
  omega

theorem pool_shares (self : LeaseLoan.Loan) (payment by_ : ℕ) (h : self.marginPaidBy ≤ by_) :
    self.lppLoan.loan.shares by_ ((self.stateAt by_).receipt payment).lppPaid =
      ⟨((self.stateAt by_).receipt payment).interestPaid,
        ((self.stateAt by_).receipt payment).principalPaid, 0⟩ := by
  have hdue := interest_dues self by_ h
  have hle := interest_paid_le (self.stateAt by_) payment
  have hbefore := interest_before_principal (self.stateAt by_) payment
  rw [hdue] at hle hbefore
  exact shares_of_parts _ _ _ _ hle (principal_paid_le (self.stateAt by_) payment) hbefore

theorem margin_change (self : LeaseLoan.Loan) (payment by_ : ℕ) :
    (self.repaymentAt payment by_).marginChange = 0 := by
  have hle := margin_paid_le (self.stateAt by_) payment
  rw [margin_dues] at hle
  exact Nat.sub_eq_zero_of_le hle

theorem close_iff_repaid (self : LeaseLoan.Loan) (payment by_ : ℕ)
    (h : self.marginPaidBy ≤ by_) :
    (self.repaymentAt payment by_).receipt.close = true ↔
      (self.repaymentAt payment by_).loan.lppLoan.loan.principalDue = 0 := by
  have hshares := pool_shares self payment by_ h
  have hle := principal_paid_le (self.stateAt by_) payment
  have hleft : (self.repaymentAt payment by_).loan.lppLoan.loan.principalDue =
      (self.stateAt by_).principalDue - ((self.stateAt by_).receipt payment).principalPaid := by
    change self.lppLoan.loan.principalDue - (self.lppLoan.loan.shares by_
      ((self.stateAt by_).receipt payment).lppPaid).principal = _
    rw [hshares]
    rfl
  rw [hleft, Nat.sub_eq_zero_iff_le]
  change decide ((self.stateAt by_).principalDue =
    ((self.stateAt by_).receipt payment).principalPaid) = true ↔ _
  rw [decide_eq_true_iff]
  omega

theorem repay_reaches_pool (self : LeaseLoan.Loan) (payment by_ : ℕ) (r : Repayment)
    (h : (self.repay payment by_ : Outcome ε Repayment) = .ok r) :
    (self.lppLoan.loan.repay by_ r.receipt.lppPaid : Outcome ε (LppLoan.Loan × RepayShares)) =
      .ok (r.loan.lppLoan.loan, r.shares) := by
  simp only [LeaseLoan.Loan.repay, bind_ok, coinAdd_ok, nativeSub_ok, pure_ok,
    LeaseLoan.Loan.repayMargin, Loan.repayLoan, LeaseLoan.LppLoan.repay] at h
  obtain ⟨_, -, _, -, _, -, _, -, _, ⟨-, rfl⟩, _, ⟨-, rfl⟩, _, -, _, -, _, -, _,
    ⟨_, -, _, -, _, -, rfl⟩, _, ⟨_, ⟨-, rfl⟩, _, ⟨_, -, _, hpool, rfl⟩, rfl⟩, rfl⟩ := h
  exact hpool

theorem repay_state (self : LeaseLoan.Loan) (payment by_ : ℕ) (r : Repayment)
    (hle : self.marginPaidBy ≤ by_)
    (h : (self.repay payment by_ : Outcome ε Repayment) = .ok r) :
    (self.state by_ : Outcome ε State) = .ok (self.stateAt by_) := by
  simp only [LeaseLoan.Loan.repay, bind_ok] at h
  obtain ⟨state, hs, -⟩ := h
  rw [hs, evaluates_ok _ _ _ (state_evaluates self by_ hle) hs]

/-- A lease payment is split in order over the dues, and the pool makes of the lump sum
it is sent the very interest and principal the lease has made of it. -/
theorem lease_payment_split (self : LeaseLoan.Loan) (payment by_ : ℕ)
    (h : self.marginPaidBy ≤ by_) :
    FaultsIn Overflows (self.repay payment by_ : Outcome ε Repayment) ∧
    ∀ r : Repayment, (self.repay payment by_ : Outcome ε Repayment) = .ok r →
      ∃ state : State, (self.state by_ : Outcome ε State) = .ok state ∧
        r.receipt.payments.sum = payment ∧
        InOrder state.dues r.receipt.payments ∧
        r.marginChange = 0 ∧
        r.loan.lppLoan.repayment = self.lppLoan.repayment + r.receipt.lppPaid ∧
        (self.lppLoan.loan.repay by_ r.receipt.lppPaid : Outcome ε (LppLoan.Loan × RepayShares)) =
          .ok (r.loan.lppLoan.loan, ⟨r.receipt.interestPaid, r.receipt.principalPaid, 0⟩) ∧
        (r.receipt.close = true ↔ r.loan.lppLoan.loan.principalDue = 0) := by
  constructor
  · exact evaluates_faults _ _ (repay_evaluates self payment by_ h)
  intro r hr
  have hstate := repay_state self payment by_ r h hr
  have hpool := repay_reaches_pool self payment by_ r hr
  have hr' := evaluates_ok _ _ _ (repay_evaluates self payment by_ h) hr
  subst hr'
  have hshares : (self.repaymentAt payment by_).shares =
      ⟨_, _, 0⟩ := pool_shares self payment by_ h
  rw [hshares] at hpool
  exact ⟨_, hstate, receipt_sum _ _, receipt_inOrder _ _, margin_change self payment by_, rfl,
    hpool, close_iff_repaid self payment by_ h⟩

def sampleLoan : LeaseLoan.Loan :=
  ⟨⟨⟨1000, 100, year / 4⟩, 0⟩, year / 2, 50, 0⟩

theorem lease_payment_split_sample :
    sampleLoan.marginPaidBy ≤ year ∧
    ∃ r : Repayment, (sampleLoan.repay 500 year : Outcome Empty Repayment) = .ok r ∧
      r.receipt.payments = [25, 25, 50, 25, 375, 0] ∧
      (sampleLoan.lppLoan.loan.repay year r.receipt.lppPaid :
        Outcome Empty (LppLoan.Loan × RepayShares)) = .ok (r.loan.lppLoan.loan, ⟨75, 375, 0⟩) := by
  have hle : sampleLoan.marginPaidBy ≤ year := Nat.zero_le _
  have hr : (sampleLoan.repay 500 year : Outcome Empty Repayment) =
      .ok (sampleLoan.repaymentAt 500 year) := by rfl
  obtain ⟨_, -, -, -, -, -, hpool, -⟩ := (lease_payment_split sampleLoan 500 year hle).2 _ hr
  exact ⟨hle, _, hr, rfl, hpool⟩

end Nolus.LeaseSplit
