import NolusMoneyMarket.Lease.Dues
import NolusMoneyMarket.Lease.Fresh
import NolusMoneyMarket.Lease.Lease

/-! # The status past a payment

The splitter of a payment decides whether the loan is closed, the checks of
the close policy and of the debt decide on the status. A payment below the
total due leaves some principal, hence some due, and the status is not paid.
A payment of the total due leaves no due at all: the debt would be none, but
the close policy is asked first and a zero due is below any take profit. -/

set_option autoImplicit false

namespace Nolus.LeasePayment
open Nolus.Fallible Nolus.Fraction Nolus.Interest Nolus.Periods Nolus.Prices
open Nolus.LppLoan hiding ContractError
open Nolus.LeaseLiability Nolus.LeaseLoan Nolus.LeasePosition Nolus.LeaseSteady
open Nolus.LeaseSplit Nolus.LeaseDues Nolus.LeaseFresh Nolus.Leases

variable {ε : Type}

theorem state_time (self : LeaseLoan.Loan) (now : ℕ) (state : State)
    (h : (self.state now : Outcome ε State) = .ok state) :
    self.marginPaidBy ≤ now ∧ now < 2 ^ timeBits := by
  simp only [LeaseLoan.Loan.state, Period.fromTill, between, bind_ok, nativeSub_ok, pure_ok,
    Period.till, nativeAdd_ok] at h
  obtain ⟨period, ⟨length, ⟨hle, rfl⟩, rfl⟩, _, -, _, -, _, -, till, ⟨hlt, rfl⟩, -⟩ := h
  simp only at hlt
  omega

theorem repay_time (self : LeaseLoan.Loan) (payment now : ℕ) (r : Repayment)
    (h : (self.repay payment now : Outcome ε Repayment) = .ok r) :
    self.marginPaidBy ≤ now ∧ now < 2 ^ timeBits := by
  simp only [LeaseLoan.Loan.repay, bind_ok] at h
  obtain ⟨state, hstate, -⟩ := h
  exact state_time self now state hstate

theorem no_principal_no_dues (self : LeaseLoan.Loan) (now : ℕ)
    (h : self.lppLoan.loan.principalDue = 0) : (self.stateAt now).dues.sum = 0 := by
  have hdue : ∀ by_, self.lppLoan.loan.due by_ = 0 := by
    intro by_
    simp [LppLoan.Loan.due, LppLoan.Loan.annualInterest, h, Ratio.part, accrued]
  have hmargin : ∀ period, accrued self.marginAnnual period = 0 := by
    intro period
    simp [LeaseLoan.Loan.marginAnnual, h, Ratio.part, accrued]
  have hoverdue : (self.overdueAt now).interest = 0 ∧ (self.overdueAt now).margin = 0 := by
    unfold LeaseLoan.Loan.overdueAt
    split_ifs
    · exact ⟨rfl, rfl⟩
    · exact ⟨hdue _, hmargin _⟩
  simp [State.dues, LeaseLoan.Loan.stateAt, h, hdue, hmargin, hoverdue]

theorem receipt_close_iff (state : State) (payment : ℕ)
    (h : state.principalDue = 0 → state.dues.sum = 0) :
    (state.receipt payment).close = true ↔ state.dues.sum ≤ payment := by
  have hclose : (state.receipt payment).close = true ↔
      state.principalDue = (state.receipt payment).principalPaid := decide_eq_true_iff
  have hsum : state.dues.sum = state.dues.dropLast.sum + state.principalDue := by
    simp [State.dues, add_assoc]
  rw [hclose, principal_paid]
  omega

theorem closes_iff (self : LeaseLoan.Loan) (payment now : ℕ) :
    (self.repaymentAt payment now).receipt.close = true ↔
      (self.stateAt now).dues.sum ≤ payment :=
  receipt_close_iff _ _ (no_principal_no_dues self now)

theorem no_principal_state (self : LeaseLoan.Loan) (now : ℕ)
    (h : self.lppLoan.loan.principalDue = 0) (hle : self.marginPaidBy ≤ now)
    (hb : now < 2 ^ timeBits) :
    (self.state now : Outcome ε State) = .ok (self.stateAt now) := by
  apply state_fits self now hle
  constructor
  · exact hb
  · simp [LppLoan.Loan.annualInterest, h, Ratio.part]
  · simp [LppLoan.Loan.due, LppLoan.Loan.annualInterest, h, Ratio.part, accrued]
  · simp [LeaseLoan.Loan.marginAnnual, h, Ratio.part]
  · simp [LeaseLoan.Loan.marginDue, LeaseLoan.Loan.marginAnnual, h, Ratio.part, accrued]

/-- A payment that succeeds repays the loan as of the time it is made, past shrinking the position. -/
theorem doRepay_ok (repayFn : RepayFn) (lease : Lease) (amount now : ℕ) (repaid : Repaid)
    (h : repayFn.doRepay lease amount now = .ok repaid) :
    lease.loan.marginPaidBy ≤ now ∧ now < 2 ^ timeBits ∧
      repaid = ⟨{ lease with
          position := { lease.position with amount := lease.position.amount - repayFn.asset }
          loan := (lease.loan.repaymentAt amount now).loan },
        (lease.loan.repaymentAt amount now).profit,
        (lease.loan.repaymentAt amount now).receipt⟩ := by
  have hrepay : ∀ (position : Position) (repaid : Repaid),
      Lease.repay { lease with position := position } amount now = .ok repaid →
      lease.loan.marginPaidBy ≤ now ∧ now < 2 ^ timeBits ∧
        repaid = ⟨{ lease with
            position := position
            loan := (lease.loan.repaymentAt amount now).loan },
          (lease.loan.repaymentAt amount now).profit,
          (lease.loan.repaymentAt amount now).receipt⟩ := by
    intro position repaid hr
    simp only [Lease.repay, bind_ok, pure_ok] at hr
    obtain ⟨r, hr, rfl⟩ := hr
    obtain ⟨hle, hb⟩ := repay_time lease.loan amount now r hr
    have hvalue := evaluates_ok _ _ _ (repay_evaluates lease.loan amount now hle) hr
    subst hvalue
    exact ⟨hle, hb, rfl⟩
  cases repayFn with
  | repayLease => exact hrepay lease.position repaid h
  | close asset =>
    simp only [RepayFn.doRepay, Lease.closePartial, Position.close, bind_ok, nativeSub_ok,
      pure_ok] at h
    obtain ⟨_, ⟨_, ⟨-, rfl⟩, rfl⟩, h⟩ := h
    exact hrepay _ repaid h

theorem repaid_margin_time (self : LeaseLoan.Loan) (payment now : ℕ) (h : self.marginPaidBy ≤ now) :
    (self.repaymentAt payment now).loan.marginPaidBy ≤ now := by
  have hle := paidFor_le (self.marginDue now) ((self.stateAt now).receipt payment).marginPaid
    (self.elapsed now)
  simp only [LeaseLoan.Loan.repaymentAt, LeaseLoan.Loan.loanRepaid, LeaseLoan.Loan.marginRepaid,
    LeaseLoan.Loan.elapsed] at hle ⊢
  omega

theorem totalDue_ok (state : State) (totalDue : ℕ)
    (h : (State.due state : Due ε).totalDue = .ok totalDue) : totalDue = state.dues.sum := by
  simp only [State.due, State.totalDueInterest, bind_ok, coinAdd_ok] at h
  obtain ⟨_, ⟨_, ⟨-, rfl⟩, _, ⟨-, rfl⟩, -, rfl⟩, -, rfl⟩ := h
  simp only [State.dues, List.sum_cons, List.sum_nil]
  omega

theorem totalDue_zero (state : State) (h : state.dues.sum = 0) :
    (State.due state : Due ε).totalDue = .ok 0 := by
  simp only [State.dues, List.sum_cons, List.sum_nil] at h
  have hbits : 0 < 2 ^ amountBits := by decide
  simp only [State.due, State.totalDueInterest, bind_ok, coinAdd_ok]
  exact ⟨0, ⟨0, by omega, 0, by omega, by omega, by omega⟩, by omega, by omega⟩

def Untriggered (policy : Policy) (asset : ℕ) : Prop :=
  (∀ sl ∈ policy.stopLoss, 0 < portion asset sl) ∧
    ∀ tp ∈ policy.takeProfit, portion asset tp = 0

theorem untriggered_iff (spec : Spec) (asset : ℕ) (ha : asset < 2 ^ amountBits) :
    (spec.close.mayTrigger asset 0 : Outcome ε _) = .ok none ↔ Untriggered spec.close asset := by
  constructor
  · intro h
    obtain ⟨hsl, htp⟩ := triggered_none _ _ _ h
    exact ⟨hsl, fun tp ht => Nat.le_zero.1 (htp tp ht)⟩
  · intro h
    exact not_triggered spec asset 0 ha h.1 (fun tp ht => (h.2 tp ht).le)

theorem checkClose_zero (spec : Spec) (asset : ℕ) (due : Due ε) (price : Price) (hp : Proper price)
    (h : due.totalDue = .ok 0) :
    spec.checkClose asset due price = spec.close.mayTrigger asset 0 := by
  have hassets : (toAssets 0 price : Outcome ε ℕ) = .ok 0 := by
    have hfits := @toAssets_fits ε 0 price hp
    rw [assetsDue_zero] at hfits
    exact hfits (by decide)
  rw [Spec.checkClose, h]
  simp [bind, Except.bind, hassets]

theorem amountToLiquidate_zero (self : Liability) (asset : ℕ) (ha : asset < 2 ^ amountBits) :
    (self.amountToLiquidate asset 0 : Outcome ε ℕ) = .ok 0 := by
  obtain ⟨-, -, h1, h2, h3, h4, h5, -⟩ := held_limits self
  by_cases hbound : 0 < portion asset self.max
  · exact nothing_to_liquidate _ _ _ ha hbound
  rw [Liability.amountToLiquidate, bind_ok]
  refine ⟨_, portion_of asset self.max ha h5, ?_⟩
  rw [if_neg hbound]
  split_ifs with hasset
  · have h0 : asset = 0 := by omega
    rw [h0]
    rfl
  · have hpos : 0 < hundred - self.healthy := by omega
    simp only [bind_ok, nativeSub_ok]
    refine ⟨_, ⟨by omega, rfl⟩, _, portion_of asset self.healthy ha (by omega), 0,
      ⟨by omega, by omega⟩, ?_⟩
    rw [Ratio.of, safeMul_fits _ _ _ hpos (by simp [Ratio.part])]
    simp [Ratio.part]

theorem collection_zero (state : State) (minAmount : ℕ) (collection : OverdueCollection)
    (h0 : state.dues.sum = 0)
    (h : (State.due state : Due ε).overdueCollection minAmount = .ok collection) :
    collection.amount = 0 := by
  simp only [State.dues, List.sum_cons, List.sum_nil] at h0
  simp only [State.due, State.totalDueInterest, bind_ok, coinAdd_ok, pure_ok] at h
  obtain ⟨_, ⟨_, ⟨-, rfl⟩, _, ⟨-, rfl⟩, -, rfl⟩, _, -, rfl⟩ := h
  split_ifs
  · simp only [OverdueCollection.amount]
    omega
  · rfl

/-- A zero due is no debt. -/
theorem debt_zero (spec : Spec) (asset : ℕ) (state : State) (price : Price) (debt : Debt)
    (ha : asset < 2 ^ amountBits) (hp : Proper price) (h0 : state.dues.sum = 0)
    (h : (spec.debt asset (State.due state) price : Outcome ε Debt) = .ok debt) : debt = .no := by
  have hdue := @totalDue_zero ε state h0
  have hassets : ∀ v, (toAssets 0 price : Outcome ε ℕ) = .ok v → v = 0 := by
    intro v hv
    rw [of_ok ⟨0, _⟩ _ _ hp.2 hv]
    exact assetsDue_zero price
  simp only [Spec.debt, bind_ok, hdue, Except.ok.injEq] at h
  obtain ⟨_, rfl, dueAssets, hdueAssets, liability, hliability, overdue, hoverdue, h⟩ := h
  have hd := hassets _ hdueAssets
  subst hd
  have hnone1 : liability = none := by
    simp only [Spec.mayAskLiquidationLiability, bind_ok] at hliability
    obtain ⟨amount, hamount, hask⟩ := hliability
    rw [amountToLiquidate_zero _ _ ha, Except.ok.injEq] at hamount
    rw [← hamount, nothing_asked _ _ _ _ hp] at hask
    exact (Except.ok.inj hask).symm
  have hnone2 : overdue = none := by
    simp only [Spec.mayAskLiquidationOverdue, bind_ok] at hoverdue
    obtain ⟨collection, hcollection, amount, hamount, hask⟩ := hoverdue
    rw [collection_zero _ _ _ h0 hcollection] at hamount
    rw [hassets _ hamount, nothing_asked _ _ _ _ hp] at hask
    exact (Except.ok.inj hask).symm
  subst hnone1 hnone2
  have hnone : later none none = none := by rfl
  rw [hnone] at h
  simp only [bind_ok, Spec.noLiquidation, hdue, Except.ok.injEq] at h
  obtain ⟨_, -, _, -, _, -, _, rfl, h⟩ := h
  rw [if_pos rfl] at h
  exact ((pure_ok _ _).1 h).symm

/-- The collection of a zero due is in the future. -/
theorem collection_zero_fits (state : State) (minAmount : ℕ) (hmin : 0 < minAmount)
    (h0 : state.dues.sum = 0)
    (hrates : state.annualInterest + state.annualInterestMargin < 2 ^ percentBits) :
    ∃ collection, (State.due state : Due ε).overdueCollection minAmount = .ok collection := by
  simp only [State.dues, List.sum_cons, List.sum_nil] at h0
  have hprincipal : state.principalDue = 0 := by omega
  have hbits : 0 < 2 ^ amountBits := by decide
  have htotal : (State.totalDueInterest state : Outcome ε ℕ) = .ok 0 := by
    simp only [State.totalDueInterest, bind_ok, coinAdd_ok]
    exact ⟨0, by omega, 0, by omega, by omega, by omega⟩
  have hinterest : (interest (percent (state.annualInterest + state.annualInterestMargin))
      state.principalDue year : Outcome ε ℕ) = .ok 0 := by
    rw [hprincipal, interest_fits _ _ _ (percent_total_pos _)]
    · simp [accruedOn, accrued, Ratio.part]
    · simp [Ratio.part]
    · simp [accruedOn, accrued, Ratio.part]
  have htime : (State.timeToAccrue state minAmount 0 : Outcome ε ℕ) = .ok durationMax := by
    rw [State.timeToAccrue, if_neg (by omega)]
    simp only [bind_ok, nativeSub_ok, nativeAdd_ok]
    exact ⟨_, ⟨by omega, rfl⟩, _, ⟨hrates, rfl⟩, 0, hinterest, rfl⟩
  simp only [State.due, bind_ok, htotal, Except.ok.injEq]
  exact ⟨_, 0, rfl, _, htime, rfl⟩

theorem debt_zero_fits (spec : Spec) (asset : ℕ) (state : State) (price : Price)
    (ha : asset < 2 ^ amountBits) (hpos : 0 < asset) (hp : Proper price) (h0 : state.dues.sum = 0)
    (hrates : state.annualInterest + state.annualInterestMargin < 2 ^ percentBits) :
    (spec.debt asset (State.due state) price : Outcome ε Debt) = .ok .no := by
  have hdue := @totalDue_zero ε state h0
  obtain ⟨collection, hcollection⟩ := @collection_zero_fits ε state spec.minTransaction
    spec.minTransaction_pos h0 hrates
  have hassets : (toAssets 0 price : Outcome ε ℕ) = .ok 0 := by
    have hfits := @toAssets_fits ε 0 price hp
    rw [assetsDue_zero] at hfits
    exact hfits (by decide)
  have hliability : (spec.mayAskLiquidationLiability asset 0 price : Outcome ε _) = .ok none :=
    (bind_ok _ _ _).2 ⟨0, amountToLiquidate_zero _ _ ha, nothing_asked _ _ _ _ hp⟩
  have hoverdue := overdue_not_asked spec asset _ collection price hp hcollection
    (collection_zero _ _ _ h0 hcollection)
  have hltv : (ltv 0 asset : Outcome ε ℕ) = .ok 0 := by
    have hratio : Ratio.part ⟨0, asset⟩ hundred = 0 := part_zero _ _
    have hfits := @safeMul_fits ε amountBits hundred ⟨0, asset⟩ hpos
    rw [hratio] at hfits
    simp only [ltv, percentFromRatio, percentSafeMul, bind_ok]
    exact ⟨0, hfits (by decide), rfl⟩
  have hnone : later none none = none := by rfl
  simp only [Spec.debt, bind_ok]
  refine ⟨0, hdue, 0, hassets, none, hliability, none, hoverdue, ?_⟩
  rw [hnone]
  simp only [bind_ok, hltv, capToZone_ok, Except.ok.injEq]
  refine ⟨0, rfl, 0, by omega, 0, rfl, ?_⟩
  simp only [Spec.noLiquidation, bind_ok, hdue, Except.ok.injEq]
  exact ⟨0, rfl, rfl⟩

theorem debt_due (spec : Spec) (asset totalDue : ℕ) (due : Due ε) (price : Price) (debt : Debt)
    (hdue : due.totalDue = .ok totalDue) (hpos : 0 < totalDue)
    (h : spec.debt asset due price = .ok debt) : debt ≠ .no := by
  simp only [Spec.debt, bind_ok, hdue, Except.ok.injEq] at h
  obtain ⟨_, rfl, _, -, _, -, _, -, h⟩ := h
  split at h
  · rw [← (pure_ok _ _).1 h]
    simp
  · simp only [bind_ok, Spec.noLiquidation, hdue, Except.ok.injEq] at h
    obtain ⟨_, -, _, -, _, -, _, rfl, h⟩ := h
    rw [if_neg (by omega)] at h
    simp only [bind_ok, pure_ok] at h
    obtain ⟨_, -, _, -, rfl⟩ := h
    simp

theorem tryFromDo_ok (status : CloseStatus) (dto : CloseStatusDTO) (when_ : ℕ)
    (h : (CloseStatusDTO.tryFromDo status when_ : Outcome ε _) = .ok dto) :
    (dto = .paid ↔ status = .paid) ∧
      ∀ strategy, dto = .closeAsked strategy ↔ status = .closeAsked strategy := by
  cases status with
  | none zone steadiness =>
    simp only [CloseStatusDTO.tryFromDo, bind_ok, pure_ok] at h
    obtain ⟨_, -, rfl⟩ := h
    simp
  | paid | closeAsked strategy | needLiquidation liquidation =>
    have hdto := (pure_ok _ _).1 h
    subst hdto
    simp

/-- A check is paid when nothing is triggered and there is no debt, and it asks for a close when
the policy is triggered. -/
theorem check_ok (lease : Lease) (now : ℕ) (price : Price) (dto : CloseStatusDTO)
    (hprice : lease.oracle = .ok price) (h : check lease now = .ok dto) :
    lease.loan.marginPaidBy ≤ now ∧ ∃ strategy,
      lease.position.spec.checkClose lease.position.amount
        (State.due (lease.loan.stateAt now) : Due ContractError) price = .ok strategy ∧
      (∀ asked, dto = .closeAsked asked ↔ strategy = some asked) ∧
      (strategy = none → ∃ debt, lease.position.spec.debt lease.position.amount
        (State.due (lease.loan.stateAt now) : Due ContractError) price = .ok debt ∧
          (dto = .paid ↔ debt = .no)) := by
  simp only [check, Lease.checkClosePolicy, Lease.priceOfLeaseCurrency, hprice, bind_ok,
    Except.ok.injEq] at h
  obtain ⟨status, ⟨state, hstate, _, rfl, hstatus⟩, hdto⟩ := h
  obtain ⟨hle, -⟩ := state_time _ _ _ hstate
  have hvalue := evaluates_ok _ _ _ (state_evaluates lease.loan now hle) hstate
  subst hvalue
  obtain ⟨hpaid, hasked⟩ := tryFromDo_ok _ _ _ hdto
  simp only [Position.status, bind_ok] at hstatus
  obtain ⟨strategy, hclose, hstatus⟩ := hstatus
  refine ⟨hle, strategy, hclose, ?_, ?_⟩
  · intro asked
    rw [hasked]
    cases strategy with
    | none =>
      simp only [bind_ok, pure_ok] at hstatus
      obtain ⟨debt, -, rfl⟩ := hstatus
      cases debt <;> simp [CloseStatus.ofDebt]
    | some strategy =>
      rw [← (pure_ok _ _).1 hstatus]
      simp
  · rintro rfl
    simp only [bind_ok, pure_ok] at hstatus
    obtain ⟨debt, hdebt, rfl⟩ := hstatus
    refine ⟨debt, hdebt, ?_⟩
    rw [hpaid]
    cases debt <;> simp [CloseStatus.ofDebt]

theorem check_due (lease : Lease) (now : ℕ) (price : Price) (dto : CloseStatusDTO)
    (hprice : lease.oracle = .ok price) (hpos : 0 < lease.loan.lppLoan.loan.principalDue)
    (h : check lease now = .ok dto) : dto ≠ .paid := by
  obtain ⟨hle, strategy, hclose, hasked, hdebt⟩ := check_ok lease now price dto hprice h
  cases strategy with
  | some strategy =>
    rw [(hasked strategy).2 rfl]
    simp
  | none =>
    obtain ⟨debt, hdebt, hpaid⟩ := hdebt rfl
    intro he
    simp only [Spec.checkClose, bind_ok] at hclose
    obtain ⟨totalDue, hdue, -⟩ := hclose
    apply debt_due _ _ totalDue _ _ _ hdue _ hdebt (hpaid.1 he)
    rw [totalDue_ok _ _ hdue]
    simp only [State.dues, LeaseLoan.Loan.stateAt, List.sum_cons, List.sum_nil]
    omega

theorem check_repaid (lease : Lease) (now : ℕ) (price : Price) (dto : CloseStatusDTO)
    (ha : lease.position.amount < 2 ^ amountBits) (hprice : lease.oracle = .ok price)
    (hp : Proper price) (h0 : lease.loan.lppLoan.loan.principalDue = 0)
    (hu : Untriggered lease.position.spec.close lease.position.amount)
    (h : check lease now = .ok dto) : dto = .paid := by
  have hsum := no_principal_no_dues lease.loan now h0
  obtain ⟨hle, strategy, hclose, hasked, hdebt⟩ := check_ok lease now price dto hprice h
  rw [checkClose_zero _ _ _ _ hp (totalDue_zero _ hsum), (untriggered_iff _ _ ha).2 hu] at hclose
  obtain ⟨debt, hdebt, hpaid⟩ := hdebt (Except.ok.inj hclose).symm
  exact hpaid.2 (debt_zero _ _ _ _ _ ha hp hsum hdebt)

theorem check_repaid_fits (lease : Lease) (now : ℕ) (price : Price)
    (ha : lease.position.amount < 2 ^ amountBits) (hpos : 0 < lease.position.amount)
    (hprice : lease.oracle = .ok price) (hp : Proper price)
    (h0 : lease.loan.lppLoan.loan.principalDue = 0)
    (hle : lease.loan.marginPaidBy ≤ now) (hb : now < 2 ^ timeBits)
    (hrates : lease.loan.lppLoan.loan.annualInterestRate + lease.loan.marginInterest <
      2 ^ percentBits)
    (hu : Untriggered lease.position.spec.close lease.position.amount) :
    check lease now = .ok .paid := by
  have hsum := no_principal_no_dues lease.loan now h0
  have hstate := @no_principal_state ContractError lease.loan now h0 hle hb
  have hclose := checkClose_zero lease.position.spec lease.position.amount
    (State.due (lease.loan.stateAt now) : Due ContractError) price hp (totalDue_zero _ hsum)
  rw [(untriggered_iff _ _ ha).2 hu] at hclose
  have hdebt := @debt_zero_fits ContractError lease.position.spec lease.position.amount
    (lease.loan.stateAt now) price ha hpos hp hsum hrates
  have hstatus : lease.position.status (State.due (lease.loan.stateAt now) : Due ContractError)
      price = .ok .paid :=
    (bind_ok _ _ _).2 ⟨none, hclose, (bind_ok _ _ _).2 ⟨.no, hdebt, rfl⟩⟩
  refine (bind_ok _ _ _).2 ⟨.paid, ?_, rfl⟩
  exact (bind_ok _ _ _).2 ⟨_, hstate, (bind_ok _ _ _).2 ⟨price, hprice, hstatus⟩⟩

/-- A repaid lease whose policy a zero due triggers is asked for a close. -/
theorem check_triggered (lease : Lease) (now : ℕ) (price : Price)
    (ha : lease.position.amount < 2 ^ amountBits) (hprice : lease.oracle = .ok price)
    (hp : Proper price) (h0 : lease.loan.lppLoan.loan.principalDue = 0)
    (hle : lease.loan.marginPaidBy ≤ now) (hb : now < 2 ^ timeBits)
    (hu : ¬ Untriggered lease.position.spec.close lease.position.amount) :
    ∃ strategy, check lease now = .ok (.closeAsked strategy) := by
  have hsum := no_principal_no_dues lease.loan now h0
  have hstate := @no_principal_state ContractError lease.loan now h0 hle hb
  obtain ⟨strategy, htrigger⟩ :=
    @mayTrigger_fits ContractError lease.position.spec lease.position.amount 0 ha
  have hclose := checkClose_zero lease.position.spec lease.position.amount
    (State.due (lease.loan.stateAt now) : Due ContractError) price hp (totalDue_zero _ hsum)
  rw [htrigger] at hclose
  cases strategy with
  | none => exact absurd ((untriggered_iff _ _ ha).1 htrigger) hu
  | some strategy =>
    have hstatus : lease.position.status (State.due (lease.loan.stateAt now) : Due ContractError)
        price = .ok (.closeAsked strategy) := (bind_ok _ _ _).2 ⟨_, hclose, rfl⟩
    refine ⟨strategy, (bind_ok _ _ _).2 ⟨.closeAsked strategy, ?_, rfl⟩⟩
    exact (bind_ok _ _ _).2 ⟨_, hstate, (bind_ok _ _ _).2 ⟨price, hprice, hstatus⟩⟩

theorem reset_ok (lease changed : Lease) (now : ℕ)
    (h : lease.changeClosePolicy resetTakeProfit now = .ok changed) :
    changed.loan = lease.loan ∧ changed.oracle = lease.oracle ∧
      changed.position.spec.close.takeProfit = none := by
  simp only [Lease.changeClosePolicy, Position.changeClosePolicy, bind_ok, mapError_ok,
    pure_ok] at h
  obtain ⟨state, -, price, -, position, ⟨spec, hspec, rfl⟩, rfl⟩ := h
  obtain ⟨-, -, -, hpolicy, -⟩ := changeClosePolicy_ok _ _ _ _ _ _ hspec
  refine ⟨rfl, rfl, ?_⟩
  rw [changePolicy_ok _ _ _ hpolicy]
  rfl

theorem checkCloseWithInit_ok (lease checked : Lease) (now : ℕ) (dto : CloseStatusDTO)
    (h : checkCloseWithInit lease now = .ok (checked, dto)) :
    (check lease now = .ok dto ∧ checked = lease ∧ ∀ tp, dto ≠ .closeAsked (.takeProfit tp)) ∨
      ∃ tp, check lease now = .ok (.closeAsked (.takeProfit tp)) ∧
        lease.changeClosePolicy resetTakeProfit now = .ok checked ∧
        check checked now = .ok dto := by
  simp only [checkCloseWithInit, bind_ok] at h
  obtain ⟨first, hfirst, h⟩ := h
  split at h
  · rename_i tp
    simp only [bind_ok, pure_ok, Prod.mk.injEq] at h
    obtain ⟨changed, hchanged, second, hsecond, rfl, rfl⟩ := h
    exact .inr ⟨tp, hfirst, hchanged, hsecond⟩
  · rename_i hne
    simp only [pure_ok, Prod.mk.injEq] at h
    obtain ⟨rfl, rfl⟩ := h
    exact .inl ⟨hfirst, rfl, hne⟩

/-- A check asks to take a profit only at a take profit of the policy. -/
theorem takeProfit_asked (lease : Lease) (now tp : ℕ) (price : Price)
    (hprice : lease.oracle = .ok price)
    (h : check lease now = .ok (.closeAsked (.takeProfit tp))) :
    lease.position.spec.close.takeProfit = some tp := by
  obtain ⟨-, strategy, hclose, hasked, -⟩ := check_ok lease now price _ hprice h
  rw [(hasked _).1 rfl] at hclose
  simp only [Spec.checkClose, Policy.mayTrigger, bind_ok] at hclose
  obtain ⟨_, -, _, -, stop, hstop, htake⟩ := hclose
  cases stop with
  | some strategy =>
    unfold Policy.mayStopLoss at hstop
    split at hstop
    · cases hstop
    · simp only [bind_ok, pure_ok] at hstop
      obtain ⟨_, -, hstop⟩ := hstop
      split_ifs at hstop
      cases hstop
      cases htake
  | none =>
    simp only [Policy.mayTakeProfit] at htake
    split at htake
    · cases htake
    · simp only [bind_ok, pure_ok] at htake
      obtain ⟨_, -, htake⟩ := htake
      split_ifs at htake
      cases htake
      assumption

/-- The status past a payment says it is paid exactly when the receipt says it closes the loan:
the first check does, and so does the final one, which never asks to take a profit. -/
def Agrees (repaid : Repaid) (now : ℕ) : Prop :=
  (∀ status, check repaid.lease now = .ok status →
    (status = .paid ↔ repaid.receipt.close = true)) ∧
  ∀ checked status, checkCloseWithInit repaid.lease now = .ok (checked, status) →
    (status = .paid ↔ repaid.receipt.close = true) ∧
      ∀ tp, status ≠ .closeAsked (.takeProfit tp)

/-- The payment is below the total due, or a zero due does not trigger the policy on the
asset that is left. -/
def Harmless (lease : Lease) (repayFn : RepayFn) (amount now : ℕ) : Prop :=
  amount < (lease.loan.stateAt now).dues.sum ∨
    Untriggered lease.position.spec.close (lease.position.amount - repayFn.asset)

/-- Past a payment that does not close the loan the status is right whatever the policy. -/
theorem agrees_due (repaid : Repaid) (now : ℕ) (price : Price)
    (hprice : repaid.lease.oracle = .ok price) (hclose : repaid.receipt.close = false)
    (hpos : 0 < repaid.lease.loan.lppLoan.loan.principalDue) : Agrees repaid now := by
  constructor
  · intro status h
    have hne := check_due _ _ _ _ hprice hpos h
    simp [hne, hclose]
  · intro checked status h
    rcases checkCloseWithInit_ok _ _ _ _ h with ⟨hcheck, -, hno⟩ | ⟨tp, -, hreset, hcheck⟩
    · have hne := check_due _ _ _ _ hprice hpos hcheck
      exact ⟨by simp [hne, hclose], hno⟩
    · obtain ⟨hloan, horacle, hnone⟩ := reset_ok _ _ _ hreset
      rw [← horacle] at hprice
      rw [← hloan] at hpos
      have hne := check_due _ _ _ _ hprice hpos hcheck
      refine ⟨by simp [hne, hclose], ?_⟩
      rintro tp' rfl
      have hsome := takeProfit_asked _ _ _ _ hprice hcheck
      rw [hnone] at hsome
      cases hsome

theorem agrees_repaid (repaid : Repaid) (now : ℕ) (price : Price)
    (ha : repaid.lease.position.amount < 2 ^ amountBits)
    (hprice : repaid.lease.oracle = .ok price) (hp : Proper price)
    (hclose : repaid.receipt.close = true)
    (h0 : repaid.lease.loan.lppLoan.loan.principalDue = 0)
    (hu : Untriggered repaid.lease.position.spec.close repaid.lease.position.amount) :
    Agrees repaid now := by
  have hpaid : ∀ status, check repaid.lease now = .ok status → status = .paid :=
    fun status h => check_repaid _ _ _ _ ha hprice hp h0 hu h
  constructor
  · intro status h
    simp [hpaid status h, hclose]
  · intro checked status h
    rcases checkCloseWithInit_ok _ _ _ _ h with ⟨hcheck, -, hno⟩ | ⟨tp, hfirst, -, -⟩
    · exact ⟨by simp [hpaid status hcheck, hclose], hno⟩
    · exact absurd (hpaid _ hfirst) (by simp)

theorem doRepay_leaves (repayFn : RepayFn) (lease : Lease) (amount now : ℕ) (repaid : Repaid)
    (h : repayFn.doRepay lease amount now = .ok repaid) :
    repaid.lease.oracle = lease.oracle ∧ repaid.lease.position.spec = lease.position.spec ∧
      repaid.lease.position.amount = lease.position.amount - repayFn.asset ∧
      repaid.lease.loan.marginPaidBy ≤ now ∧ now < 2 ^ timeBits ∧
      (repaid.receipt.close = true ↔ (lease.loan.stateAt now).dues.sum ≤ amount) ∧
      (repaid.receipt.close = true ↔ repaid.lease.loan.lppLoan.loan.principalDue = 0) := by
  obtain ⟨hle, hb, rfl⟩ := doRepay_ok _ _ _ _ _ h
  exact ⟨rfl, rfl, rfl, repaid_margin_time lease.loan amount now hle, hb,
    closes_iff lease.loan amount now, close_iff_repaid lease.loan amount now hle⟩

/-- The status past any payment agrees with its receipt exactly when the payment is below the
total due or a zero due does not trigger the close policy on the asset left. In the latter case
the first check does return, unless the rates of the loan are out of the range of a percent. -/
theorem payment_status_agrees (lease : Lease) (repayFn : RepayFn) (amount now : ℕ) (price : Price)
    (repaid : Repaid) (ha : lease.position.amount < 2 ^ amountBits)
    (hprice : lease.oracle = .ok price) (hp : Proper price)
    (h : repayFn.doRepay lease amount now = .ok repaid) :
    (Agrees repaid now ↔ Harmless lease repayFn amount now) ∧
    (repaid.receipt.close = true → 0 < repaid.lease.position.amount →
      Untriggered repaid.lease.position.spec.close repaid.lease.position.amount →
      repaid.lease.loan.lppLoan.loan.annualInterestRate + repaid.lease.loan.marginInterest <
        2 ^ percentBits →
      check repaid.lease now = .ok .paid) := by
  obtain ⟨horacle, hspec, hamount, htime, hb, hcloses, hrepaid⟩ := doRepay_leaves _ _ _ _ _ h
  rw [hprice] at horacle
  have hasset : repaid.lease.position.amount < 2 ^ amountBits := by omega
  constructor
  · rw [Harmless, ← hspec, ← hamount]
    by_cases hlt : amount < (lease.loan.stateAt now).dues.sum
    · have hclose : repaid.receipt.close = false := by
        rw [Bool.eq_false_iff, Ne, hcloses]
        omega
      have hpos : 0 < repaid.lease.loan.lppLoan.loan.principalDue := by
        rw [Nat.pos_iff_ne_zero, Ne, ← hrepaid, hclose]
        simp
      simp only [hlt, true_or, iff_true]
      exact agrees_due repaid now price horacle hclose hpos
    · have hclose := hcloses.2 (Nat.le_of_not_lt hlt)
      have h0 := hrepaid.1 hclose
      simp only [hlt, false_or]
      constructor
      · intro hagrees
        by_contra hu
        obtain ⟨strategy, hcheck⟩ :=
          check_triggered repaid.lease now price hasset horacle hp h0 htime hb hu
        exact absurd ((hagrees.1 _ hcheck).2 hclose) (by simp)
      · intro hu
        exact agrees_repaid repaid now price hasset horacle hp hclose h0 hu
  · intro hclose hpos hu hrates
    exact check_repaid_fits repaid.lease now price hasset hpos horacle hp (hrepaid.1 hclose) htime
      hb hrates hu

def sampleLease (amount : ℕ) : Lease where
  position := ⟨amount, sampleSpec⟩
  loan := ⟨⟨⟨600, 100, 0⟩, 0⟩, year / 2, 50, 0⟩
  oracle := .ok ⟨1, 1⟩

def sampleRepaid (amount payment : ℕ) : Repaid where
  lease := { sampleLease amount with loan := ((sampleLease amount).loan.repaymentAt payment 0).loan }
  profit := ((sampleLease amount).loan.repaymentAt payment 0).profit
  receipt := ((sampleLease amount).loan.repaymentAt payment 0).receipt

theorem payment_status_agrees_sample : Agrees (sampleRepaid 1000 100) 0 := by
  apply (payment_status_agrees (sampleLease 1000) .repayLease 100 0 ⟨1, 1⟩ (sampleRepaid 1000 100)
    (by decide) rfl ⟨by decide, by decide⟩ rfl).1.2
  left
  decide

/-- The payment of the total due of a lease with a take profit is followed by a first check that
asks to take the profit, and of one with a stop loss of no amount of its asset by a status that
asks to stop the loss. -/
theorem repaid_asked_to_close :
    (RepayFn.repayLease.doRepay (sampleLease 1000) 600 0 = .ok (sampleRepaid 1000 600) ∧
      (sampleRepaid 1000 600).receipt.close = true ∧
      check (sampleRepaid 1000 600).lease 0 = .ok (.closeAsked (.takeProfit 500)) ∧
      ¬ Agrees (sampleRepaid 1000 600) 0) ∧
    (RepayFn.repayLease.doRepay (sampleLease 1) 600 0 = .ok (sampleRepaid 1 600) ∧
      (sampleRepaid 1 600).receipt.close = true ∧
      checkCloseWithInit (sampleRepaid 1 600).lease 0 =
        .ok ((sampleRepaid 1 600).lease, .closeAsked (.stopLoss 720))) := by
  refine ⟨⟨rfl, rfl, rfl, ?_⟩, rfl, rfl, rfl⟩
  intro hagrees
  exact absurd ((hagrees.1 (.closeAsked (.takeProfit 500)) rfl).2 rfl) (by simp)

end Nolus.LeasePayment
