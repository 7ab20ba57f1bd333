import NolusMoneyMarket.Lease.Handled
import NolusMoneyMarket.Lease.Settle
import NolusMoneyMarket.Lease.Watch

/-! # Where a payment goes

The messages of a response name the accounts the amounts of a payment go to. A
payment that goes through is split over the pool and the profit, and its status
tells whether it has reached the total due. The pool makes of a repayment the
very interest and principal the lease has meant, and nothing in excess. -/

set_option autoImplicit false

namespace Nolus.LeaseAccounts
open Nolus.Fallible Nolus.Fraction Nolus.Prices
open Nolus.LeaseLoan Nolus.LeasePosition Nolus.LeasePayment Nolus.LeaseSettle Nolus.LeaseSteady
open Nolus.Leases Nolus.LeaseContract Nolus.LeaseHandled Nolus.LeaseWatch
open Nolus.SwapTasks hiding Env Message err timeBits amountBits
open Nolus.LppLoan (RepayShares)

variable {Currency Data : Type}

/-! ## What the messages pass on -/

def passedTo (account : Account) (m : LeaseContract.Message Currency) : Option ℕ :=
  (passedOn m).bind fun passed => if passed.1 = account then some passed.2 else none

def amountsTo (account : Account) (messages : List (LeaseContract.Message Currency)) : List ℕ :=
  messages.filterMap (passedTo account)

def totalTo (account : Account) (messages : List (LeaseContract.Message Currency)) : ℕ :=
  (amountsTo account messages).sum

theorem amountsTo_append (account : Account)
    (messages rest : List (LeaseContract.Message Currency)) :
    amountsTo account (messages ++ rest) = amountsTo account messages ++ amountsTo account rest :=
  List.filterMap_append

theorem amountsTo_quiet (account : Account) (messages : List (LeaseContract.Message Currency))
    (h : Quiet messages) : amountsTo account messages = [] := by
  apply List.filterMap_eq_nil_iff.2
  intro m hm
  rw [passedTo, h m hm]
  rfl

theorem amountsTo_lpp (account : Account) (lppRepay : Option ℕ) :
    amountsTo account (lppMessages lppRepay : List (LeaseContract.Message Currency)) =
      if account = .pool then lppRepay.toList else [] := by
  cases lppRepay with
  | none => simp [lppMessages, amountsTo]
  | some amount => cases account <;> rfl

theorem totalTo_sent (account to_ : Account) (amount : ℕ)
    (m : LeaseContract.Message Currency) (h : passedOn m = some (to_, amount)) :
    totalTo account (sent amount m) = if to_ = account then amount else 0 := by
  unfold sent
  split_ifs with hzero hto hto
  · exact hzero.symm
  · rfl
  · simp [totalTo, amountsTo, passedTo, h, hto]
  · simp [totalTo, amountsTo, passedTo, h, hto]

theorem amountsTo_sent (account to_ : Account) (amount : ℕ)
    (m : LeaseContract.Message Currency) (h : passedOn m = some (to_, amount))
    (hne : to_ ≠ account) : amountsTo account (sent amount m) = [] := by
  unfold sent
  split_ifs
  · rfl
  · simp [amountsTo, passedTo, h, hne]

theorem repayMessages_pool (response : RepayMessages) :
    amountsTo .pool (repayMessages response : List (LeaseContract.Message Currency)) =
      response.lppRepay.toList := by
  rw [repayMessages, amountsTo_append, amountsTo_lpp,
    amountsTo_sent .pool .profit _ _ rfl (by decide), List.append_nil]
  rfl

theorem totalTo_append (account : Account)
    (messages rest : List (LeaseContract.Message Currency)) :
    totalTo account (messages ++ rest) = totalTo account messages + totalTo account rest := by
  rw [totalTo, amountsTo_append, List.sum_append]
  rfl

theorem repayMessages_to (account : Account) (response : RepayMessages) :
    totalTo account (repayMessages response : List (LeaseContract.Message Currency)) =
      (if account = .pool then response.lppRepay.getD 0 else 0) +
        (if .profit = account then response.profit else 0) := by
  rw [repayMessages, totalTo_append, totalTo_sent account .profit _ _ rfl, totalTo, amountsTo_lpp]
  split_ifs <;> cases response.lppRepay <;> simp

theorem closeMessages_eq (receipt : FullRepayReceipt) (recipient : Option Addr) :
    (closeMessages receipt recipient : List (LeaseContract.Message Currency)) =
      receipt.losses.toList.map .coverLosses ++ lppMessages receipt.lppRepay ++
        sent receipt.profit (.sendProfit receipt.profit) ++
        sent receipt.change (.sendChange recipient receipt.change) := by
  unfold closeMessages
  cases receipt.losses <;> rfl

theorem coverLosses_to (account : Account) (losses : Option ℕ) :
    amountsTo account (losses.toList.map .coverLosses : List (LeaseContract.Message Currency)) =
      if account = .reserve then losses.toList else [] := by
  cases losses with
  | none => simp [amountsTo]
  | some amount => cases account <;> rfl

theorem closeMessages_pool (receipt : FullRepayReceipt) (recipient : Option Addr) :
    amountsTo .pool (closeMessages receipt recipient : List (LeaseContract.Message Currency)) =
      receipt.lppRepay.toList := by
  rw [closeMessages_eq, amountsTo_append, amountsTo_append, amountsTo_append, coverLosses_to,
    amountsTo_lpp, amountsTo_sent .pool .profit receipt.profit _ rfl (by decide),
    amountsTo_sent .pool .customer receipt.change _ rfl (by decide), List.append_nil,
    List.append_nil]
  rfl

theorem closeMessages_to (account : Account) (receipt : FullRepayReceipt)
    (recipient : Option Addr) :
    totalTo account (closeMessages receipt recipient : List (LeaseContract.Message Currency)) =
      (if account = .reserve then receipt.losses.getD 0 else 0) +
        (if account = .pool then receipt.lppRepay.getD 0 else 0) +
        (if .profit = account then receipt.profit else 0) +
        (if .customer = account then receipt.change else 0) := by
  have htoList : ∀ amount : Option ℕ, amount.toList.sum = amount.getD 0 := by
    intro amount
    cases amount <;> simp
  rw [closeMessages_eq, totalTo_append, totalTo_append, totalTo_append,
    totalTo_sent account .profit receipt.profit _ rfl,
    totalTo_sent account .customer receipt.change _ rfl, totalTo, totalTo, coverLosses_to,
    amountsTo_lpp]
  cases account <;> simp [htoList]

/-! ## What a payment settles -/

theorem nothing_liquidated (self : LeaseLiability.Liability) (asset v : ℕ)
    (h : (self.amountToLiquidate asset 0 : Outcome ContractError ℕ) = .ok v) : v = 0 := by
  obtain ⟨-, -, h1, h2, h3, h4, h5, -⟩ := LeaseLiability.held_limits self
  simp only [LeaseLiability.Liability.amountToLiquidate, bind_ok] at h
  obtain ⟨bound, -, h⟩ := h
  split_ifs at h with hbound hasset
  · exact ((pure_ok _ _).1 h).symm
  · rw [← (pure_ok _ _).1 h]
    omega
  · simp only [bind_ok, nativeSub_ok] at h
    obtain ⟨denominator, ⟨-, rfl⟩, healthy, -, extra, ⟨-, rfl⟩, h⟩ := h
    have hpos : 0 < hundred - self.healthy := by omega
    rw [of_ok ⟨hundred, _⟩ _ _ hpos h]
    simp [Ratio.part]

/-- Where nothing is due nothing is to be liquidated. -/
theorem nothing_due_not_bad (spec : Spec) (asset : ℕ) (state : LeaseLoan.State) (price : Price)
    (liquidation : Liquidation) (hp : Proper price) (h0 : state.dues.sum = 0) :
    (spec.debt asset (State.due state) price : Outcome ContractError Debt) ≠
      .ok (.bad liquidation) := by
  intro h
  have hassets : ∀ v, (toAssets 0 price : Outcome ContractError ℕ) = .ok v → v = 0 := by
    intro v hv
    rw [of_ok ⟨0, _⟩ _ _ hp.2 hv]
    exact assetsDue_zero price
  simp only [Spec.debt, bind_ok, totalDue_zero state h0, Except.ok.injEq] at h
  obtain ⟨_, rfl, dueAssets, hdue, liability, hliability, overdue, hoverdue, h⟩ := h
  rw [hassets _ hdue] at hliability
  simp only [Spec.mayAskLiquidationLiability, bind_ok] at hliability
  obtain ⟨amount, hamount, hask⟩ := hliability
  rw [nothing_liquidated _ _ _ hamount, nothing_asked _ _ _ _ hp] at hask
  cases hask
  simp only [Spec.mayAskLiquidationOverdue, bind_ok] at hoverdue
  obtain ⟨collection, hcollection, amount, hamount, hask⟩ := hoverdue
  rw [collection_zero _ _ _ h0 hcollection] at hamount
  rw [hassets _ hamount, nothing_asked _ _ _ _ hp] at hask
  cases hask
  have hnone : later none none = none := by rfl
  rw [hnone] at h
  simp only [bind_ok, Spec.noLiquidation, totalDue_zero state h0, Except.ok.injEq] at h
  obtain ⟨_, -, _, -, _, -, _, rfl, h⟩ := h
  rw [if_pos rfl] at h
  cases h

theorem liquidated_due (lease : Lease) (now : ℕ) (price : Price) (liquidation : Liquidation)
    (hprice : lease.oracle = .ok price) (hp : Proper price)
    (h : check lease now = .ok (.needLiquidation liquidation)) :
    0 < (lease.loan.stateAt now).dues.sum := by
  simp only [check, Lease.checkClosePolicy, Lease.priceOfLeaseCurrency, hprice, bind_ok,
    Except.ok.injEq] at h
  obtain ⟨status, ⟨state, hstate, _, rfl, hstatus⟩, hdto⟩ := h
  obtain ⟨hle, -⟩ := state_time _ _ _ hstate
  have hvalue := evaluates_ok _ _ _ (LeaseSplit.state_evaluates lease.loan now hle) hstate
  subst hvalue
  by_contra hzero
  have h0 := Nat.eq_zero_of_not_pos hzero
  cases status with
  | needLiquidation asked =>
    simp only [Position.status, bind_ok] at hstatus
    obtain ⟨strategy, -, hstatus⟩ := hstatus
    cases strategy with
    | some strategy => cases hstatus
    | none =>
      simp only [bind_ok, pure_ok] at hstatus
      obtain ⟨debt, hdebt, hstatus⟩ := hstatus
      cases debt with
      | bad asked' => exact nothing_due_not_bad _ _ _ _ _ hp h0 hdebt
      | no => cases hstatus
      | ok zone steadiness => cases hstatus
  | none zone steadiness =>
    simp only [CloseStatusDTO.tryFromDo, bind_ok] at hdto
    obtain ⟨_, -, hdto⟩ := hdto
    cases hdto
  | paid => cases hdto
  | closeAsked strategy => cases hdto

def loanOf (dto : LeaseDTO Currency) (lppLoan : LppLoan.Loan) : LeaseLoan.Loan :=
  LeaseLoan.Loan.fromDto dto.loan lppLoan

def duesOf (dto : LeaseDTO Currency) (lppLoan : LppLoan.Loan) (now : ℕ) : ℕ :=
  ((loanOf dto lppLoan).stateAt now).dues.sum

/-- All that has come of a payment, and how the status past it goes with the total due. -/
structure Settles (repayFn : RepayFn) (dto : LeaseDTO Currency) (lppLoan : LppLoan.Loan)
    (amount now : ℕ) (result : RepayLeaseResult Currency) : Prop where
  margin : (loanOf dto lppLoan).marginPaidBy ≤ now
  response : result.response =
    ⟨((loanOf dto lppLoan).repaymentAt amount now).loan.lppLoan.message,
      ((loanOf dto lppLoan).repaymentAt amount now).profit⟩
  asset : result.lease.position.amount + repayFn.asset = dto.position.amount
  paid : result.closeStatus = .paid → duesOf dto lppLoan now ≤ amount
  due : ∀ zone alarms, result.closeStatus = .none zone alarms → amount < duesOf dto lppLoan now
  liquidation : ∀ liquidation, result.closeStatus = .needLiquidation liquidation →
    amount < duesOf dto lppLoan now

theorem released_asset (repayFn : RepayFn) (lease : Lease) (amount now : ℕ) (repaid : Repaid)
    (h : repayFn.doRepay lease amount now = .ok repaid) :
    repaid.lease.position.amount + repayFn.asset = lease.position.amount := by
  have hamount := (doRepay_leaves _ _ _ _ _ h).2.2.1
  cases repayFn with
  | repayLease => exact hamount
  | close asset =>
    simp only [RepayFn.doRepay, Lease.closePartial, Position.close, bind_ok, nativeSub_ok] at h
    obtain ⟨_, ⟨_, ⟨hle, -⟩, -⟩, -⟩ := h
    simp only [RepayFn.asset] at hamount ⊢
    omega

theorem exec_settles (repayFn : RepayFn) (dto : LeaseDTO Currency) (lppLoan : LppLoan.Loan)
    (oracle : Outcome ContractError Price) (amount now : ℕ) (result : RepayLeaseResult Currency)
    (hp : ∀ price, oracle = .ok price → Proper price)
    (h : Repay.exec repayFn dto (dto.withDeps lppLoan oracle) amount now = .ok result) :
    Settles repayFn dto lppLoan amount now result := by
  simp only [Repay.exec, bind_ok, pure_ok] at h
  obtain ⟨repaid, hrepaid, ⟨checked, status⟩, hinit, rfl⟩ := h
  obtain ⟨horacle, -, -, -, -, hcloses, hzero⟩ := doRepay_leaves _ _ _ _ _ hrepaid
  have hasset := released_asset _ _ _ _ _ hrepaid
  obtain ⟨hle, -, hvalue⟩ := doRepay_ok _ _ _ _ _ hrepaid
  have hchecked : checked.loan = repaid.lease.loan ∧ checked.oracle = repaid.lease.oracle ∧
      checked.position.amount = repaid.lease.position.amount ∧ check checked now = .ok status := by
    rcases checkCloseWithInit_ok _ _ _ _ hinit with ⟨hcheck, rfl, -⟩ | ⟨_, _, hreset, hcheck⟩
    · exact ⟨rfl, rfl, rfl, hcheck⟩
    · exact ⟨(reset_ok _ _ _ hreset).1, (reset_ok _ _ _ hreset).2.1,
        (changed_amount _ _ _ _ hreset).1, hcheck⟩
  obtain ⟨hloan, horacle', hamount, hcheck⟩ := hchecked
  obtain ⟨price, hprice⟩ := check_price _ _ _ hcheck
  have hproper := hp price (horacle.symm.trans (horacle'.symm.trans hprice))
  -- the loan is closed exactly when the payment is not below the total due
  have hdue : amount < duesOf dto lppLoan now ↔
      0 < checked.loan.lppLoan.loan.principalDue := by
    rw [hloan, Nat.pos_iff_ne_zero, Ne, ← hzero, hcloses, Nat.not_le]
    rfl
  constructor
  · exact hle
  · rw [hloan, hvalue]
    rfl
  · exact (congrArg (· + repayFn.asset) hamount).trans hasset
  · rintro rfl
    by_contra hlt
    exact check_due _ _ _ _ hprice (hdue.1 (Nat.lt_of_not_le hlt)) hcheck rfl
  · rintro zone alarms rfl
    exact hdue.2 (checked_due _ _ _ _ (checked_stored dto checked now price zone alarms hprice
      hcheck)).1
  · rintro liquidation rfl
    have hpos := liquidated_due _ _ _ _ hprice hproper hcheck
    apply hdue.2
    by_contra hnone
    have hno := no_principal_no_dues checked.loan now (Nat.eq_zero_of_not_pos hnone)
    omega

/-! ## What the pool makes of the messages -/

def plus (a b : RepayShares) : RepayShares :=
  ⟨a.interest + b.interest, a.principal + b.principal, a.excess + b.excess⟩

def noShares : RepayShares := ⟨0, 0, 0⟩

/-- The loan of the pool past a repayment, and how the pool splits it. -/
def poolRepay (now : ℕ) (pool : Option LppLoan.Loan) (amount : ℕ) :
    Option (Option LppLoan.Loan × RepayShares) :=
  match pool with
  | none => none
  | some loan =>
    match (loan.repay now amount : Outcome ContractError (LppLoan.Loan × RepayShares)) with
    | .error _ => none
    | .ok (repaid, shares) => some (if repaid.principalDue = 0 then none else some repaid, shares)

def poolRepayAll (now : ℕ) : Option LppLoan.Loan → List ℕ →
    Option (Option LppLoan.Loan × RepayShares)
  | pool, [] => some (pool, noShares)
  | pool, amount :: amounts =>
    (poolRepay now pool amount).bind fun past =>
      (poolRepayAll now past.1 amounts).map fun rest => (rest.1, plus past.2 rest.2)

theorem executed_one (w w' : World Currency Data) (m : LeaseContract.Message Currency)
    (h : w.execute m = some w') :
    w'.now = w.now ∧ ((passedTo .pool m = none ∧ w'.pool = w.pool) ∨
      ∃ amount shares, passedTo .pool m = some amount ∧
        poolRepay w.now w.pool amount = some (w'.pool, shares)) := by
  have halarm : ∀ time, w.addTimeAlarm time = some w' → w'.now = w.now ∧ w'.pool = w.pool := by
    intro time h
    unfold World.addTimeAlarm at h
    split_ifs at h
    cases h
    exact ⟨rfl, rfl⟩
  cases m with
  | dex message =>
    cases message with
    | setupAlarm time => exact ⟨(halarm _ h).1, .inl ⟨rfl, (halarm _ h).2⟩⟩
    | request request =>
      cases h
      exact ⟨rfl, .inl ⟨rfl, rfl⟩⟩
    | forwardToInner =>
      cases h
      exact ⟨rfl, .inl ⟨rfl, rfl⟩⟩
  | timeAlarm time => exact ⟨(halarm _ h).1, .inl ⟨rfl, (halarm _ h).2⟩⟩
  | repayLoan amount =>
    simp only [World.execute, World.repayLoan] at h
    split at h
    · cases h
    · rename_i loan hpool
      split at h
      · cases h
      · rename_i repaid shares hrepaid
        cases h
        refine ⟨rfl, .inr ⟨amount, shares, rfl, ?_⟩⟩
        simp only [poolRepay, hpool, hrepaid]
  | _ =>
    cases h
    exact ⟨rfl, .inl ⟨rfl, rfl⟩⟩

/-- Of all the messages only the repayments change the loan of the pool. -/
theorem executed_pool (w w' : World Currency Data)
    (messages : List (LeaseContract.Message Currency)) (h : w.executeAll messages = some w') :
    ∃ shares, poolRepayAll w.now w.pool (amountsTo .pool messages) = some (w'.pool, shares) := by
  induction messages generalizing w with
  | nil =>
    cases h
    exact ⟨noShares, rfl⟩
  | cons m messages ih =>
    obtain ⟨w₁, hm, hrest⟩ := Option.bind_eq_some_iff.1 h
    obtain ⟨shares, hpool⟩ := ih w₁ hrest
    obtain ⟨hnow, hone⟩ := executed_one w w₁ m hm
    rw [hnow] at hpool
    rcases hone with ⟨hnone, hsame⟩ | ⟨amount, first, hsome, hrepaid⟩
    · rw [hsame] at hpool
      refine ⟨shares, ?_⟩
      rw [amountsTo, List.filterMap_cons_none hnone]
      exact hpool
    · refine ⟨plus first shares, ?_⟩
      rw [amountsTo, List.filterMap_cons_some hsome, poolRepayAll, hrepaid, Option.bind_some]
      change (poolRepayAll w.now w₁.pool (amountsTo .pool messages)).map _ = _
      rw [hpool]
      rfl

/-- The pool splits what a lease repays just as the lease does, and keeps the loan as long as
there is some principal left. -/
theorem pool_settled (loan : LeaseLoan.Loan) (payment now : ℕ) (pool : Option LppLoan.Loan)
    (shares : RepayShares) (hle : loan.marginPaidBy ≤ now) (h0 : loan.lppLoan.repayment = 0)
    (hpos : 0 < loan.lppLoan.loan.principalDue)
    (h : poolRepayAll now (some loan.lppLoan.loan)
      ((loan.repaymentAt payment now).loan.lppLoan.message.toList) = some (pool, shares)) :
    shares = ⟨((loan.stateAt now).receipt payment).interestPaid,
        ((loan.stateAt now).receipt payment).principalPaid, 0⟩ ∧
      pool = if (loan.stateAt now).dues.sum ≤ payment then none else
        some (loan.repaymentAt payment now).loan.lppLoan.loan := by
  have hscheduled : (loan.repaymentAt payment now).loan.lppLoan.repayment =
      ((loan.stateAt now).receipt payment).lppPaid := by
    change loan.lppLoan.repayment + _ = _
    rw [h0, Nat.zero_add]
  have hcloses := closes_iff loan payment now
  have hrepaid := LeaseSplit.close_iff_repaid loan payment now hle
  have hshares := LeaseSplit.pool_shares loan payment now hle
  simp only [LppLoan.message, hscheduled] at h
  split_ifs at h with hnone
  · -- nothing is repaid, hence the payment does not close a loan of some principal
    have hzero : ((loan.stateAt now).receipt payment).interestPaid = 0 ∧
        ((loan.stateAt now).receipt payment).principalPaid = 0 := by
      simp only [Receipt.lppPaid] at hnone
      omega
    have hopen : ¬ (loan.stateAt now).dues.sum ≤ payment := by
      intro hle'
      have hprincipal := covered_principal (loan.stateAt now) payment hle'
      rw [hzero.2] at hprincipal
      change 0 = loan.lppLoan.loan.principalDue at hprincipal
      omega
    cases h
    rw [if_neg hopen, hzero.1, hzero.2]
    refine ⟨rfl, ?_⟩
    change _ = some (loan.lppLoan.loan.repaid now ((loan.stateAt now).receipt payment).lppPaid)
    rw [hnone]
    simp [LppLoan.Loan.repaid, LppLoan.Loan.shares, Interest.paidFor]
  · have hcases : ((loan.stateAt now).dues.sum ≤ payment) ↔
        (loan.repaymentAt payment now).loan.lppLoan.loan.principalDue = 0 :=
      hcloses.symm.trans hrepaid
    simp only [Option.toList_some, poolRepayAll, poolRepay] at h
    split at h
    · cases h
    · rename_i repaid split_ hrepay
      obtain ⟨rfl, rfl⟩ := LppLoan.repay_ok _ _ _ _ _ hrepay
      simp only [Option.bind_some, Option.map_some, Option.some.injEq, Prod.mk.injEq] at h
      obtain ⟨rfl, rfl⟩ := h
      rw [hshares]
      refine ⟨rfl, ?_⟩
      simp only [hcases]
      rfl

def owed (pool : Option LppLoan.Loan) : ℕ := pool.elim 0 LppLoan.Loan.principalDue

theorem payment_parts (loan : LeaseLoan.Loan) (payment now : ℕ)
    (h0 : loan.lppLoan.repayment = 0) :
    (loan.repaymentAt payment now).loan.lppLoan.message.getD 0 =
        ((loan.stateAt now).receipt payment).interestPaid +
          ((loan.stateAt now).receipt payment).principalPaid ∧
      (loan.repaymentAt payment now).loan.lppLoan.message.getD 0 +
        (loan.repaymentAt payment now).profit + (payment - (loan.stateAt now).dues.sum) =
        payment := by
  have hscheduled : (loan.repaymentAt payment now).loan.lppLoan.repayment =
      ((loan.stateAt now).receipt payment).lppPaid := by
    change loan.lppLoan.repayment + _ = _
    rw [h0, Nat.zero_add]
  have hmessage : (loan.repaymentAt payment now).loan.lppLoan.message.getD 0 =
      ((loan.stateAt now).receipt payment).lppPaid := by
    rw [LppLoan.message, hscheduled]
    split_ifs with hzero
    · exact hzero.symm
    · rfl
  have hsum := LeaseSplit.receipt_sum (loan.stateAt now) payment
  have hchange := receipt_change (loan.stateAt now) payment
  have hprofit : (loan.repaymentAt payment now).profit =
      ((loan.stateAt now).receipt payment).marginPaid := rfl
  simp only [Receipt.payments, List.sum_cons, List.sum_nil] at hsum
  rw [hmessage, hprofit, ← hchange]
  refine ⟨rfl, ?_⟩
  simp only [Receipt.lppPaid, Receipt.interestPaid, Receipt.marginPaid]
  omega

theorem loanOf_scheduled (dto : LeaseDTO Currency) (lppLoan : LppLoan.Loan) :
    (loanOf dto lppLoan).lppLoan.repayment = 0 := rfl

/-- What the pool has past a payment that is passed on. -/
theorem pool_past (dto : LeaseDTO Currency) (lppLoan : LppLoan.Loan) (payment now : ℕ)
    (pool : Option LppLoan.Loan) (shares : RepayShares)
    (hle : (loanOf dto lppLoan).marginPaidBy ≤ now) (hpos : 0 < lppLoan.principalDue)
    (h : poolRepayAll now (some lppLoan)
      (((loanOf dto lppLoan).repaymentAt payment now).loan.lppLoan.message.toList) =
      some (pool, shares)) :
    (pool.isSome = true ↔ payment < duesOf dto lppLoan now) ∧
      (∀ loan, pool = some loan → 0 < loan.principalDue) ∧
      lppLoan.principalDue = owed pool + shares.principal ∧
      ((loanOf dto lppLoan).repaymentAt payment now).loan.lppLoan.message.getD 0 =
        shares.interest + shares.principal ∧ shares.excess = 0 := by
  obtain ⟨rfl, rfl⟩ := pool_settled (loanOf dto lppLoan) payment now pool shares hle
    (loanOf_scheduled dto lppLoan) hpos h
  have hparts := (payment_parts (loanOf dto lppLoan) payment now (loanOf_scheduled dto lppLoan)).1
  have hcloses := closes_iff (loanOf dto lppLoan) payment now
  have hrepaid := LeaseSplit.close_iff_repaid (loanOf dto lppLoan) payment now hle
  have hprincipal := LeaseSplit.principal_paid_le ((loanOf dto lppLoan).stateAt now) payment
  change _ ≤ lppLoan.principalDue at hprincipal
  have hleft : ((loanOf dto lppLoan).repaymentAt payment now).loan.lppLoan.loan.principalDue =
      lppLoan.principalDue -
        (((loanOf dto lppLoan).stateAt now).receipt payment).principalPaid := by
    change lppLoan.principalDue - ((loanOf dto lppLoan).lppLoan.loan.shares now _).principal = _
    rw [LeaseSplit.pool_shares (loanOf dto lppLoan) payment now hle]
  rw [duesOf]
  split_ifs with hpaid
  · have hcovered := covered_principal _ _ hpaid
    change _ = lppLoan.principalDue at hcovered
    refine ⟨by simpa using hpaid, by simp, ?_, hparts, rfl⟩
    rw [hcovered]
    exact (Nat.zero_add _).symm
  · have hopen : ((loanOf dto lppLoan).repaymentAt payment now).loan.lppLoan.loan.principalDue ≠
        0 := fun hzero => hpaid (hcloses.1 (hrepaid.2 hzero))
    refine ⟨by simpa using hpaid, ?_, ?_, hparts, rfl⟩
    · rintro loan ⟨⟩
      exact Nat.pos_of_ne_zero hopen
    · change _ = ((loanOf dto lppLoan).repaymentAt payment now).loan.lppLoan.loan.principalDue + _
      rw [hleft]
      exact (Nat.sub_add_cancel hprincipal).symm

end Nolus.LeaseAccounts
