import NolusMoneyMarket.Dex.Task
import NolusMoneyMarket.Lease.Steady

/-! # Leases

A lease is a position and a loan, seen with the price the oracle gives for the
lease currency. A check of a lease asks its close policy first and its debt
next. A payment repays the loan, a partial close shrinks the position before;
both are followed by a check that drops a take profit the payment has brought
in. A full close repays all that is due, at the expense of the reserve if the
payment is short of it. -/

set_option autoImplicit false

namespace Nolus.Leases
open Nolus.Fallible Nolus.Fraction Nolus.Prices Nolus.Ranges
open Nolus.LeaseLiability Nolus.LeaseLoan Nolus.LeasePosition

abbrev Addr := LppLoan.Addr

inductive ContractError
  | unauthorized
  | platformError
  | lppError
  | oracleError
  | dexError (cause : SwapTasks.DexError)
  | positionError (cause : PositionError)
  | noPaymentError
  | unsupportedOperation (operation : String)
  | inconsistencyNotDetected
deriving DecidableEq, Repr

structure Position where
  amount : ℕ
  spec : Spec

structure Lease where
  position : Position
  loan : LeaseLoan.Loan
  oracle : Outcome ContractError Price

variable {ε : Type}

def Position.close (self : Position) (asset : ℕ) : Outcome ε Position := do
  let amount ← nativeSub self.amount asset
  pure { self with amount := amount }

def Position.debt (self : Position) (due : Due ε) (assetInLpns : Price) : Outcome ε Debt :=
  self.spec.debt self.amount due assetInLpns

def Position.checkClose (self : Position) (due : Due ε) (assetInLpns : Price) :
    Outcome ε (Option Strategy) :=
  self.spec.checkClose self.amount due assetInLpns

def Position.changeClosePolicy (self : Position) (cmd : ClosePolicyChange)
    (due : Due PositionError) (assetInLpns : Price) : Outcome PositionError Position := do
  let spec ← self.spec.changeClosePolicy cmd self.amount due assetInLpns
  pure { self with spec := spec }

def Position.validateCloseAmount (self : Position) (closeAmount : ℕ) (assetInLpns : Price) :
    Outcome PositionError Unit :=
  self.spec.validateCloseAmount self.amount closeAmount assetInLpns

inductive CloseStatus
  | paid
  | none (currentLiability : Zone) (steadiness : Steadiness)
  | closeAsked (strategy : Strategy)
  | needLiquidation (liquidation : Liquidation)
deriving DecidableEq, Repr

inductive CloseStatusDTO
  | paid
  | none (currentLiability : Zone) (alarms : Alarms)
  | needLiquidation (liquidation : Liquidation)
  | closeAsked (strategy : Strategy)
deriving DecidableEq, Repr

def CloseStatus.ofDebt : Debt → CloseStatus
  | .no => .paid
  | .ok zone steadiness => .none zone steadiness
  | .bad liquidation => .needLiquidation liquidation

def CloseStatusDTO.tryFromDo (status : CloseStatus) (when_ : ℕ) : Outcome ε CloseStatusDTO :=
  match status with
  | .paid => pure .paid
  | .none currentLiability steadiness => do
    let alarms ← steadiness.tryIntoAlarms when_
    pure (.none currentLiability alarms)
  | .needLiquidation liquidation => pure (.needLiquidation liquidation)
  | .closeAsked strategy => pure (.closeAsked strategy)

def Lease.priceOfLeaseCurrency (self : Lease) : Outcome ContractError Price := self.oracle

/-- The close policy goes first, the debt is asked for only when it is not triggered. -/
def Position.status (self : Position) (due : Due ε) (assetInLpns : Price) :
    Outcome ε CloseStatus := do
  let close ← self.checkClose due assetInLpns
  match close with
  | some strategy => pure (.closeAsked strategy)
  | none => do
    let debt ← self.debt due assetInLpns
    pure (CloseStatus.ofDebt debt)

def Lease.checkClosePolicy (self : Lease) (now : ℕ) : Outcome ContractError CloseStatus := do
  let state ← self.loan.state now
  let assetInLpns ← self.priceOfLeaseCurrency
  self.position.status (State.due state) assetInLpns

def Lease.changeClosePolicy (self : Lease) (cmd : ClosePolicyChange) (now : ℕ) :
    Outcome ContractError Lease := do
  let state ← self.loan.state now
  let assetInLpns ← self.priceOfLeaseCurrency
  let position ← mapError .positionError
    (self.position.changeClosePolicy cmd (State.due state) assetInLpns)
  pure { self with position := position }

def Lease.validateClose (self : Lease) (amount : ℕ) : Outcome ContractError Unit := do
  let assetInLpns ← self.priceOfLeaseCurrency
  mapError .positionError (self.position.validateCloseAmount amount assetInLpns)

structure Repaid where
  lease : Lease
  profit : ℕ
  receipt : Receipt

def Lease.repay (self : Lease) (payment now : ℕ) : Outcome ContractError Repaid := do
  let repayment ← self.loan.repay payment now
  pure ⟨{ self with loan := repayment.loan }, repayment.profit, repayment.receipt⟩

def Lease.closePartial (self : Lease) (asset payment now : ℕ) : Outcome ContractError Repaid := do
  let position ← self.position.close asset
  Lease.repay { self with position := position } payment now

inductive RepayFn
  | repayLease
  | close (asset : ℕ)
deriving DecidableEq, Repr

def RepayFn.asset : RepayFn → ℕ
  | .repayLease => 0
  | .close asset => asset

def RepayFn.doRepay (self : RepayFn) (lease : Lease) (amount now : ℕ) :
    Outcome ContractError Repaid :=
  match self with
  | .repayLease => lease.repay amount now
  | .close asset => lease.closePartial asset amount now

def check (lease : Lease) (when_ : ℕ) : Outcome ContractError CloseStatusDTO := do
  let status ← lease.checkClosePolicy when_
  CloseStatusDTO.tryFromDo status when_

def resetTakeProfit : ClosePolicyChange := ⟨none, some .reset⟩

/-- A take profit asked for by the very payment is dropped, and the lease is checked again. -/
def checkCloseWithInit (lease : Lease) (now : ℕ) : Outcome ContractError (Lease × CloseStatusDTO) := do
  let closeStatus ← check lease now
  match closeStatus with
  | .closeAsked (.takeProfit _) => do
    let changed ← lease.changeClosePolicy resetTakeProfit now
    let closeStatus ← check changed now
    pure (changed, closeStatus)
  | _ => pure (lease, closeStatus)

structure LoanDTO where
  duePeriod : ℕ
  marginInterest : ℕ
  marginPaidBy : ℕ
deriving DecidableEq, Repr

def LeaseLoan.Loan.tryIntoDto (self : LeaseLoan.Loan) : LoanDTO × Option ℕ :=
  (⟨self.duePeriod, self.marginInterest, self.marginPaidBy⟩, self.lppLoan.message)

def LeaseLoan.Loan.fromDto (dto : LoanDTO) (lppLoan : LppLoan.Loan) : LeaseLoan.Loan :=
  ⟨⟨lppLoan, 0⟩, dto.duePeriod, dto.marginInterest, dto.marginPaidBy⟩

/-- A stored lease: the principal and its interest are with the pool. -/
structure LeaseDTO (Currency : Type) where
  customer : Addr
  timeAlarms : Addr
  oracle : Addr
  currency : Currency
  lpn : Currency
  position : Position
  loan : LoanDTO

variable {Currency : Type}

def LeaseDTO.withDeps (dto : LeaseDTO Currency) (lppLoan : LppLoan.Loan)
    (oracle : Outcome ContractError Price) : Lease :=
  ⟨dto.position, LeaseLoan.Loan.fromDto dto.loan lppLoan, oracle⟩

def LeaseDTO.updated (dto : LeaseDTO Currency) (lease : Lease) : LeaseDTO Currency :=
  { dto with position := lease.position, loan := (LeaseLoan.Loan.tryIntoDto lease.loan).1 }

structure RepayMessages where
  lppRepay : Option ℕ
  profit : ℕ
deriving DecidableEq, Repr

structure RepayLeaseResult (Currency : Type) where
  lease : LeaseDTO Currency
  response : RepayMessages
  receipt : Receipt
  closeStatus : CloseStatusDTO

def Repay.exec (repayFn : RepayFn) (dto : LeaseDTO Currency) (lease : Lease) (amount now : ℕ) :
    Outcome ContractError (RepayLeaseResult Currency) := do
  let repaid ← repayFn.doRepay lease amount now
  let (checked, closeStatus) ← checkCloseWithInit repaid.lease now
  pure ⟨dto.updated checked, ⟨(LeaseLoan.Loan.tryIntoDto checked.loan).2, repaid.profit⟩,
    repaid.receipt, closeStatus⟩

def unimplemented {α : Type} (message : String) : Outcome ε α := panicking (.assertion message)

def ChangeCmd.exec (change : ClosePolicyChange) (dto : LeaseDTO Currency) (lease : Lease)
    (now : ℕ) : Outcome ContractError (LeaseDTO Currency × Alarms) := do
  let changed ← lease.changeClosePolicy change now
  let status ← check changed now
  match status with
  | .paid => unimplemented "changing an Active Opened Lease is only permitted"
  | .none _ alarms => pure (dto.updated changed, alarms)
  | .closeAsked _ =>
    unimplemented "triggering a close with a policy change should have already resulted in an error"
  | .needLiquidation _ =>
    unimplemented
      "triggering a liquidation with a policy change should have already resulted in an error"

def Lease.totalDue (self : Lease) (now : ℕ) : Outcome ContractError ℕ := do
  let estimateAt ← nativeAdd timeBits now 0
  let loan ← self.loan.state estimateAt
  let _ ← (State.due loan).overdueCollection self.position.spec.minTransaction
  let due ← coinAdd loan.principalDue loan.overdue.margin
  let due ← coinAdd due loan.overdue.interest
  let due ← coinAdd due loan.dueMarginInterest
  coinAdd due loan.dueInterest

/-- What a full close draws from the reserve, and sends to the pool, the profit and back. -/
structure FullRepayReceipt where
  receipt : Receipt
  losses : Option ℕ
  lppRepay : Option ℕ
  profit : ℕ
  change : ℕ
deriving DecidableEq, Repr

def Lease.closeFull (self : Lease) (payment now : ℕ) : Outcome ContractError FullRepayReceipt := do
  let totalDue ← self.totalDue now
  let losses := if payment < totalDue then some (totalDue - payment) else none
  let repaid ← self.repay (max totalDue payment) now
  pure ⟨repaid.receipt, losses, (LeaseLoan.Loan.tryIntoDto repaid.lease.loan).2, repaid.profit,
    repaid.receipt.change⟩

end Nolus.Leases
