import NolusMoneyMarket.Finance.Liability
import NolusMoneyMarket.Finance.Price
import NolusMoneyMarket.Lease.Loan

/-! # Positions

The close policy of a lease, its position specification and the debt status
they give for an amount of the asset, a due and a price. The specification
exists only with positive minimums and with a policy that cannot be triggered
at the maximum liability. -/

set_option autoImplicit false

namespace Nolus.LeasePosition
open Nolus.Fallible Nolus.Fraction Nolus.Interest Nolus.Prices Nolus.Ranges
open Nolus.LeaseLiability Nolus.LeaseLoan

inductive Strategy
  | stopLoss (ltv : ℕ)
  | takeProfit (ltv : ℕ)
deriving DecidableEq, Repr

inductive PositionError
  | insufficientAssetAmount (minAsset : ℕ)
  | insufficientTransactionAmount (minTransaction : ℕ)
  | positionCloseAmountTooSmall (minTransaction : ℕ)
  | positionCloseAmountTooBig (minAsset : ℕ)
  | triggerClose (leaseLtv : ℕ) (strategy : Strategy)
  | zeroClosePolicy (policy : String)
  | liquidationConflict (strategy : Strategy) (topBound : ℕ)
deriving DecidableEq, Repr

inductive ChangeCmd
  | reset
  | set (ltv : ℕ)
deriving DecidableEq, Repr

def ChangeCmd.value : ChangeCmd → Option ℕ
  | .reset => none
  | .set ltv => some ltv

structure ClosePolicyChange where
  stopLoss : Option ChangeCmd
  takeProfit : Option ChangeCmd
deriving DecidableEq, Repr

structure Policy where
  takeProfit : Option ℕ
  stopLoss : Option ℕ
deriving DecidableEq, Repr

variable {ε : Type}

def Policy.invariantCheck (self : Policy) : Outcome PositionError Policy := do
  ensure (self.takeProfit ≠ some 0) (.error (.zeroClosePolicy "take profit"))
  ensure (self.stopLoss ≠ some 0) (.error (.zeroClosePolicy "stop loss"))
  pure self

def Policy.changePolicy (self : Policy) (cmd : ClosePolicyChange) : Outcome PositionError Policy :=
  Policy.invariantCheck
    { stopLoss := (cmd.stopLoss.map ChangeCmd.value).getD self.stopLoss
      takeProfit := (cmd.takeProfit.map ChangeCmd.value).getD self.takeProfit }

def boundedBy (topBound : ℕ) (strategy : ℕ → Strategy) : Option ℕ → Outcome PositionError Unit
  | none => pure ()
  | some ltv => ensure (ltv < topBound) (.error (.liquidationConflict (strategy ltv) topBound))

def Policy.liquidationCheck (self : Policy) (topBound : ℕ) : Outcome PositionError Policy := do
  boundedBy topBound .takeProfit self.takeProfit
  boundedBy topBound .stopLoss self.stopLoss
  pure self

theorem boundedBy_ok (topBound : ℕ) (strategy : ℕ → Strategy) (bound : Option ℕ) (u : Unit) :
    boundedBy topBound strategy bound = .ok u ↔ ∀ ltv ∈ bound, ltv < topBound := by
  cases bound with
  | none => simp [boundedBy]
  | some ltv => simp [boundedBy]

theorem liquidationCheck_ok (self accepted : Policy) (topBound : ℕ) :
    self.liquidationCheck topBound = .ok accepted ↔
      self = accepted ∧ (∀ ltv ∈ self.takeProfit, ltv < topBound) ∧
        ∀ ltv ∈ self.stopLoss, ltv < topBound := by
  simp only [Policy.liquidationCheck, bind_ok, boundedBy_ok, pure_ok]
  grind

theorem liquidationCheck_again (self accepted : Policy) (topBound : ℕ)
    (h : self.liquidationCheck topBound = .ok accepted) :
    accepted.liquidationCheck topBound = .ok accepted := by
  have heq := ((liquidationCheck_ok _ _ _).1 h).1
  rwa [heq] at h

def Policy.noClose (self : Policy) (during : Ascending ℕ) : Ascending ℕ :=
  let tpCut := match self.takeProfit with
    | none => during
    | some tp => during.cutTo tp
  match self.stopLoss with
  | none => tpCut
  | some sl => tpCut.cutFrom sl

def Policy.mayStopLoss (self : Policy) (leaseAsset totalDue : ℕ) : Outcome ε (Option Strategy) :=
  match self.stopLoss with
  | none => pure none
  | some stopLoss => do
    let bound ← (percent stopLoss).of leaseAsset
    pure (if bound ≤ totalDue then some (.stopLoss stopLoss) else none)

def Policy.mayTakeProfit (self : Policy) (leaseAsset totalDue : ℕ) :
    Outcome ε (Option Strategy) :=
  match self.takeProfit with
  | none => pure none
  | some takeProfit => do
    let bound ← (percent takeProfit).of leaseAsset
    pure (if totalDue < bound then some (.takeProfit takeProfit) else none)

def Policy.mayTrigger (self : Policy) (leaseAsset totalDue : ℕ) : Outcome ε (Option Strategy) := do
  let stopLoss ← self.mayStopLoss leaseAsset totalDue
  match stopLoss with
  | some strategy => pure (some strategy)
  | none => self.mayTakeProfit leaseAsset totalDue

inductive OverdueCollection
  | startIn (period : ℕ)
  | overdue (amount : ℕ)
deriving DecidableEq, Repr

def OverdueCollection.startsIn : OverdueCollection → ℕ
  | .startIn period => period
  | .overdue _ => 0

def OverdueCollection.amount : OverdueCollection → ℕ
  | .startIn _ => 0
  | .overdue amount => amount

structure Due (ε : Type) where
  totalDue : Outcome ε ℕ
  overdueCollection : ℕ → Outcome ε OverdueCollection

def durationMax : ℕ := 2 ^ timeBits - 1

def Overdue.startsIn : Overdue → ℕ
  | .startIn period => period
  | .accrued _ _ => 0

def State.totalDueInterest (self : State) : Outcome ε ℕ := do
  let due ← coinAdd self.dueInterest self.dueMarginInterest
  let withInterest ← coinAdd due self.overdue.interest
  coinAdd withInterest self.overdue.margin

def State.timeToAccrue (self : State) (minAmount totalDueInterest : ℕ) : Outcome ε ℕ :=
  if minAmount ≤ totalDueInterest then pure 0
  else do
    let overdueLeft ← nativeSub minAmount totalDueInterest
    let rate ← nativeAdd percentBits self.annualInterest self.annualInterestMargin
    let totalInterestAYear ← interest (percent rate) self.principalDue year
    if totalInterestAYear = 0 then pure durationMax
    else intoSlicePerRatio year overdueLeft totalInterestAYear

/-- The due of a lease is collectable past its due period, once it is not too small. -/
def State.due (self : State) : Due ε where
  totalDue := do
    let totalDueInterest ← State.totalDueInterest self
    coinAdd self.principalDue totalDueInterest
  overdueCollection minAmount := do
    let totalDueInterest ← State.totalDueInterest self
    let timeToAccrueMinAmount ← State.timeToAccrue self minAmount totalDueInterest
    let timeToCollect := max (Overdue.startsIn self.overdue) timeToAccrueMinAmount
    pure (if timeToCollect = 0 then .overdue totalDueInterest else .startIn timeToCollect)

inductive Cause
  | overdue
  | liability (ltv healthyLtv : ℕ)
deriving DecidableEq, Repr, Ord

inductive Liquidation
  | partial_ (amount : ℕ) (cause : Cause)
  | full (cause : Cause)
deriving DecidableEq, Repr, Ord

structure Steadiness where
  for_ : ℕ
  within : Descending Price
deriving DecidableEq, Repr

inductive Debt
  | no
  | ok (zone : Zone) (steadiness : Steadiness)
  | bad (liquidation : Liquidation)
deriving DecidableEq, Repr

structure Spec where
  liability : Liability
  close : Policy
  minAsset : ℕ
  minTransaction : ℕ
  minAsset_pos : 0 < minAsset
  minTransaction_pos : 0 < minTransaction
  close_accepted : close.liquidationCheck liability.max = .ok close

def toAssets (lpnCoin : ℕ) (assetInLpns : Price) : Outcome ε ℕ := total lpnCoin assetInLpns.inv

def ltv (totalDue leaseAsset : ℕ) : Outcome ε ℕ := percentFromRatio totalDue leaseAsset

def Spec.validTransaction (self : Spec) (amount : ℕ) (price : Price) : Outcome ε Bool := do
  let worth ← total amount price
  pure (self.minTransaction ≤ worth)

def Spec.validAsset (self : Spec) (amount : ℕ) (price : Price) : Outcome ε Bool := do
  let worth ← total amount price
  pure (self.minAsset ≤ worth)

def Spec.calcBorrowAmount (self : Spec) (downpayment : ℕ) (mayMaxLtd : Option ℕ) :
    Outcome PositionError ℕ := do
  let downpaid ← self.validTransaction downpayment .identity
  ensure downpaid (.error (.insufficientTransactionAmount self.minTransaction))
  let borrow ← self.liability.initBorrowAmount downpayment mayMaxLtd
  let borrowed ← self.validTransaction borrow .identity
  ensure borrowed (.error (.insufficientTransactionAmount self.minTransaction))
  let asset ← coinAdd downpayment borrow
  let opened ← self.validAsset asset .identity
  ensure opened (.error (.insufficientAssetAmount self.minAsset))
  pure borrow

def Spec.validatePayment (self : Spec) (payment : ℕ) (paymentCurrencyInLpns : Price) :
    Outcome PositionError Unit := do
  let transaction ← self.validTransaction payment paymentCurrencyInLpns
  ensure transaction (.error (.insufficientTransactionAmount self.minTransaction))

def Spec.validateCloseAmount (self : Spec) (asset closeAmount : ℕ) (assetInLpns : Price) :
    Outcome PositionError Unit := do
  let transaction ← self.validTransaction closeAmount assetInLpns
  if transaction then do
    let rest ← self.validAsset (asset - closeAmount) assetInLpns
    ensure rest (.error (.positionCloseAmountTooBig self.minAsset))
  else failing (.positionCloseAmountTooSmall self.minTransaction)

/-- An amount below the minimum transaction is not liquidated yet, and one that would leave
less than the minimum asset takes all of it. -/
def Spec.mayAskLiquidation (self : Spec) (asset : ℕ) (cause : Cause) (liquidation : ℕ)
    (assetInLpns : Price) : Outcome ε (Option Liquidation) :=
  match self.validateCloseAmount asset liquidation assetInLpns with
  | .error (.error (.positionCloseAmountTooSmall _)) => pure none
  | .error (.error (.positionCloseAmountTooBig _)) => pure (some (.full cause))
  | .error (.error _) => panicking (.assertion "internal error: entered unreachable code")
  | .error (.panic cause) => panicking cause
  | .ok () => pure (some (.partial_ liquidation cause))

def Spec.mayAskLiquidationLiability (self : Spec) (asset totalDue : ℕ) (assetInLpns : Price) :
    Outcome ε (Option Liquidation) := do
  let amount ← self.liability.amountToLiquidate asset totalDue
  self.mayAskLiquidation asset (.liability self.liability.max self.liability.healthy) amount
    assetInLpns

def Spec.mayAskLiquidationOverdue (self : Spec) (asset : ℕ) (due : Due ε) (assetInLpns : Price) :
    Outcome ε (Option Liquidation) := do
  let collection ← due.overdueCollection self.minTransaction
  let amount ← toAssets collection.amount assetInLpns
  self.mayAskLiquidation asset .overdue amount assetInLpns

def Spec.checkClose (self : Spec) (asset : ℕ) (due : Due ε) (assetInLpns : Price) :
    Outcome ε (Option Strategy) := do
  let totalDue ← due.totalDue
  let dueAssets ← toAssets totalDue assetInLpns
  self.close.mayTrigger asset dueAssets

def steadyPrice (asset totalDue ltv : ℕ) : Outcome ε Price := do
  let amount ← (percent ltv).of asset
  Price.new amount totalDue

def Spec.noLiquidation (self : Spec) (asset : ℕ) (due : Due ε) (positionLtvCapped : ℕ) :
    Outcome ε Debt := do
  let totalDue ← due.totalDue
  if totalDue = 0 then pure .no
  else
    let zone := self.liability.zoneOf positionLtvCapped
    let collection ← due.overdueCollection self.minTransaction
    let within ← (self.close.noClose zone.range).invert (steadyPrice asset totalDue)
    pure (.ok zone ⟨min collection.startsIn self.liability.recalcTime, within⟩)

/-- The greater of two options by the derived order, the second one when they are equal. -/
def later (fst snd : Option Liquidation) : Option Liquidation :=
  if (compare fst snd).isGT then fst else snd

/-- The due of a position with a loan-to-value above its zones, taken just below the maximum. -/
def Spec.capDue (self : Spec) (asset dueAssets ltv ltvCapped : ℕ) : Outcome ε ℕ :=
  if ltvCapped < ltv then do
    let bound ← (percent self.liability.max).of asset
    nativeSub bound 1
  else pure dueAssets

def Spec.debt (self : Spec) (asset : ℕ) (due : Due ε) (assetInLpns : Price) : Outcome ε Debt := do
  let totalDue ← due.totalDue
  let dueAssets ← toAssets totalDue assetInLpns
  let liability ← self.mayAskLiquidationLiability asset dueAssets assetInLpns
  let overdue ← self.mayAskLiquidationOverdue asset due assetInLpns
  match later liability overdue with
  | some liquidation => pure (.bad liquidation)
  | none => do
    let positionLtv ← ltv dueAssets asset
    let positionLtvCapped ← self.liability.capToZone positionLtv
    let _ ← self.capDue asset dueAssets positionLtv positionLtvCapped
    self.noLiquidation asset due positionLtvCapped

/-- Policies that would close the position right away, or past a liquidation, are rejected. -/
def Spec.changeClosePolicy (self : Spec) (cmd : ClosePolicyChange) (asset : ℕ)
    (due : Due PositionError) (assetInLpns : Price) : Outcome PositionError Spec := do
  let totalDue ← due.totalDue
  let dueAssets ← toAssets totalDue assetInLpns
  let changed ← self.close.changePolicy cmd
  match accepted : changed.liquidationCheck self.liability.max with
  | .error e => .error e
  | .ok close => do
    let strategy ← close.mayTrigger asset dueAssets
    match strategy with
    | some strategy => do
      let leaseLtv ← ltv dueAssets asset
      failing (.triggerClose leaseLtv strategy)
    | none => pure { self with close := close, close_accepted := liquidationCheck_again _ _ _ accepted }

theorem changePolicy_ok (self changed : Policy) (cmd : ClosePolicyChange)
    (h : self.changePolicy cmd = .ok changed) :
    changed = { stopLoss := (cmd.stopLoss.map ChangeCmd.value).getD self.stopLoss
                takeProfit := (cmd.takeProfit.map ChangeCmd.value).getD self.takeProfit } := by
  simp only [Policy.changePolicy, Policy.invariantCheck, bind_ok, ensure_ok, pure_ok] at h
  obtain ⟨_, -, _, -, rfl⟩ := h
  rfl

/-- A changed specification differs in the policy only, which is not triggered right away. -/
theorem changeClosePolicy_ok (self changed : Spec) (cmd : ClosePolicyChange) (asset : ℕ)
    (due : Due PositionError) (assetInLpns : Price)
    (h : self.changeClosePolicy cmd asset due assetInLpns = .ok changed) :
    changed.liability = self.liability ∧ changed.minAsset = self.minAsset ∧
      changed.minTransaction = self.minTransaction ∧
      self.close.changePolicy cmd = .ok changed.close ∧
      changed.checkClose asset due assetInLpns = .ok none := by
  simp only [Spec.changeClosePolicy, bind_ok] at h
  obtain ⟨totalDue, hdue, dueAssets, hassets, policy, hpolicy, h⟩ := h
  split at h
  · cases h
  · rename_i close accepted
    simp only [bind_ok] at h
    obtain ⟨strategy, htrigger, h⟩ := h
    cases strategy with
    | some strategy =>
      simp only [bind_ok] at h
      obtain ⟨_, -, h⟩ := h
      cases h
    | none =>
      have hchanged := (pure_ok _ _).1 h
      subst hchanged
      have heq := ((liquidationCheck_ok _ _ _).1 accepted).1
      subst heq
      refine ⟨rfl, rfl, rfl, hpolicy, ?_⟩
      simp only [Spec.checkClose, bind_ok]
      exact ⟨_, hdue, _, hassets, htrigger⟩

structure PriceAlarm where
  below : Price
  aboveOrEqual : Option Price
deriving DecidableEq, Repr

structure Alarms where
  time : ℕ
  price : PriceAlarm
deriving DecidableEq, Repr

def Steadiness.tryIntoAlarms (self : Steadiness) (when_ : ℕ) : Outcome ε Alarms := do
  let time ← nativeAdd timeBits when_ self.for_
  pure ⟨time, ⟨self.within.finish, self.within.start⟩⟩

end Nolus.LeasePosition
