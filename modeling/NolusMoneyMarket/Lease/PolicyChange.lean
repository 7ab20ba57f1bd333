import NolusMoneyMarket.Finance.Product
import NolusMoneyMarket.Lease.Checkable
import NolusMoneyMarket.Lease.Overdue

/-! # Changes of a close policy

A requested policy is refused when one of its levels is zero or not below the
maximum of the liability, and when it triggers at the current price. An
accepted one is followed by the check of the whole lease, which answers for
more than the policy: it asks for liquidations by the liability and by the
overdue, and panics on what it is not able to compute. The command takes
neither for possible. -/

set_option autoImplicit false

namespace Nolus.LeasePolicyChange
open Nolus.Fallible Nolus.Fraction Nolus.Interest Nolus.Periods Nolus.Prices
open Nolus.PriceProducts Nolus.Ranges
open Nolus.LeaseLiability Nolus.LeaseLiquidation Nolus.LeaseLoan Nolus.LeasePosition
open Nolus.LeaseSteady Nolus.LeaseFresh Nolus.LeaseCheckable Nolus.LeaseOverdue Nolus.Leases

variable {ε Currency : Type}

def requested (self : Policy) (cmd : ClosePolicyChange) : Policy where
  stopLoss := (cmd.stopLoss.map ChangeCmd.value).getD self.stopLoss
  takeProfit := (cmd.takeProfit.map ChangeCmd.value).getD self.takeProfit

structure Acceptable (policy : Policy) (max : ℕ) : Prop where
  profit_nonzero : policy.takeProfit ≠ some 0
  loss_nonzero : policy.stopLoss ≠ some 0
  profit_below : ∀ tp ∈ policy.takeProfit, tp < max
  loss_below : ∀ sl ∈ policy.stopLoss, sl < max

def Quiet (policy : Policy) (asset dueAssets : ℕ) : Prop :=
  (∀ sl ∈ policy.stopLoss, dueAssets < portion asset sl) ∧
    ∀ tp ∈ policy.takeProfit, portion asset tp ≤ dueAssets

/-- The check of a lease past the policy puts its debt in a zone and sets alarms up. -/
structure Undisturbed (spec : Spec) (asset : ℕ) (state : State) (price : Price) (now : ℕ) :
    Prop where
  estimable : Estimable state spec.minTransaction
  spared : ¬ Liquidates spec asset (assetsDue state.dues.sum price)
    (assetsDue (collection state spec.minTransaction).amount price) price
  zones : InZones spec asset (assetsDue state.dues.sum price)
  time : now + min (collection state spec.minTransaction).startsIn spec.liability.recalcTime <
    2 ^ timeBits

/-! ## The change of a policy -/

theorem changePolicy_nonzero (self : Policy) (cmd : ClosePolicyChange)
    (htp : (requested self cmd).takeProfit ≠ some 0) (hsl : (requested self cmd).stopLoss ≠ some 0) :
    self.changePolicy cmd = .ok (requested self cmd) := by
  change Policy.invariantCheck (requested self cmd) = _
  rw [Policy.invariantCheck, ensure, if_pos htp, ensure, if_pos hsl]
  rfl

theorem liquidationCheck_accepts (policy : Policy) (max : ℕ) (h : Acceptable policy max) :
    policy.liquidationCheck max = .ok policy :=
  (liquidationCheck_ok _ _ _).2 ⟨rfl, h.profit_below, h.loss_below⟩

theorem boundedBy_reports (topBound : ℕ) (strategy : ℕ → Strategy) (bound : Option ℕ)
    (h : ¬ ∀ level ∈ bound, level < topBound) :
    ∃ reason, boundedBy topBound strategy bound = failing reason := by
  cases bound with
  | none => simp at h
  | some level =>
    refine ⟨.liquidationConflict (strategy level) topBound, ?_⟩
    rw [boundedBy, ensure, if_neg (by simpa using h)]
    rfl

/-- A policy that is not acceptable is refused with an error of its own. -/
theorem change_refused (self : Policy) (cmd : ClosePolicyChange) (max : ℕ)
    (h : ¬ Acceptable (requested self cmd) max) :
    ∃ reason, (self.changePolicy cmd >>= fun changed => changed.liquidationCheck max) =
      failing reason := by
  by_cases htp : (requested self cmd).takeProfit = some 0
  · refine ⟨.zeroClosePolicy "take profit", ?_⟩
    change (Policy.invariantCheck (requested self cmd) >>= _) = _
    rw [Policy.invariantCheck, ensure, if_neg (not_not.2 htp)]
    rfl
  by_cases hsl : (requested self cmd).stopLoss = some 0
  · refine ⟨.zeroClosePolicy "stop loss", ?_⟩
    change (Policy.invariantCheck (requested self cmd) >>= _) = _
    rw [Policy.invariantCheck, ensure, if_pos htp, ensure, if_neg (not_not.2 hsl)]
    rfl
  rw [changePolicy_nonzero self cmd htp hsl]
  change ∃ reason, Policy.liquidationCheck (requested self cmd) max = _
  unfold Policy.liquidationCheck
  by_cases hprofit : ∀ tp ∈ (requested self cmd).takeProfit, tp < max
  · have hloss : ¬ ∀ sl ∈ (requested self cmd).stopLoss, sl < max := by
      intro hloss
      exact h ⟨htp, hsl, hprofit, hloss⟩
    obtain ⟨reason, hreason⟩ := boundedBy_reports max .stopLoss _ hloss
    rw [(boundedBy_ok max .takeProfit _ ()).2 hprofit, hreason]
    exact ⟨reason, rfl⟩
  · obtain ⟨reason, hreason⟩ := boundedBy_reports max .takeProfit _ hprofit
    rw [hreason]
    exact ⟨reason, rfl⟩

variable (spec : Spec) (cmd : ClosePolicyChange) (asset totalDue : ℕ) (due : Due PositionError)
  (price : Price)

/-- With the due known, the change is up to the levels first and to the triggers next. -/
theorem changeClosePolicy_bind (hc : DueConvertible asset totalDue price)
    (hdue : due.totalDue = .ok totalDue) :
    spec.changeClosePolicy cmd asset due price =
      (spec.close.changePolicy cmd >>= fun changed =>
        match accepted : changed.liquidationCheck spec.liability.max with
        | .error e => .error e
        | .ok close => do
          let strategy ← close.mayTrigger asset (assetsDue totalDue price)
          match strategy with
          | some strategy => do
            let leaseLtv ← ltv (assetsDue totalDue price) asset
            failing (.triggerClose leaseLtv strategy)
          | none =>
            pure { spec with
              close := close, close_accepted := liquidationCheck_again _ _ _ accepted }) := by
  rw [Spec.changeClosePolicy, hdue]
  change (toAssets totalDue price >>= _) = _
  rw [toAssets_fits _ _ hc.proper hc.due_converts]
  rfl

theorem changeClosePolicy_refused (hc : DueConvertible asset totalDue price)
    (hdue : due.totalDue = .ok totalDue)
    (h : ¬ Acceptable (requested spec.close cmd) spec.liability.max) :
    ∃ reason, spec.changeClosePolicy cmd asset due price = failing reason := by
  obtain ⟨reason, hreason⟩ := change_refused spec.close cmd spec.liability.max h
  refine ⟨reason, ?_⟩
  rw [changeClosePolicy_bind spec cmd asset totalDue due price hc hdue]
  cases hchanged : spec.close.changePolicy cmd with
  | error e =>
    rw [hchanged] at hreason
    cases hreason
    rfl
  | ok changed =>
    rw [hchanged] at hreason
    change changed.liquidationCheck spec.liability.max = failing reason at hreason
    change (match accepted : changed.liquidationCheck spec.liability.max with
      | .error e => _
      | .ok close => _) = _
    split
    · next e he =>
      rw [hreason] at he
      cases he
      rfl
    · next close he =>
      rw [hreason] at he
      cases he

def withRequested (h : Acceptable (requested spec.close cmd) spec.liability.max) : Spec :=
  { spec with
    close := requested spec.close cmd
    close_accepted := liquidationCheck_accepts _ _ h }

theorem changeClosePolicy_acceptable (hc : DueConvertible asset totalDue price)
    (hdue : due.totalDue = .ok totalDue)
    (h : Acceptable (requested spec.close cmd) spec.liability.max) :
    spec.changeClosePolicy cmd asset due price = (do
      let strategy ← (requested spec.close cmd).mayTrigger asset (assetsDue totalDue price)
      match strategy with
      | some strategy => do
        let leaseLtv ← ltv (assetsDue totalDue price) asset
        failing (.triggerClose leaseLtv strategy)
      | none => pure (withRequested spec cmd h)) := by
  rw [changeClosePolicy_bind spec cmd asset totalDue due price hc hdue,
    changePolicy_nonzero _ _ h.profit_nonzero h.loss_nonzero]
  have haccepts := liquidationCheck_accepts _ _ h
  change (match accepted : (requested spec.close cmd).liquidationCheck spec.liability.max with
    | .error e => _
    | .ok close => _) = _
  split
  · next e he =>
    rw [haccepts] at he
    cases he
  · next close he =>
    rw [haccepts] at he
    cases he
    rfl

theorem quiet_iff (h : Acceptable (requested spec.close cmd) spec.liability.max)
    (ha : asset < 2 ^ amountBits) (dueAssets : ℕ) :
    ((requested spec.close cmd).mayTrigger asset dueAssets : Outcome ε _) = .ok none ↔
      Quiet (requested spec.close cmd) asset dueAssets := by
  constructor
  · exact triggered_none _ _ _
  · intro hquiet
    exact not_triggered (withRequested spec cmd h) asset dueAssets ha hquiet.1 hquiet.2

/-! ## The check that follows -/

theorem ltv_panics (dueAssets : ℕ) : FaultsIn Panics (ltv dueAssets asset : Outcome ε ℕ) := by
  apply faultsIn_bind _ _ _ (safeMul_panics _ _ _)
  intro res _
  split_ifs
  · exact faultsIn_pure _ _
  · exact panicking_panics _

theorem mayAskLiquidation_panics (cause : Cause) (amount : ℕ) :
    FaultsIn Panics (spec.mayAskLiquidation asset cause amount price : Outcome ε _) := by
  unfold Spec.mayAskLiquidation
  split
  · exact faultsIn_pure _ _
  · exact faultsIn_pure _ _
  · exact panicking_panics _
  · exact panicking_panics _
  · exact faultsIn_pure _ _

theorem capDue_panics (dueAssets ltv capped : ℕ) :
    FaultsIn Panics (spec.capDue asset dueAssets ltv capped : Outcome ε ℕ) := by
  unfold Spec.capDue
  split_ifs
  · apply faultsIn_bind _ _ _ (safeMul_panics _ _ _)
    intro bound _
    exact nativeSub_panics _ _
  · exact faultsIn_pure _ _

/-- The debt of a position has no errors of its own: what it does not compute it panics on. -/
theorem debt_panics (state : State) (hc : DueConvertible asset state.dues.sum price) :
    FaultsIn Panics (spec.debt asset (State.due state : Due ε) price) := by
  have hcollection := @collection_evaluates ε state spec.minTransaction
  apply faultsIn_bind _ _ _ (panics_of_ok _ _ (totalDue_returns state hc.due_fits))
  intro totalDue _
  apply faultsIn_bind _ _ _ (safeMul_panics _ _ _)
  intro dueAssets _
  apply faultsIn_bind
  · apply faultsIn_bind _ _ _ (panics_of_ok _ _ (amount_to_liquidate_part _ _ _ hc.asset_fits))
    intro amount _
    exact mayAskLiquidation_panics _ _ _ _ _
  intro liability _
  apply faultsIn_bind
  · apply faultsIn_bind _ _ _ (panics_of_evaluates _ _ hcollection)
    intro collected _
    apply faultsIn_bind _ _ _ (safeMul_panics _ _ _)
    intro amount _
    exact mayAskLiquidation_panics _ _ _ _ _
  intro overdue hoverdue
  obtain ⟨collected, hcollected, -⟩ := (bind_ok _ _ _).1 hoverdue
  cases later liability overdue with
  | some liquidation => exact faultsIn_pure _ _
  | none =>
    apply faultsIn_bind _ _ _ (ltv_panics _ _)
    intro positionLtv _
    apply faultsIn_bind _ _ _ (panics_of_ok _ _ ((capToZone_ok _ _ _).2 rfl))
    intro capped _
    apply faultsIn_bind _ _ _ (capDue_panics _ _ _ _ _)
    intro _ _
    have hanswers := (state_answers state _ hc.due_fits collected hcollected).2
    obtain ⟨debt, hdebt⟩ := noLiquidation_returns spec asset _ _ _ capped hc.asset_fits hanswers
    exact panics_of_ok _ _ hdebt

theorem noLiquidation_period (capped : ℕ) (due : Due ε) (collected : OverdueCollection)
    (zone : Zone) (steadiness : Steadiness)
    (hc : due.overdueCollection spec.minTransaction = .ok collected)
    (h : spec.noLiquidation asset due capped = .ok (.ok zone steadiness)) :
    steadiness.for_ = min collected.startsIn spec.liability.recalcTime := by
  simp only [Spec.noLiquidation, bind_ok, hc] at h
  obtain ⟨_, -, h⟩ := h
  split_ifs at h
  · cases h
  · simp only [bind_ok, pure_ok, Debt.ok.injEq] at h
    obtain ⟨_, hcollected, _, -, -, rfl⟩ := h
    cases hcollected
    rfl

/-- The debt is put in a zone exactly with no liquidation asked for and within the zones. -/
theorem debt_zone_iff (state : State) (hc : DueConvertible asset state.dues.sum price)
    (hpos : 0 < state.dues.sum) (period : ℕ) :
    (∃ zone steadiness, spec.debt asset (State.due state : Due ε) price =
        .ok (.ok zone steadiness) ∧ steadiness.for_ = period) ↔
      Estimable state spec.minTransaction ∧
        ¬ Liquidates spec asset (assetsDue state.dues.sum price)
          (assetsDue (collection state spec.minTransaction).amount price) price ∧
        InZones spec asset (assetsDue state.dues.sum price) ∧
        min (collection state spec.minTransaction).startsIn spec.liability.recalcTime = period := by
  have hestimable := @answers_iff ε state spec.minTransaction hc.due_fits
  constructor
  · rintro ⟨zone, steadiness, hdebt, hperiod⟩
    obtain ⟨_, _, _, collected, -, -, -, -, hcollected, -⟩ := debt_ok _ _ _ _ _ _ hdebt
    obtain ⟨rfl, hanswers⟩ := state_answers state _ hc.due_fits collected hcollected
    have hspared := zoned_spared spec asset _ _ _ price hc hanswers zone steadiness hdebt
    obtain ⟨hzones, hno⟩ :=
      (debt_spared spec asset _ _ _ price hc hanswers hspared _).1 hdebt
    refine ⟨hestimable.1 ⟨_, hcollected⟩, hspared, hzones, ?_⟩
    rw [← hperiod]
    exact (noLiquidation_period spec asset _ _ _ _ _ hcollected hno).symm
  · rintro ⟨hestimate, hspared, hzones, hperiod⟩
    obtain ⟨collected, hcollected⟩ := hestimable.2 hestimate
    obtain ⟨rfl, hanswers⟩ := state_answers state _ hc.due_fits collected hcollected
    obtain ⟨zone, steadiness, hno⟩ := no_liquidation_fits spec asset _
      (min (loanToValue (assetsDue state.dues.sum price) asset) (spec.liability.max - 1)) _ _
      hc.asset_fits hanswers.total hpos hcollected
    refine ⟨zone, steadiness, ?_, ?_⟩
    · exact (debt_spared spec asset _ _ _ price hc hanswers hspared _).2 ⟨hzones, hno⟩
    · rw [← hperiod]
      exact noLiquidation_period spec asset _ _ _ _ _ hcollected hno

/-! ## The command -/

variable (dto : LeaseDTO Currency) (lease : Lease) (now : ℕ) (state : State)

/-- The stored lease has the requested policy, which is acceptable and quiet, and the alarms are
those of its check. -/
def Renewed (stored : LeaseDTO Currency × Alarms) : Prop :=
  let position := stored.1.position
  position.amount = lease.position.amount ∧
    position.spec.liability = lease.position.spec.liability ∧
    position.spec.close = requested lease.position.spec.close cmd ∧
    Acceptable position.spec.close position.spec.liability.max ∧
    (∃ state price, (lease.loan.state now : Outcome ContractError State) = .ok state ∧
      lease.oracle = .ok price ∧
      (position.checkClose (State.due state) price : Outcome ContractError _) = .ok none) ∧
    ∃ zone, check { lease with position := position } now = .ok (.none zone stored.2)

def Settles (result : Outcome ContractError (LeaseDTO Currency × Alarms)) : Prop :=
  (∃ reason, result = failing reason) ∨ ∃ stored, result = .ok stored ∧ Renewed cmd lease now stored

/-- A requested policy that is acceptable is either quiet, on a lease with nothing else to be
asked for, or it is refused with a loan-to-value in range. -/
def Permits (spec : Spec) (asset : ℕ) : Prop :=
  Acceptable (requested spec.close cmd) spec.liability.max →
    (Quiet (requested spec.close cmd) asset (assetsDue state.dues.sum price) →
      Undisturbed spec asset state price now) ∧
    (¬ Quiet (requested spec.close cmd) asset (assetsDue state.dues.sum price) →
      loanToValue (assetsDue state.dues.sum price) asset < 2 ^ percentBits)

def DueFits (state : State) (price : Price) : Prop :=
  state.dues.sum < 2 ^ amountBits ∧ assetsDue state.dues.sum price < 2 ^ amountBits

/-- The state of the loan is in range, and either the oracle reports an error, or the due is in
range in both currencies and the change is permitted at the price. -/
def Changeable : Prop :=
  ∃ state, (lease.loan.state now : Outcome ContractError State) = .ok state ∧
    ((∃ reason, lease.oracle = failing reason) ∨
      ∃ price, lease.oracle = .ok price ∧ DueFits state price ∧
        Permits cmd price now state lease.position.spec lease.position.amount)

theorem check_untriggered (hstate : (lease.loan.state now : Outcome ContractError _) = .ok state)
    (hprice : lease.oracle = .ok price)
    (hclose : (lease.position.checkClose (State.due state) price : Outcome ContractError _) =
      .ok none) :
    check lease now = (do
      let debt ← lease.position.debt (State.due state) price
      CloseStatusDTO.tryFromDo (CloseStatus.ofDebt debt) now) := by
  simp only [check, Lease.checkClosePolicy, Lease.priceOfLeaseCurrency, Position.status, hstate,
    hprice, hclose, bind, Except.bind]
  cases lease.position.debt (State.due state : Due ContractError) price with
  | error e => rfl
  | ok debt => rfl

theorem tryFromDo_panics (status : CloseStatus) :
    FaultsIn Panics (CloseStatusDTO.tryFromDo status now : Outcome ε CloseStatusDTO) := by
  cases status with
  | paid => exact faultsIn_pure _ _
  | none zone steadiness =>
    apply faultsIn_bind
    · apply faultsIn_bind _ _ _ (panics_of_evaluates _ _ (nativeAdd_evaluates _ _ _))
      intro time _
      exact faultsIn_pure _ _
    · intro alarms _
      exact faultsIn_pure _ _
  | closeAsked strategy => exact faultsIn_pure _ _
  | needLiquidation liquidation => exact faultsIn_pure _ _

theorem ofDebt_status (debt : Debt) (status : CloseStatusDTO)
    (h : (CloseStatusDTO.tryFromDo (CloseStatus.ofDebt debt) now : Outcome ε _) = .ok status) :
    (status = .paid → debt = .no) ∧ ∀ strategy, status ≠ .closeAsked strategy := by
  cases debt with
  | no =>
    cases h
    simp
  | ok zone steadiness =>
    obtain ⟨_, -, hnone⟩ := (bind_ok _ _ _).1 h
    cases hnone
    simp
  | bad liquidation =>
    cases h
    simp

/-- A lease that is put in a zone is checked with the alarms of that zone. -/
theorem check_none_iff (hstate : (lease.loan.state now : Outcome ContractError _) = .ok state)
    (hprice : lease.oracle = .ok price)
    (hclose : (lease.position.checkClose (State.due state) price : Outcome ContractError _) =
      .ok none) :
    (∃ zone alarms, check lease now = .ok (.none zone alarms)) ↔
      ∃ zone steadiness, lease.position.debt (State.due state : Due ContractError) price =
        .ok (.ok zone steadiness) ∧ now + steadiness.for_ < 2 ^ timeBits := by
  rw [check_untriggered price lease now state hstate hprice hclose]
  simp only [bind_ok]
  constructor
  · rintro ⟨zone, alarms, debt, hdebt, hstatus⟩
    cases debt with
    | no => cases hstatus
    | bad liquidation => cases hstatus
    | ok zone steadiness =>
      obtain ⟨_, halarms, -⟩ := (bind_ok _ _ _).1 hstatus
      obtain ⟨_, htime, -⟩ := (bind_ok _ _ _).1 halarms
      exact ⟨zone, steadiness, hdebt, ((nativeAdd_ok _ _ _ _).1 htime).1⟩
  · rintro ⟨zone, steadiness, hdebt, htime⟩
    refine ⟨zone, ⟨now + steadiness.for_, ⟨steadiness.within.finish, steadiness.within.start⟩⟩,
      _, hdebt, ?_⟩
    have hat := (@nativeAdd_ok ContractError timeBits now steadiness.for_ _).2 ⟨htime, rfl⟩
    simp only [CloseStatus.ofDebt, CloseStatusDTO.tryFromDo, Steadiness.tryIntoAlarms, hat]
    rfl

theorem lease_change (hstate : (lease.loan.state now : Outcome ContractError _) = .ok state)
    (hprice : lease.oracle = .ok price) :
    lease.changeClosePolicy cmd now =
      (mapError .positionError (lease.position.spec.changeClosePolicy cmd lease.position.amount
        (State.due state) price) >>= fun spec =>
          pure { lease with position := { lease.position with spec := spec } }) := by
  simp only [Lease.changeClosePolicy, Lease.priceOfLeaseCurrency, Position.changeClosePolicy,
    hstate, hprice, bind, Except.bind]
  cases lease.position.spec.changeClosePolicy cmd lease.position.amount (State.due state)
    price with
  | error e =>
    cases e with
    | panic cause => rfl
    | error reason => rfl
  | ok spec => rfl

theorem exec_failing (reason : PositionError)
    (hstate : (lease.loan.state now : Outcome ContractError _) = .ok state)
    (hprice : lease.oracle = .ok price)
    (h : lease.position.spec.changeClosePolicy cmd lease.position.amount (State.due state) price =
      failing reason) :
    ChangeCmd.exec cmd dto lease now = failing (.positionError reason) := by
  rw [ChangeCmd.exec, lease_change cmd price lease now state hstate hprice, h]
  rfl

theorem exec_panicking (cause : Panic)
    (hstate : (lease.loan.state now : Outcome ContractError _) = .ok state)
    (hprice : lease.oracle = .ok price)
    (h : lease.position.spec.changeClosePolicy cmd lease.position.amount (State.due state) price =
      panicking cause) :
    ChangeCmd.exec cmd dto lease now = panicking cause := by
  rw [ChangeCmd.exec, lease_change cmd price lease now state hstate hprice, h]
  rfl

theorem check_undisturbed_iff
    (hstate : (lease.loan.state now : Outcome ContractError _) = .ok state)
    (hprice : lease.oracle = .ok price) (hpos : 0 < state.dues.sum)
    (hc : DueConvertible lease.position.amount state.dues.sum price)
    (hclose : (lease.position.checkClose (State.due state) price : Outcome ContractError _) =
      .ok none) :
    (∃ zone alarms, check lease now = .ok (.none zone alarms)) ↔
      Undisturbed lease.position.spec lease.position.amount state price now := by
  rw [check_none_iff price lease now state hstate hprice hclose]
  have hzone := @debt_zone_iff ContractError lease.position.spec lease.position.amount price state
    hc hpos
  constructor
  · rintro ⟨zone, steadiness, hdebt, htime⟩
    obtain ⟨hestimable, hspared, hzones, hperiod⟩ := (hzone _).1 ⟨zone, steadiness, hdebt, rfl⟩
    rw [← hperiod] at htime
    exact ⟨hestimable, hspared, hzones, htime⟩
  · intro h
    obtain ⟨zone, steadiness, hdebt, hperiod⟩ :=
      (hzone _).2 ⟨h.estimable, h.spared, h.zones, rfl⟩
    refine ⟨zone, steadiness, hdebt, ?_⟩
    rw [hperiod]
    exact h.time

def changed (h : Acceptable (requested lease.position.spec.close cmd)
    lease.position.spec.liability.max) : Lease :=
  { lease with position := { lease.position with spec := withRequested lease.position.spec cmd h } }

section Quietly

variable (hstate : (lease.loan.state now : Outcome ContractError _) = .ok state)
  (hprice : lease.oracle = .ok price) (hpos : 0 < state.dues.sum)
  (hc : DueConvertible lease.position.amount state.dues.sum price)
  (h : Acceptable (requested lease.position.spec.close cmd) lease.position.spec.liability.max)
  (hquiet : Quiet (requested lease.position.spec.close cmd) lease.position.amount
    (assetsDue state.dues.sum price))

include hc h hquiet

theorem changed_untriggered :
    ((changed cmd lease h).position.checkClose (State.due state) price : Outcome ε _) =
      .ok none := by
  simp only [Position.checkClose, Spec.checkClose, bind_ok]
  exact ⟨_, totalDue_returns state hc.due_fits, _, toAssets_fits _ _ hc.proper hc.due_converts,
    (quiet_iff _ _ _ h hc.asset_fits _).2 hquiet⟩

include hstate hprice

theorem change_quiet : lease.changeClosePolicy cmd now = .ok (changed cmd lease h) := by
  rw [lease_change cmd price lease now state hstate hprice,
    changeClosePolicy_acceptable _ _ _ _ _ _ hc (totalDue_returns state hc.due_fits) h,
    (quiet_iff _ _ _ h hc.asset_fits _).2 hquiet]
  rfl

theorem exec_quiet_panics : FaultsIn Panics (ChangeCmd.exec cmd dto lease now) := by
  have hclose := @changed_untriggered ContractError cmd price lease state hc h hquiet
  apply faultsIn_bind _ _ _
    (panics_of_ok _ _ (change_quiet cmd price lease now state hstate hprice hc h hquiet))
  intro lease' hlease
  have heq := change_quiet cmd price lease now state hstate hprice hc h hquiet
  rw [heq] at hlease
  obtain rfl := Except.ok.inj hlease
  apply faultsIn_bind
  · rw [check_untriggered price (changed cmd lease h) now state hstate hprice hclose]
    apply faultsIn_bind _ _ _ (debt_panics _ _ _ state hc)
    intro debt _
    exact tryFromDo_panics _ _
  · intro status _
    cases status with
    | none zone alarms => exact faultsIn_pure _ _
    | paid => exact panicking_panics _
    | closeAsked strategy => exact panicking_panics _
    | needLiquidation liquidation => exact panicking_panics _

include hpos

/-- A quiet policy is stored exactly on a lease with nothing else to be asked for. -/
theorem exec_quiet_iff :
    Settles cmd lease now (ChangeCmd.exec cmd dto lease now) ↔
      Undisturbed lease.position.spec lease.position.amount state price now := by
  have hchange := change_quiet cmd price lease now state hstate hprice hc h hquiet
  have hclose := @changed_untriggered ContractError cmd price lease state hc h hquiet
  have hcheck := check_undisturbed_iff price (changed cmd lease h) now state hstate hprice hpos hc
    hclose
  have hsame : Undisturbed lease.position.spec lease.position.amount state price now ↔
      Undisturbed (changed cmd lease h).position.spec lease.position.amount state price now :=
    ⟨fun hu => ⟨hu.estimable, hu.spared, hu.zones, hu.time⟩,
      fun hu => ⟨hu.estimable, hu.spared, hu.zones, hu.time⟩⟩
  constructor
  · intro hsettles
    apply hsame.2
    apply hcheck.1
    rcases hsettles with ⟨reason, hreported⟩ | ⟨stored, hstored, -⟩
    · obtain ⟨_, hpanic⟩ :=
        exec_quiet_panics cmd price dto lease now state hstate hprice hc h hquiet _ hreported
      cases hpanic
    · simp only [ChangeCmd.exec, bind_ok, hchange, Except.ok.injEq, exists_eq_left'] at hstored
      obtain ⟨status, hstatus, hstored⟩ := hstored
      cases status with
      | none zone alarms => exact ⟨zone, alarms, hstatus⟩
      | paid => exact absurd hstored (panicking_ok _ _)
      | closeAsked strategy => exact absurd hstored (panicking_ok _ _)
      | needLiquidation liquidation => exact absurd hstored (panicking_ok _ _)
  · intro hundisturbed
    obtain ⟨zone, alarms, hstatus⟩ := hcheck.2 (hsame.1 hundisturbed)
    right
    refine ⟨(dto.updated (changed cmd lease h), alarms), ?_, rfl, rfl, rfl, h,
      ⟨state, price, hstate, hprice, hclose⟩, zone, hstatus⟩
    simp only [ChangeCmd.exec, bind_ok, hchange, Except.ok.injEq, exists_eq_left']
    exact ⟨_, hstatus, rfl⟩

end Quietly

theorem exec_triggering_iff (hstate : (lease.loan.state now : Outcome ContractError _) = .ok state)
    (hprice : lease.oracle = .ok price)
    (hc : DueConvertible lease.position.amount state.dues.sum price)
    (h : Acceptable (requested lease.position.spec.close cmd) lease.position.spec.liability.max)
    (hloud : ¬ Quiet (requested lease.position.spec.close cmd) lease.position.amount
      (assetsDue state.dues.sum price)) :
    Settles cmd lease now (ChangeCmd.exec cmd dto lease now) ↔
      loanToValue (assetsDue state.dues.sum price) lease.position.amount < 2 ^ percentBits := by
  obtain ⟨strategy, htrigger⟩ := @mayTrigger_fits PositionError
    (withRequested lease.position.spec cmd h) lease.position.amount
    (assetsDue state.dues.sum price) hc.asset_fits
  have hspec := changeClosePolicy_acceptable lease.position.spec cmd lease.position.amount _
    (State.due state) price hc (totalDue_returns state hc.due_fits) h
  change (requested lease.position.spec.close cmd).mayTrigger _ _ = _ at htrigger
  rw [htrigger] at hspec
  cases strategy with
  | none => exact absurd ((quiet_iff _ _ _ h hc.asset_fits _).1 htrigger) hloud
  | some strategy =>
    change _ = (ltv (assetsDue state.dues.sum price) lease.position.amount >>= fun leaseLtv =>
      failing (PositionError.triggerClose leaseLtv strategy)) at hspec
    cases hltv : (ltv (assetsDue state.dues.sum price) lease.position.amount :
        Outcome PositionError ℕ) with
    | ok leaseLtv =>
      rw [hltv] at hspec
      have hfits := ((ltv_returns _ _ _ hc.positive).1 hltv).1
      simp only [hfits, iff_true]
      exact .inl ⟨_, exec_failing cmd price dto lease now state _ hstate hprice hspec⟩
    | error fault =>
      obtain ⟨cause, rfl⟩ := ltv_panics _ _ _ hltv
      rw [hltv] at hspec
      have hexec := exec_panicking cmd price dto lease now state cause hstate hprice hspec
      have hover : ¬ loanToValue (assetsDue state.dues.sum price) lease.position.amount <
          2 ^ percentBits := by
        intro hfits
        rw [(ltv_returns _ _ _ hc.positive).2 ⟨hfits, rfl⟩] at hltv
        cases hltv
      simp only [hover, iff_false]
      rw [hexec]
      rintro (⟨_, hreported⟩ | ⟨_, hstored, -⟩)
      · cases hreported
      · cases hstored

/-! ## What does not fit -/

theorem state_panics (loan : LeaseLoan.Loan) :
    FaultsIn Panics (loan.state now : Outcome ε State) := by
  rcases Nat.lt_or_ge now loan.marginPaidBy with hlt | hle
  · rw [Loan.state, Period.fromTill, between, nativeSub, if_neg (by omega)]
    exact panicking_panics _
  · exact panics_of_evaluates _ _ (LeaseSplit.state_evaluates loan now hle)

theorem totalDue_panics (h : ¬ state.dues.sum < 2 ^ amountBits) :
    ∃ cause, (State.due state : Due ε).totalDue = panicking cause := by
  have heval : Evaluates (State.due state : Due ε).totalDue
      (state.principalDue + totalInterest state) :=
    evaluates_bind _ _ _ _ (totalDueInterest_evaluates state) (coinAdd_evaluates _ _)
  rcases heval with hok | ⟨message, hpanic⟩
  · obtain ⟨interest, hinterest, hsum⟩ := (bind_ok _ _ _).1 hok
    obtain ⟨-, rfl⟩ := (totalDueInterest_ok _ _).1 hinterest
    obtain ⟨hfits, -⟩ := (coinAdd_ok _ _ _).1 hsum
    simp only [totalInterest] at hfits
    simp only [State.dues, List.sum_cons, List.sum_nil] at h
    omega
  · exact ⟨_, hpanic⟩

theorem toAssets_panics (amount : ℕ) (hp : Proper price) (hamount : price.amount < 2 ^ amountBits)
    (h : ¬ assetsDue amount price < 2 ^ amountBits) :
    (toAssets amount price : Outcome ε ℕ) = panicking (.overflow "unexpected overflow") :=
  safeMul_unfit _ _ _ hp.2 hamount (not_lt.1 h)

theorem changeClosePolicy_unfit (hp : Proper price) (hamount : price.amount < 2 ^ amountBits)
    (h : ¬ DueFits state price) :
    ∃ cause, spec.changeClosePolicy cmd asset (State.due state) price = panicking cause := by
  rw [Spec.changeClosePolicy]
  by_cases hfits : state.dues.sum < 2 ^ amountBits
  · have hpanic := @toAssets_panics PositionError price _ hp hamount (fun hc => h ⟨hfits, hc⟩)
    rw [totalDue_returns state hfits]
    change ∃ cause, (toAssets state.dues.sum price >>= _) = _
    rw [hpanic]
    exact ⟨_, rfl⟩
  · obtain ⟨cause, hpanic⟩ := @totalDue_panics PositionError state hfits
    rw [hpanic]
    exact ⟨cause, rfl⟩

theorem panicking_unsettled (cause : Panic) :
    ¬ Settles cmd lease now
      (panicking cause : Outcome ContractError (LeaseDTO Currency × Alarms)) := by
  rintro (⟨_, hreported⟩ | ⟨_, hstored, -⟩)
  · cases hreported
  · cases hstored

/-- A changed policy is not triggered and something is due: the check of the changed lease is
never asked for a close, nor is it paid. -/
theorem changed_never_closed (lease' : Lease)
    (hstate : (lease.loan.state now : Outcome ContractError _) = .ok state)
    (hprice : lease.oracle = .ok price) (hpos : 0 < state.dues.sum)
    (hc : DueConvertible lease.position.amount state.dues.sum price)
    (hchange : lease.changeClosePolicy cmd now = .ok lease') :
    check lease' now ≠ .ok .paid ∧ ∀ strategy, check lease' now ≠ .ok (.closeAsked strategy) := by
  rw [lease_change cmd price lease now state hstate hprice] at hchange
  simp only [bind_ok, mapError_ok, pure_ok] at hchange
  obtain ⟨spec, hspec, rfl⟩ := hchange
  obtain ⟨-, -, -, -, hquiet⟩ := changeClosePolicy_ok _ _ _ _ _ _ hspec
  have hassets := @toAssets_fits PositionError _ price hc.proper hc.due_converts
  obtain ⟨hsl, htp⟩ := triggered_none _ _ _ (checkClose_untriggered _ _ _ _ _ _
    (totalDue_returns state hc.due_fits) hassets hquiet)
  have hclose : (spec.checkClose lease.position.amount (State.due state) price :
      Outcome ContractError _) = .ok none := by
    simp only [Spec.checkClose, bind_ok]
    exact ⟨_, totalDue_returns state hc.due_fits, _, toAssets_fits _ _ hc.proper hc.due_converts,
      not_triggered spec _ _ hc.asset_fits hsl htp⟩
  have hdebt := check_untriggered price
    { lease with position := { lease.position with spec := spec } } now state hstate hprice hclose
  rw [hdebt]
  constructor
  · intro hpaid
    obtain ⟨debt, hdebt, hstatus⟩ := (bind_ok _ _ _).1 hpaid
    exact LeasePayment.debt_due _ _ _ _ _ _ (totalDue_returns state hc.due_fits) hpos hdebt
      ((ofDebt_status now debt _ hstatus).1 rfl)
  · intro strategy hasked
    obtain ⟨debt, -, hstatus⟩ := (bind_ok _ _ _).1 hasked
    exact (ofDebt_status now debt _ hstatus).2 strategy rfl

theorem change_settles_priced (hstate : (lease.loan.state now : Outcome ContractError _) = .ok state)
    (hprice : lease.oracle = .ok price) (hpos : 0 < state.dues.sum)
    (hc : DueConvertible lease.position.amount state.dues.sum price) :
    Settles cmd lease now (ChangeCmd.exec cmd dto lease now) ↔
      Permits cmd price now state lease.position.spec lease.position.amount := by
  have hdue : (State.due state : Due PositionError).totalDue = .ok state.dues.sum :=
    totalDue_returns state hc.due_fits
  by_cases h : Acceptable (requested lease.position.spec.close cmd)
      lease.position.spec.liability.max
  · by_cases hquiet : Quiet (requested lease.position.spec.close cmd) lease.position.amount
        (assetsDue state.dues.sum price)
    · rw [exec_quiet_iff cmd price dto lease now state hstate hprice hpos hc h hquiet]
      simp [Permits, h, hquiet]
    · rw [exec_triggering_iff cmd price dto lease now state hstate hprice hc h hquiet]
      simp [Permits, h, hquiet]
  · obtain ⟨reason, hreason⟩ := changeClosePolicy_refused lease.position.spec cmd
      lease.position.amount _ (State.due state) price hc hdue h
    have hexec := exec_failing cmd price dto lease now state reason hstate hprice hreason
    constructor
    · intro _ hacceptable
      exact absurd hacceptable h
    · intro _
      exact .inl ⟨_, hexec⟩

theorem exec_stateless (e : Fault ContractError)
    (hstate : (lease.loan.state now : Outcome ContractError State) = .error e) :
    ChangeCmd.exec cmd dto lease now = .error e := by
  rw [ChangeCmd.exec, Lease.changeClosePolicy, hstate]
  rfl

theorem exec_unpriced (e : Fault ContractError)
    (hstate : (lease.loan.state now : Outcome ContractError State) = .ok state)
    (hprice : lease.oracle = .error e) : ChangeCmd.exec cmd dto lease now = .error e := by
  rw [ChangeCmd.exec, Lease.changeClosePolicy, hstate, Lease.priceOfLeaseCurrency, hprice]
  rfl

structure Active : Prop where
  positive : 0 < lease.position.amount
  asset_fits : lease.position.amount < 2 ^ amountBits
  price : ∀ price, lease.oracle = .ok price → Proper price ∧ price.amount < 2 ^ amountBits
  due : ∀ state, (lease.loan.state now : Outcome ContractError State) = .ok state →
    0 < state.dues.sum

theorem change_settles (h : Active lease now) :
    Settles cmd lease now (ChangeCmd.exec cmd dto lease now) ↔ Changeable cmd lease now := by
  unfold Changeable
  cases hstate : (lease.loan.state now : Outcome ContractError State) with
  | error e =>
    obtain ⟨cause, rfl⟩ := state_panics now lease.loan e hstate
    have hexec := exec_stateless cmd dto lease now _ hstate
    simp only [hexec, reduceCtorEq, false_and, exists_false, iff_false]
    exact panicking_unsettled cmd lease now cause
  | ok state =>
    simp only [Except.ok.injEq, exists_eq_left']
    cases hprice : lease.oracle with
    | error e =>
      have hexec := exec_unpriced cmd dto lease now state e hstate hprice
      rw [hexec]
      simp only [reduceCtorEq, false_and, exists_false, or_false]
      cases e with
      | panic cause =>
        refine iff_of_false (panicking_unsettled cmd lease now cause) ?_
        rintro ⟨_, hreported⟩
        cases hreported
      | error reason => exact iff_of_true (.inl ⟨reason, rfl⟩) ⟨reason, rfl⟩
    | ok price =>
      obtain ⟨hp, hamount⟩ := h.price price hprice
      have hreported : ¬ ∃ reason, (.ok price : Outcome ContractError Price) = failing reason := by
        rintro ⟨_, hreported⟩
        cases hreported
      simp only [hreported, false_or, Except.ok.injEq, exists_eq_left']
      by_cases hfits : DueFits state price
      · have hc : DueConvertible lease.position.amount state.dues.sum price :=
          ⟨hp, h.positive, h.asset_fits, hfits.1, hfits.2⟩
        rw [change_settles_priced cmd price dto lease now state hstate hprice (h.due state hstate)
          hc]
        simp only [hfits, true_and]
      · obtain ⟨cause, hpanic⟩ := changeClosePolicy_unfit lease.position.spec cmd
          lease.position.amount price state hp hamount hfits
        rw [exec_panicking cmd price dto lease now state cause hstate hprice hpanic]
        refine iff_of_false (panicking_unsettled cmd lease now cause) ?_
        exact fun hchangeable => hfits hchangeable.1

/-- A change of the close policy is reported as an error, or is stored with the alarms of a check,
exactly when all it computes is in range and the change is permitted. It never finds the lease
paid, or to be closed by the policy. -/
theorem change_settles_iff (h : Active lease now) :
    (Settles cmd lease now (ChangeCmd.exec cmd dto lease now) ↔ Changeable cmd lease now) ∧
    ∀ lease', lease.changeClosePolicy cmd now = .ok lease' →
      check lease' now ≠ .ok .paid ∧ ∀ strategy, check lease' now ≠ .ok (.closeAsked strategy) := by
  refine ⟨change_settles cmd dto lease now h, ?_⟩
  intro lease' hchange
  have hspec := hchange
  simp only [Lease.changeClosePolicy, Lease.priceOfLeaseCurrency, Position.changeClosePolicy,
    bind_ok, mapError_ok, pure_ok] at hspec
  obtain ⟨state, hstate, price, hprice, _, ⟨spec, hspec, -⟩, -⟩ := hspec
  obtain ⟨hp, hamount⟩ := h.price price hprice
  by_cases hfits : DueFits state price
  · have hc : DueConvertible lease.position.amount state.dues.sum price :=
      ⟨hp, h.positive, h.asset_fits, hfits.1, hfits.2⟩
    exact changed_never_closed cmd price lease now state lease' hstate hprice
      (h.due state hstate) hc hchange
  · obtain ⟨cause, hpanic⟩ := changeClosePolicy_unfit lease.position.spec cmd
      lease.position.amount price state hp hamount hfits
    rw [hpanic] at hspec
    cases hspec

def storedLease (amount : ℕ) : LeaseDTO ℕ where
  customer := 7
  timeAlarms := 8
  oracle := 9
  currency := 2
  lpn := 1
  position := ⟨amount, sampleSpec⟩
  loan := ⟨Interest.year / 2, 50, 0⟩

def pricedLease (amount : ℕ) (price : Price) : Lease :=
  { LeasePayment.sampleLease amount with oracle := .ok price }

def sampleState : State := (pricedLease 1000 ⟨1, 1⟩).loan.stateAt 0

def dropStopLoss : ClosePolicyChange := ⟨some .reset, none⟩

theorem change_settles_sample :
    Active (pricedLease 1000 ⟨1, 1⟩) 0 ∧
    Settles dropStopLoss (pricedLease 1000 ⟨1, 1⟩) 0
      (ChangeCmd.exec dropStopLoss (storedLease 1000) (pricedLease 1000 ⟨1, 1⟩) 0) := by
  have hstate : (pricedLease 1000 ⟨1, 1⟩).loan.state 0 =
      (.ok sampleState : Outcome ContractError State) := by rfl
  have hactive : Active (pricedLease 1000 ⟨1, 1⟩) 0 := by
    refine ⟨by decide, by decide, ?_, ?_⟩
    · intro price hprice
      obtain rfl := Except.ok.inj hprice
      exact ⟨⟨by decide, by decide⟩, by decide⟩
    · intro state hanswer
      rw [hstate] at hanswer
      obtain rfl := Except.ok.inj hanswer
      decide
  refine ⟨hactive, ?_⟩
  apply (change_settles_iff dropStopLoss (storedLease 1000) (pricedLease 1000 ⟨1, 1⟩) 0
    hactive).1.2
  refine ⟨sampleState, hstate, .inr ⟨⟨1, 1⟩, rfl, ⟨by decide, by decide⟩, ?_⟩⟩
  intro _
  constructor
  · intro _
    exact ⟨⟨by decide, by decide, by decide, by decide⟩, by decide, by decide, by decide⟩
  · intro _
    decide

/-- A price move past the maximum that no alarm has delivered yet: the lease is to be liquidated
when its stop loss is dropped. -/
theorem unhandled_move_panics :
    ¬ Settles dropStopLoss (pricedLease 1000 ⟨10, 7⟩) 0
      (ChangeCmd.exec dropStopLoss (storedLease 1000) (pricedLease 1000 ⟨10, 7⟩) 0) := by
  have hexec : ChangeCmd.exec dropStopLoss (storedLease 1000) (pricedLease 1000 ⟨10, 7⟩) 0 =
      unimplemented
        "triggering a liquidation with a policy change should have already resulted in an error" := by
    rfl
  rw [hexec]
  exact panicking_unsettled _ _ _ _

end Nolus.LeasePolicyChange
