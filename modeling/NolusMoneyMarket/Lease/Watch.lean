import NolusMoneyMarket.Base.Runs
import NolusMoneyMarket.Lease.Contract
import NolusMoneyMarket.Lease.Payment

/-! # No open lease unwatched

A lease contract together with its loan at the pool and its slots at the stores
of time and price alarms. A call either goes through with all its messages or
leaves everything as it is. An alarm is taken out of its store on a delivery;
when that fails, a price alarm is put back and a time alarm is set one second
before the current one. Whatever leaves the lease active has checked the very
lease it stores, and has set both alarms up from that check. -/

set_option autoImplicit false

namespace Nolus.LeaseWatch
open Nolus.Fallible Nolus.Fraction Nolus.Interest Nolus.Prices Nolus.Runs
open Nolus.SwapTasks hiding Env Message
open Nolus.LeaseLiability Nolus.LeaseLoan Nolus.LeasePosition Nolus.LeaseSteady Nolus.LeasePayment
open Nolus.Leases Nolus.LeaseContract

variable {Currency Data Msg : Type}

/-- The time of the last check, and of the last failed delivery of a time alarm since then, zero
if there is none, are kept for the statements only. -/
structure World (Currency Data : Type) where
  state : LeaseContract.State Currency Data
  now : ℕ
  pool : Option LppLoan.Loan
  timeAlarm : Option ℕ
  priceAlarm : Option PriceAlarm
  lastCheck : ℕ
  lastFailed : ℕ

def asSeconds (time : ℕ) : ℕ := time / nanosInSecond

/-- The store of time alarms keeps whole seconds and takes no alarm of the past. -/
def World.addTimeAlarm (w : World Currency Data) (time : ℕ) : Option (World Currency Data) :=
  if time < w.now then none else some { w with timeAlarm := some (asSeconds time) }

/-- The pool repays its loan by the same rules as the lease, and removes a repaid one. -/
def World.repayLoan (w : World Currency Data) (amount : ℕ) : Option (World Currency Data) :=
  match w.pool with
  | none => none
  | some loan =>
    match (loan.repay w.now amount : Outcome ContractError (LppLoan.Loan × LppLoan.RepayShares)) with
    | .error _ => none
    | .ok (repaid, _) =>
      some { w with pool := if repaid.principalDue = 0 then none else some repaid }

def World.execute (w : World Currency Data) :
    LeaseContract.Message Currency → Option (World Currency Data)
  | .timeAlarm time => w.addTimeAlarm time
  | .dex (.setupAlarm time) => w.addTimeAlarm time
  | .priceAlarm alarm => some { w with priceAlarm := some alarm }
  | .repayLoan amount => w.repayLoan amount
  | _ => some w

def World.executeAll (w : World Currency Data) :
    List (LeaseContract.Message Currency) → Option (World Currency Data)
  | [] => some w
  | message :: messages => (w.execute message).bind (fun w => w.executeAll messages)

def active : LeaseContract.State Currency Data → Bool
  | .openedActive _ => true
  | _ => false

def World.settle (w : World Currency Data) (response : Response Currency Data) :
    Option (World Currency Data) :=
  (w.executeAll response.messages).map fun w' =>
    { w' with state := response.next
              lastCheck := if active response.next then w.now else w'.lastCheck
              lastFailed := if active response.next then 0 else w'.lastFailed }

def World.lpp (w : World Currency Data) : LppQuery := okOr w.pool .lppError

section Steps

variable [DecidableEq Currency]

def World.call (client : SwapClient Data Msg) (w : World Currency Data) (env : Env Currency)
    (call : Call Currency Data) : Option (World Currency Data) :=
  match w.state.handle client env w.lpp call with
  | .ok response => w.settle response
  | .error _ => none

/-- The pool opens the loan of a lease that has requested it. The chain may refuse a call or a
delivery for reasons of its own. -/
inductive Event (Currency Data : Type)
  | loanOpened (env : Env Currency) (loan : LppLoan.Loan)
  | call (env : Env Currency) (call : Call Currency Data)
  | timeAlarm (env : Env Currency) (refused : Bool)
  | priceAlarm (env : Env Currency) (refused : Bool)
  | refused (now : ℕ)

def Event.now : Event Currency Data → ℕ
  | .loanOpened env _ => env.now
  | .call env _ => env.now
  | .timeAlarm env _ => env.now
  | .priceAlarm env _ => env.now
  | .refused now => now

def World.rearmed (w : World Currency Data) : World Currency Data :=
  { w with timeAlarm := some (asSeconds w.now - 1), lastFailed := w.now }

def World.timeAlarmDue (w : World Currency Data) : Bool :=
  match w.timeAlarm with
  | none => false
  | some at_ => at_ < asSeconds w.now

def unlessRefused {α : Type} (refused : Bool) (x : Option α) : Option α :=
  if refused then none else x

def World.happens (client : SwapClient Data Msg) (w : World Currency Data) :
    Event Currency Data → Option (World Currency Data)
  | .loanOpened env loan =>
    match w.state with
    | .requestLoan form _ =>
      ({ w with pool := some loan } : World Currency Data).call client env
        (.loanOpened ⟨form.lpn, loan.principalDue⟩)
    | _ => some w
  | .call env call => some ((w.call client env call).getD w)
  | .timeAlarm env refused =>
    if w.timeAlarmDue then
      some ((unlessRefused refused (({ w with timeAlarm := none } : World Currency Data).call client
        env (.platform .timeAlarm))).getD w.rearmed)
    else none
  | .priceAlarm env refused =>
    match w.priceAlarm with
    | none => none
    | some _ =>
      some ((unlessRefused refused (({ w with priceAlarm := none } : World Currency Data).call client
        env .priceAlarm)).getD w)
  | .refused _ => some w

def World.step (client : SwapClient Data Msg) (w : World Currency Data)
    (event : Event Currency Data) : Option (World Currency Data) :=
  if event.now < w.now then none
  else ({ w with now := event.now } : World Currency Data).happens client event

def Step (client : SwapClient Data Msg) (w : World Currency Data) (event : Event Currency Data)
    (w' : World Currency Data) : Prop := w.step client event = some w'

def Opening (w : World Currency Data) : Prop :=
  (∃ form downpayment, w.state = .requestLoan form downpayment) ∧ w.timeAlarm = none ∧
    w.priceAlarm = none ∧ w.pool = none

end Steps

def CheckedAt (lease : LeaseDTO Currency) (loan : LppLoan.Loan) (time : ℕ) (alarms : Alarms) :
    Prop :=
  ∃ price zone, check (lease.withDeps loan (.ok price)) time = .ok (.none zone alarms)

/-- Both alarms of an active lease are outstanding as its last check has set them up: the price
alarms just so, the time alarm no later than that, or than its last failed delivery since. -/
def Watched (w : World Currency Data) : Prop :=
  ∀ lease, w.state = .openedActive lease → ∃ loan alarms time, w.pool = some loan ∧
    CheckedAt lease loan w.lastCheck alarms ∧ w.priceAlarm = some alarms.price ∧
    w.timeAlarm = some time ∧
    time * nanosInSecond ≤
      max (w.lastCheck + lease.position.spec.liability.recalcTime) w.lastFailed

theorem repay_nothing (loan repaid : LppLoan.Loan) (by_ : ℕ) (shares : LppLoan.RepayShares)
    (h : (loan.repay by_ 0 : Outcome ContractError (LppLoan.Loan × LppLoan.RepayShares)) =
      .ok (repaid, shares)) : repaid = loan := by
  obtain ⟨rfl, -⟩ := LppLoan.repay_ok loan repaid by_ 0 shares h
  simp [LppLoan.Loan.repaid, LppLoan.Loan.shares, paidFor]

def PoolRepaid (loan : LppLoan.Loan) (now : ℕ) (lppRepay : Option ℕ) (repaid : LppLoan.Loan) :
    Prop :=
  match lppRepay with
  | none => repaid = loan
  | some amount => ∃ shares, (loan.repay now amount :
      Outcome ContractError (LppLoan.Loan × LppLoan.RepayShares)) = .ok (repaid, shares)

/-- The lease has repaid its view of the loan just as the pool is going to. -/
theorem repay_pool (self : LeaseLoan.Loan) (payment now : ℕ) (r : Repayment)
    (h0 : self.lppLoan.repayment = 0)
    (h : (self.repay payment now : Outcome ContractError Repayment) = .ok r) :
    PoolRepaid self.lppLoan.loan now (LeaseLoan.Loan.tryIntoDto r.loan).2 r.loan.lppLoan.loan := by
  obtain ⟨hle, -⟩ := repay_time self payment now r h
  have hpool := LeaseSplit.repay_reaches_pool self payment now r h
  have hr := evaluates_ok _ _ _ (LeaseSplit.repay_evaluates self payment now hle) h
  have hscheduled : r.loan.lppLoan.repayment = r.receipt.lppPaid := by
    rw [hr]
    change self.lppLoan.repayment + _ = _
    rw [h0, Nat.zero_add]
    rfl
  simp only [LeaseLoan.Loan.tryIntoDto, LppLoan.message, hscheduled]
  split_ifs with hpaid
  · rw [hpaid] at hpool
    exact repay_nothing _ _ _ _ hpool
  · exact ⟨_, hpool⟩

theorem state_scheduled (loan : LppLoan.Loan) (r s duePeriod marginInterest marginPaidBy now : ℕ) :
    (LeaseLoan.Loan.state ⟨⟨loan, r⟩, duePeriod, marginInterest, marginPaidBy⟩ now :
      Outcome ContractError LeaseLoan.State) =
      LeaseLoan.Loan.state ⟨⟨loan, s⟩, duePeriod, marginInterest, marginPaidBy⟩ now := rfl

theorem checked_stored (dto : LeaseDTO Currency) (checked : Lease) (now : ℕ) (price : Price)
    (zone : Zone) (alarms : Alarms) (hprice : checked.oracle = .ok price)
    (h : check checked now = .ok (.none zone alarms)) :
    CheckedAt (dto.updated checked) checked.loan.lppLoan.loan now alarms := by
  obtain ⟨position, ⟨⟨loan, scheduled⟩, duePeriod, marginInterest, marginPaidBy⟩, oracle⟩ := checked
  refine ⟨price, zone, ?_⟩
  rw [← h]
  simp only at hprice
  simp only [check, Lease.checkClosePolicy, LeaseDTO.updated, LeaseDTO.withDeps,
    LeaseLoan.Loan.fromDto, LeaseLoan.Loan.tryIntoDto, Lease.priceOfLeaseCurrency, hprice]
  rw [state_scheduled loan 0 scheduled]

/-- A handled call that leaves the lease active sends out the alarms of a check of the very lease
it stores, with the loan as the pool is going to have it. -/
def Renews (lpp : LppQuery) (now : ℕ) (x : Outcome ContractError (Response Currency Data)) : Prop :=
  ∀ response lease, x = .ok response → response.next = .openedActive lease →
    ∃ before after alarms repaid, lpp = .ok before ∧
      response.messages = alarmMessages alarms ++ repayMessages repaid ∧
      PoolRepaid before now repaid.lppRepay after ∧ CheckedAt lease after now alarms

section Renewing

variable {lpp : LppQuery} {now : ℕ}

theorem renews_bind {α : Type} (x : Outcome ContractError α)
    (f : α → Outcome ContractError (Response Currency Data))
    (h : ∀ a, x = .ok a → Renews lpp now (f a)) : Renews lpp now (x >>= f) := by
  intro response lease hx
  obtain ⟨a, ha, hf⟩ := (bind_ok x f _).1 hx
  exact h a ha response lease hf

theorem renews_failing (reason : ContractError) :
    Renews lpp now (failing reason : Outcome ContractError (Response Currency Data)) := by
  intro response lease hx
  exact absurd hx (failing_ok _ _)

theorem renews_unimplemented (message : String) :
    Renews lpp now (unimplemented message : Outcome ContractError (Response Currency Data)) := by
  intro response lease hx
  exact absurd hx (panicking_ok _ _)

theorem renews_other (response : Response Currency Data) (h : active response.next = false) :
    Renews lpp now (pure response) := by
  intro response' lease hx hnext
  rw [pure_ok] at hx
  subst hx
  rw [hnext] at h
  cases h

theorem renews_checked (lease : LeaseDTO Currency) (before : LppLoan.Loan) (alarms : Alarms)
    (hlpp : lpp = .ok before) (h : CheckedAt lease before now alarms) :
    Renews lpp now (pure ⟨alarmMessages alarms, .openedActive lease⟩ :
      Outcome ContractError (Response Currency Data)) := by
  intro response lease' hx hnext
  rw [pure_ok] at hx
  subst hx
  cases hnext
  exact ⟨before, before, alarms, ⟨none, 0⟩, hlpp, (List.append_nil _).symm, rfl, h⟩

theorem check_price (lease : Lease) (when_ : ℕ) (status : CloseStatusDTO)
    (h : check lease when_ = .ok status) : ∃ price, lease.oracle = .ok price := by
  simp only [check, Lease.checkClosePolicy, Lease.priceOfLeaseCurrency, bind_ok] at h
  obtain ⟨_, ⟨_, _, price, hprice, _⟩, _⟩ := h
  exact ⟨price, hprice⟩

theorem doRepay_repays (repayFn : RepayFn) (lease : Lease) (amount when_ : ℕ) (repaid : Repaid)
    (h : repayFn.doRepay lease amount when_ = .ok repaid) :
    ∃ r, (lease.loan.repay amount when_ : Outcome ContractError Repayment) = .ok r ∧
      repaid.lease.loan = r.loan ∧ repaid.lease.oracle = lease.oracle := by
  cases repayFn with
  | repayLease =>
    simp only [RepayFn.doRepay, Lease.repay, bind_ok, pure_ok] at h
    obtain ⟨r, hr, rfl⟩ := h
    exact ⟨r, hr, rfl, rfl⟩
  | close asset =>
    simp only [RepayFn.doRepay, Lease.closePartial, Lease.repay, bind_ok, pure_ok] at h
    obtain ⟨_, _, r, hr, rfl⟩ := h
    exact ⟨r, hr, rfl, rfl⟩

/-- What a payment stores and sends out goes with its last check. -/
theorem exec_checked (repayFn : RepayFn) (dto : LeaseDTO Currency) (lppLoan : LppLoan.Loan)
    (oracle : Outcome ContractError Price) (amount when_ : ℕ) (zone : Zone) (alarms : Alarms)
    (result : RepayLeaseResult Currency)
    (h : Repay.exec repayFn dto (dto.withDeps lppLoan oracle) amount when_ = .ok result)
    (hstatus : result.closeStatus = .none zone alarms) :
    ∃ after, PoolRepaid lppLoan when_ result.response.lppRepay after ∧
      CheckedAt result.lease after when_ alarms := by
  simp only [Repay.exec, bind_ok, pure_ok] at h
  obtain ⟨repaid, hrepaid, ⟨checked, status⟩, hinit, rfl⟩ := h
  simp only at hstatus
  subst hstatus
  obtain ⟨r, hr, hloan, horacle⟩ := doRepay_repays _ _ _ _ _ hrepaid
  have hchecked : checked.loan = repaid.lease.loan ∧
      check checked when_ = .ok (.none zone alarms) := by
    rcases checkCloseWithInit_ok _ _ _ _ hinit with ⟨hcheck, rfl, -⟩ | ⟨_, _, hreset, hcheck⟩
    · exact ⟨rfl, hcheck⟩
    · exact ⟨(reset_ok _ _ _ hreset).1, hcheck⟩
  obtain ⟨price, hprice⟩ := check_price _ _ _ hchecked.2
  have hpool := repay_pool _ _ _ _ rfl hr
  rw [← hloan, ← hchecked.1] at hpool
  exact ⟨_, hpool, checked_stored dto checked when_ price zone alarms hprice hchecked.2⟩

theorem renews_close (lease : LeaseDTO Currency) (recipient : Option Addr)
    (outState : LeaseContract.State Currency Data) (amount : ℕ) (env : Env Currency)
    (h : active outState = false) :
    Renews lpp now (tryClose lease recipient outState amount env lpp) := by
  apply renews_bind
  intro lppLoan _
  apply renews_bind
  intro receipt _
  exact renews_other _ h

theorem checked_as_stored (lease : LeaseDTO Currency) (env : Env Currency)
    (lppLoan : LppLoan.Loan) (zone : Zone) (alarms : Alarms)
    (h : check (env.lease lease lppLoan) env.now = .ok (.none zone alarms)) :
    CheckedAt lease lppLoan env.now alarms := by
  obtain ⟨price, hprice⟩ := check_price _ _ _ h
  refine ⟨price, zone, ?_⟩
  rw [← h, Env.lease]
  change env.price lease.currency = .ok price at hprice
  rw [hprice]

theorem renews_dex {S : Type} (wrap : S → LeaseContract.State Currency Data)
    (finish : SwapTasks.CoinDTO Currency → Outcome ContractError (Response Currency Data))
    (handled : Outcome DexError (HandlerResult Currency S))
    (hwrap : ∀ s, active (wrap s) = false) (hfinish : ∀ out, Renews lpp now (finish out)) :
    Renews lpp now (ofDex wrap finish handled) := by
  apply renews_bind
  intro result _
  cases result with
  | continue_ messages next => exact renews_other _ (hwrap next)
  | finished amountOut => exact hfinish amountOut

/-- A change of the close policy stores the very lease it has checked. -/
theorem renews_change (lease : LeaseDTO Currency) (change : ClosePolicyChange)
    (env : Env Currency) :
    Renews lpp env.now (Active.changeClosePolicy lease change env lpp :
      Outcome ContractError (Response Currency Data)) := by
  apply renews_bind
  intro _ _
  apply renews_bind
  intro lppLoan hlpp
  apply renews_bind
  intro ⟨dto, alarms⟩ hexec
  apply renews_checked _ lppLoan _ hlpp
  simp only [ChangeCmd.exec, bind_ok] at hexec
  obtain ⟨changed, hchanged, status, hcheck, hexec⟩ := hexec
  cases status with
  | none zone alarms' =>
    simp only [pure_ok, Prod.mk.injEq] at hexec
    obtain ⟨rfl, rfl⟩ := hexec
    obtain ⟨price, hprice⟩ := check_price _ _ _ hcheck
    have hloan : changed.loan = (env.lease lease lppLoan).loan := by
      simp only [Lease.changeClosePolicy, bind_ok, pure_ok] at hchanged
      obtain ⟨_, _, _, _, _, _, rfl⟩ := hchanged
      rfl
    have hstored := checked_stored lease changed env.now price zone alarms' hprice hcheck
    rw [hloan] at hstored
    exact hstored
  | paid => cases hexec
  | closeAsked strategy => cases hexec
  | needLiquidation liquidation => cases hexec

theorem renews_ended (state : LeaseContract.State Currency Data) (env : Env Currency)
    (call : Call Currency Data) (h : active state = false) :
    Renews lpp now (handleEnd state env call) := by
  cases call with
  | priceAlarm => exact renews_other _ h
  | platform input =>
    cases input with
    | timeAlarm => exact renews_other _ h
    | heal =>
      change Renews _ _ (drain state env)
      unfold drain
      split_ifs
      · exact renews_failing _
      · exact renews_other _ h
    | _ => exact renews_failing _
  | _ => exact renews_failing _

theorem renews_under_way (state : LeaseContract.State Currency Data)
    (handled : Input Data → Outcome ContractError (Response Currency Data))
    (call : Call Currency Data) (h : active state = false)
    (hhandled : ∀ input, Renews lpp now (handled input)) :
    Renews lpp now (handleDex state handled call) := by
  cases call with
  | priceAlarm => exact renews_other _ h
  | platform input => exact hhandled input
  | _ => exact renews_failing _

section Handlers

variable [DecidableEq Currency]

theorem renews_start (spec : SellAsset Currency) (currRequest : List (Message Currency))
    (env : Env Currency) :
    Renews lpp now (SellAsset.start spec currRequest env :
      Outcome ContractError (Response Currency Data)) := by
  apply renews_bind
  intro swap _
  exact renews_other _ rfl

theorem renews_liquidation (lease : LeaseDTO Currency) (liquidation : Liquidation)
    (currRequest : List (Message Currency)) (env : Env Currency) :
    Renews lpp now (startLiquidation lease liquidation currRequest env :
      Outcome ContractError (Response Currency Data)) := by
  cases liquidation with
  | partial_ amount cause => exact renews_start _ _ _
  | full cause => exact renews_start _ _ _

theorem renews_repay (repayFn : RepayFn) (lease : LeaseDTO Currency) (amount : ℕ)
    (env : Env Currency) :
    Renews lpp env.now (tryRepay repayFn lease amount env lpp :
      Outcome ContractError (Response Currency Data)) := by
  apply renews_bind
  intro lppLoan hlpp
  apply renews_bind
  intro result hresult
  split
  · exact renews_other _ rfl
  · rename_i zone alarms hstatus
    obtain ⟨after, hpool, hchecked⟩ := exec_checked _ _ _ _ _ _ _ _ _ hresult hstatus
    intro response lease' hx hnext
    rw [pure_ok] at hx
    subst hx
    cases hnext
    exact ⟨lppLoan, after, alarms, result.response, hlpp, rfl, hpool, hchecked⟩
  · exact renews_liquidation _ _ _ _
  · exact renews_unimplemented _
  · exact renews_start _ _ _

theorem renews_sold (spec : SellAsset Currency) (amountOut : SwapTasks.CoinDTO Currency)
    (env : Env Currency) :
    Renews lpp env.now (spec.finish amountOut env lpp :
      Outcome ContractError (Response Currency Data)) := by
  unfold SellAsset.finish
  split
  · exact renews_repay _ _ _ _
  · exact renews_close _ _ _ _ _ rfl
  · exact renews_repay _ _ _ _
  · exact renews_close _ _ _ _ _ rfl

theorem renews_bought (spec : BuyAsset Currency) (amountOut : SwapTasks.CoinDTO Currency)
    (env : Env Currency) :
    Renews lpp env.now (spec.finish amountOut env lpp :
      Outcome ContractError (Response Currency Data)) := by
  apply renews_bind
  intro lppLoan hlpp
  apply renews_bind
  intro status hstatus
  split
  · exact renews_unimplemented _
  · exact renews_checked _ _ _ hlpp (checked_as_stored _ _ _ _ _ hstatus)
  · exact renews_liquidation _ _ _ _
  · exact renews_unimplemented _

theorem renews_alarm (lease : LeaseDTO Currency) (env : Env Currency) :
    Renews lpp env.now (Active.tryOnAlarm lease env lpp :
      Outcome ContractError (Response Currency Data)) := by
  apply renews_bind
  intro lppLoan hlpp
  apply renews_bind
  intro status hstatus
  split
  · exact renews_unimplemented _
  · exact renews_checked _ _ _ hlpp (checked_as_stored _ _ _ _ _ hstatus)
  · exact renews_liquidation _ _ _ _
  · exact renews_start _ _ _

theorem renews_active (lease : LeaseDTO Currency) (env : Env Currency)
    (call : Call Currency Data) : Renews lpp env.now (Active.handle lease env lpp call) := by
  cases call with
  | loanOpened principal => exact renews_failing _
  | repay funds =>
    change Renews _ _ (Active.tryRepay lease funds env lpp)
    unfold Active.tryRepay
    split
    · exact renews_repay _ _ _ _
    · apply renews_bind
      intro _ _
      apply renews_bind
      intro payment _
      apply renews_bind
      intro price _
      apply renews_bind
      intro _ _
      exact renews_dex _ _ _ (fun _ => rfl) (fun _ => renews_failing _)
  | changeClosePolicy change => exact renews_change _ _ _
  | closePosition spec =>
    apply renews_bind
    intro _ _
    cases spec with
    | partialClose amount =>
      apply renews_bind
      intro _ _
      apply renews_bind
      intro _ _
      exact renews_start _ _ _
    | fullClose => exact renews_start _ _ _
  | close => exact renews_failing _
  | priceAlarm =>
    apply renews_bind
    intro _ _
    exact renews_alarm _ _
  | platform input =>
    cases input with
    | timeAlarm =>
      apply renews_bind
      intro _ _
      exact renews_alarm _ _
    | heal =>
      apply renews_bind
      intro balance _
      split_ifs
      · exact renews_failing _
      · exact renews_repay _ _ _ _
    | _ => exact renews_failing _

/-- Whatever a lease contract is called with, in whatever state. -/
theorem handle_renews (client : SwapClient Data Msg) (env : Env Currency)
    (state : LeaseContract.State Currency Data) (call : Call Currency Data) :
    Renews lpp env.now (state.handle client env lpp call) := by
  cases state with
  | requestLoan form downpayment =>
    cases call with
    | loanOpened principal => exact renews_other _ rfl
    | _ => exact renews_failing _
  | buyAsset spec dex =>
    apply renews_under_way _ _ _ rfl
    intro input
    exact renews_dex _ _ _ (fun _ => rfl) (fun out => renews_bought spec out env)
  | openedActive lease => exact renews_active _ _ _
  | buyLpn spec dex =>
    apply renews_under_way _ _ _ rfl
    intro input
    exact renews_dex _ _ _ (fun _ => rfl) (fun out => renews_repay _ _ _ _)
  | sellAsset spec dex =>
    apply renews_under_way _ _ _ rfl
    intro input
    exact renews_dex _ _ _ (fun _ => rfl) (fun out => renews_sold spec out env)
  | paidActive lease =>
    cases call with
    | priceAlarm => exact renews_other _ rfl
    | close =>
      apply renews_bind
      intro _ _
      exact renews_dex _ _ _ (fun _ => rfl) (fun _ => renews_failing _)
    | platform input =>
      cases input with
      | timeAlarm => exact renews_other _ rfl
      | _ => exact renews_failing _
    | _ => exact renews_failing _
  | closingTransferIn lease dex =>
    apply renews_under_way _ _ _ rfl
    intro input
    apply renews_dex _ _ _ (fun _ => rfl)
    intro out
    apply renews_bind
    intro surplus _
    exact renews_other _ rfl
  | closed => exact renews_ended _ _ _ rfl
  | liquidated => exact renews_ended _ _ _ rfl

end Handlers

end Renewing

/-- A checked lease has some principal left, and its next check is due in time. -/
theorem checked_due (lease : LeaseDTO Currency) (loan : LppLoan.Loan) (time : ℕ)
    (alarms : Alarms) (h : CheckedAt lease loan time alarms) :
    0 < loan.principalDue ∧
      alarms.time ≤ time + lease.position.spec.liability.recalcTime := by
  obtain ⟨price, zone, h⟩ := h
  simp only [check, Lease.checkClosePolicy, bind_ok] at h
  obtain ⟨status, ⟨state, hstate, _, _, hstatus⟩, halarms⟩ := h
  obtain ⟨hle, -⟩ := state_time _ _ _ hstate
  have hvalue := evaluates_ok _ _ _ (LeaseSplit.state_evaluates _ time hle) hstate
  subst hvalue
  cases status with
  | none zone' steadiness =>
    simp only [CloseStatusDTO.tryFromDo, Steadiness.tryIntoAlarms, bind_ok, pure_ok,
      nativeAdd_ok, CloseStatusDTO.none.injEq] at halarms
    obtain ⟨_, ⟨_, ⟨-, rfl⟩, rfl⟩, rfl, rfl⟩ := halarms
    simp only [Position.status, bind_ok] at hstatus
    obtain ⟨strategy, -, hstatus⟩ := hstatus
    cases strategy with
    | some strategy => cases hstatus
    | none =>
      simp only [bind_ok, pure_ok] at hstatus
      obtain ⟨debt, hdebt, hstatus⟩ := hstatus
      cases debt with
      | ok zone'' steadiness' =>
        cases hstatus
        obtain ⟨totalDue, _, _, _, hdue, hpos, -, -, -, -, -, hrecalc⟩ :=
          debt_ok _ _ _ _ _ _ hdebt
        constructor
        · by_contra hnone
          have hno := no_principal_no_dues (lease.withDeps loan (.ok price)).loan time
            (Nat.eq_zero_of_not_pos hnone)
          rw [totalDue_ok _ _ hdue] at hpos
          omega
        · exact Nat.add_le_add_left hrecalc _
      | no => cases hstatus
      | bad liquidation => cases hstatus
  | paid => cases halarms
  | closeAsked strategy => cases halarms
  | needLiquidation liquidation => cases halarms

theorem executeAll_append (w : World Currency Data)
    (messages rest : List (LeaseContract.Message Currency)) :
    w.executeAll (messages ++ rest) = (w.executeAll messages).bind fun w => w.executeAll rest := by
  induction messages generalizing w with
  | nil => rfl
  | cons message messages ih => simp [World.executeAll, ih, Option.bind_assoc]

theorem profit_executed (w : World Currency Data) (amount : ℕ) :
    w.executeAll (sent amount (.sendProfit amount)) = some w := by
  unfold sent
  split_ifs
  · rfl
  · rfl

theorem repay_executed (w w' : World Currency Data) (repaid : RepayMessages)
    (before after : LppLoan.Loan) (hpool : w.pool = some before)
    (hrepaid : PoolRepaid before w.now repaid.lppRepay after) (hdue : 0 < after.principalDue)
    (h : w.executeAll (repayMessages repaid) = some w') : w' = { w with pool := some after } := by
  simp only [repayMessages, executeAll_append, Option.bind_eq_some_iff, profit_executed,
    Option.some.injEq] at h
  obtain ⟨_, h, rfl⟩ := h
  cases hamount : repaid.lppRepay with
  | none =>
    rw [hamount] at h hrepaid
    cases h
    rw [show after = before from hrepaid, ← hpool]
  | some amount =>
    rw [hamount] at h hrepaid
    obtain ⟨shares, hrepaid⟩ := hrepaid
    simp only [lppMessages, World.executeAll, World.execute, World.repayLoan, hpool, hrepaid,
      if_neg (Nat.ne_of_gt hdue), Option.bind_some, Option.some.injEq] at h
    exact h.symm

theorem check_executed (w w' : World Currency Data) (alarms : Alarms) (repaid : RepayMessages)
    (before after : LppLoan.Loan) (hpool : w.pool = some before)
    (hrepaid : PoolRepaid before w.now repaid.lppRepay after) (hdue : 0 < after.principalDue)
    (h : w.executeAll (alarmMessages alarms ++ repayMessages repaid) = some w') :
    w' = { w with timeAlarm := some (asSeconds alarms.time), priceAlarm := some alarms.price
                  pool := some after } := by
  rw [executeAll_append, Option.bind_eq_some_iff] at h
  obtain ⟨w₁, halarms, h⟩ := h
  simp only [alarmMessages, World.executeAll, World.execute, World.addTimeAlarm] at halarms
  split_ifs at halarms with hpast
  · cases halarms
  · cases halarms
    exact repay_executed
      { w with timeAlarm := some (asSeconds alarms.time), priceAlarm := some alarms.price }
      w' repaid before after hpool hrepaid hdue h

theorem settle_watched (w w' : World Currency Data) (response : Response Currency Data)
    (hrenews : Renews w.lpp w.now (pure response : Outcome ContractError _))
    (h : w.settle response = some w') : Watched w' := by
  intro lease hactive
  simp only [World.settle, Option.map_eq_some_iff] at h
  obtain ⟨w₁, hexecuted, rfl⟩ := h
  obtain ⟨before, after, alarms, repaid, hlpp, hmessages, hrepaid, hchecked⟩ :=
    hrenews response lease rfl hactive
  have hpool : w.pool = some before := (okOr_ok _ _ _).1 hlpp
  obtain ⟨hdue, hrecalc⟩ := checked_due _ _ _ _ hchecked
  rw [hmessages] at hexecuted
  have hw := check_executed w w₁ alarms repaid before after hpool hrepaid hdue hexecuted
  subst hw
  have hisActive : active response.next = true := by
    change response.next = _ at hactive
    rw [hactive]
    rfl
  simp only [hisActive, if_true]
  refine ⟨after, alarms, asSeconds alarms.time, rfl, hchecked, rfl, rfl, ?_⟩
  have hseconds : asSeconds alarms.time * nanosInSecond ≤ alarms.time := Nat.div_mul_le_self _ _
  exact (hseconds.trans hrecalc).trans (le_max_left _ _)

theorem rearmed_watched (w : World Currency Data) (h : Watched w) : Watched w.rearmed := by
  intro lease hactive
  obtain ⟨loan, alarms, time, hpool, hchecked, hprice, -, -⟩ := h lease hactive
  refine ⟨loan, alarms, _, hpool, hchecked, hprice, rfl, ?_⟩
  have hseconds : asSeconds w.now * nanosInSecond ≤ w.now := Nat.div_mul_le_self _ _
  have hearlier : (asSeconds w.now - 1) * nanosInSecond ≤ asSeconds w.now * nanosInSecond :=
    Nat.mul_le_mul_right _ (Nat.sub_le _ _)
  exact (hearlier.trans hseconds).trans (le_max_right _ _)

theorem delivery_watched (refused : Bool) (x : Option (World Currency Data))
    (w : World Currency Data) (hx : ∀ w', x = some w' → Watched w') (h : Watched w) :
    Watched ((unlessRefused refused x).getD w) := by
  cases hr : unlessRefused refused x with
  | none => exact h
  | some w' =>
    apply hx
    cases refused with
    | true => cases hr
    | false => exact hr

section Runs

variable [DecidableEq Currency]

theorem call_watched (client : SwapClient Data Msg) (w w' : World Currency Data)
    (env : Env Currency) (call : Call Currency Data) (hnow : env.now = w.now)
    (h : w.call client env call = some w') : Watched w' := by
  unfold World.call at h
  split at h
  · rename_i response hhandled
    apply settle_watched w w' response _ h
    have hrenews : Renews w.lpp env.now (w.state.handle client env w.lpp call) :=
      handle_renews client env w.state call
    rw [hhandled, hnow] at hrenews
    exact hrenews
  · cases h

theorem happens_watched (client : SwapClient Data Msg) (w w' : World Currency Data)
    (event : Event Currency Data) (hnow : event.now = w.now) (hw : Watched w)
    (h : w.happens client event = some w') : Watched w' := by
  cases event with
  | loanOpened env loan =>
    simp only [World.happens] at h
    split at h
    · exact call_watched client { w with pool := some loan } w' env _ hnow h
    · cases h
      exact hw
  | call env call =>
    cases h
    exact delivery_watched false _ w (fun w' => call_watched client w w' env call hnow) hw
  | timeAlarm env refused =>
    simp only [World.happens] at h
    split_ifs at h
    cases h
    exact delivery_watched refused _ _
      (fun w' => call_watched client { w with timeAlarm := none } w' env _ hnow)
      (rearmed_watched w hw)
  | priceAlarm env refused =>
    simp only [World.happens] at h
    split at h
    · cases h
    · cases h
      exact delivery_watched refused _ _
        (fun w' => call_watched client { w with priceAlarm := none } w' env _ hnow) hw
  | refused now =>
    cases h
    exact hw

theorem step_watched (client : SwapClient Data Msg) (w w' : World Currency Data)
    (event : Event Currency Data) (h : Step client w event w') (hw : Watched w) : Watched w' := by
  unfold Step World.step at h
  split_ifs at h
  exact happens_watched client { w with now := event.now } w' event rfl hw h

/-- No open lease is left unwatched, in any run of a lease contract from its opening. -/
theorem no_lease_unwatched (client : SwapClient Data Msg) (w : World Currency Data)
    (h : Reachable (Step client) Opening w) : Watched w := by
  refine reachable_induction Opening Watched ?_ (fun w event w' => step_watched client w w' event)
    w h
  rintro w ⟨⟨form, downpayment, hstate⟩, -⟩ lease hactive
  rw [hstate] at hactive
  cases hactive

end Runs

def sampleClient : SwapClient (List ℕ) ℕ where
  decodeMsgResponses := some
  parseResponse
    | [] => none
    | amount :: rest => some (amount, rest)

def openingSpec : Spec where
  liability := sampleSpec.liability
  close := ⟨none, none⟩
  minAsset := 100
  minTransaction := 10
  minAsset_pos := sampleSpec.minAsset_pos
  minTransaction_pos := sampleSpec.minTransaction_pos
  close_accepted := no_close_accepted

def sampleForm : NewLeaseForm ℕ where
  customer := 1
  timeAlarms := 2
  oracle := 3
  currency := 1
  lpn := 0
  positionSpec := openingSpec
  annualMarginInterest := 50
  duePeriod := year / 2

def sampleEnv (now : ℕ) : Env ℕ where
  dex := ⟨now, fun _ => some 0, fun _ => none, fun _ => true⟩
  sender := 2
  price := fun _ => .ok ⟨1, 1⟩
  paymentCurrency := fun _ => true
  balances := []

def samplePoolLoan : LppLoan.Loan := ⟨600, 100, 0⟩

def sampleOpening : World ℕ (List ℕ) :=
  ⟨.requestLoan sampleForm ⟨0, 400⟩, 0, none, none, none, 0, 0⟩

def sampleCall (input : Input (List ℕ)) : Event ℕ (List ℕ) := .call (sampleEnv 0) (.platform input)

def sampleOpened : List (Event ℕ (List ℕ)) :=
  [.loanOpened (sampleEnv 0) samplePoolLoan, sampleCall (.openIca ""), sampleCall .innerContinue,
    sampleCall (.response []), sampleCall .inner, sampleCall (.response []), sampleCall .inner,
    sampleCall (.response [400, 600]), sampleCall .inner]

def sampleLease : LeaseDTO ℕ := (BuyAsset.lease ⟨sampleForm, ⟨0, 400⟩, ⟨0, 600⟩, 0⟩ ⟨1, 1000⟩)

def sampleActive (now time lastFailed : ℕ) : World ℕ (List ℕ) :=
  ⟨.openedActive sampleLease, now, some samplePoolLoan, some time, some ⟨⟨73, 60⟩, none⟩, 0,
    lastFailed⟩

theorem sample_begun : Opening sampleOpening := ⟨⟨_, _, rfl⟩, rfl, rfl, rfl⟩

theorem no_lease_unwatched_sample : Watched (sampleActive 0 3600 0) :=
  no_lease_unwatched sampleClient _
    ⟨_, sampleOpened, sample_begun, run_foldlM _ _ _ _ rfl⟩

/-- A time alarm delivered two hours past the check and refused is set past its time. -/
theorem refused_alarm_past_check :
    ∃ w : World ℕ (List ℕ), Reachable (Step sampleClient) Opening w ∧ ∃ lease time,
      w.state = .openedActive lease ∧ w.timeAlarm = some time ∧
        w.lastCheck + lease.position.spec.liability.recalcTime < time * nanosInSecond := by
  have hopened : sampleOpened.foldlM (World.step sampleClient) sampleOpening =
      some (sampleActive 0 3600 0) := by rfl
  have hrefused : Step sampleClient (sampleActive 0 3600 0)
      (.timeAlarm (sampleEnv (2 * hour)) true)
      (sampleActive (2 * hour) 7199 (2 * hour)) := by rfl
  exact ⟨_, ⟨_, _, sample_begun, Run.next _ _ _ _ _ (run_foldlM _ _ _ _ hopened) hrefused⟩,
    sampleLease, 7199, rfl, rfl, by decide⟩

end Nolus.LeaseWatch
