import NolusMoneyMarket.Lease.Contract

/-! # What a lease contract makes of a call

Every call a lease contract goes through with is one of a few kinds. It opens
the purchase of the asset; or it goes on with the same asset and the same debt,
and sends nothing of a payment out; or it buys the asset, repays a part of the
debt, closes the debt in full, or hands the asset over to the customer. What
comes in with the call is read off the call and the state alone. -/

set_option autoImplicit false

namespace Nolus.LeaseHandled
open Nolus.Fallible Nolus.LeasePosition Nolus.Leases Nolus.LeaseContract
open Nolus.SwapTasks hiding Env Message err

variable {Currency Data Msg S : Type}

/-- The lease of an opened contract, until the asset or the debt is gone. -/
def lease : State Currency Data → Option (LeaseDTO Currency)
  | .requestLoan _ _ => none
  | .buyAsset _ _ => none
  | .openedActive lease => some lease
  | .buyLpn spec _ => some spec.lease
  | .sellAsset spec _ => some spec.lease
  | .paidActive lease => some lease
  | .closingTransferIn lease _ => some lease
  | .closed => none
  | .liquidated => none

def asset (state : State Currency Data) : ℕ :=
  (lease state).elim 0 fun dto => dto.position.amount

/-- The states in which the contract has a loan at the pool to repay. -/
def owing : State Currency Data → Bool
  | .requestLoan _ _ => false
  | .buyAsset _ _ => true
  | .openedActive _ => true
  | .buyLpn _ _ => true
  | .sellAsset _ _ => true
  | .paidActive _ => false
  | .closingTransferIn _ _ => false
  | .closed => false
  | .liquidated => false

/-- What comes in with a call, a payment or an asset, and what of the asset is gone by it. -/
structure Taken where
  payment : ℕ
  bought : ℕ
  released : ℕ
deriving DecidableEq, Repr

def nothing : Taken := ⟨0, 0, 0⟩

def whenFinished (handled : Outcome DexError (HandlerResult Currency S))
    (taken : CoinDTO Currency → Taken) : Taken :=
  match handled with
  | .ok (.finished amountOut) => taken amountOut
  | _ => nothing

def payment (amount : ℕ) : Taken := ⟨amount, 0, 0⟩

def takenActive [DecidableEq Currency] (env : Env Currency) (lease : LeaseDTO Currency) :
    Call Currency Data → Taken
  | .repay funds =>
    payment (((funds.find? fun coin => coin.currency = lease.lpn).map (·.amount)).getD 0)
  | .platform .heal => payment ((env.dex.balance lease.lpn).getD 0)
  | _ => nothing

def whenDelivered (handled : Input Data → Outcome DexError (HandlerResult Currency S))
    (taken : CoinDTO Currency → Taken) : Call Currency Data → Taken
  | .platform input => whenFinished (handled input) taken
  | _ => nothing

def taken [DecidableEq Currency] (client : SwapClient Data Msg) (env : Env Currency)
    (self : State Currency Data) (call : Call Currency Data) : Taken :=
  match self with
  | .buyAsset _ dex =>
    whenDelivered (dex.handle client env.dex) (fun out => ⟨0, out.amount, 0⟩) call
  | .openedActive lease => takenActive env lease call
  | .buyLpn _ dex => whenDelivered (dex.handle client env.dex) (fun out => payment out.amount) call
  | .sellAsset spec dex =>
    whenDelivered (dex.handle client env.dex) (fun out => ⟨out.amount, 0, spec.amount⟩) call
  | .closingTransferIn lease dex =>
    whenDelivered (dex.handle client env.dex) (fun _ => ⟨0, 0, lease.position.amount⟩) call
  | _ => nothing

inductive Account
  | pool
  | profit
  | customer
  | reserve
deriving DecidableEq, Repr

def passedOn : Message Currency → Option (Account × ℕ)
  | .repayLoan amount => some (.pool, amount)
  | .sendProfit amount => some (.profit, amount)
  | .sendChange _ amount => some (.customer, amount)
  | .coverLosses amount => some (.reserve, amount)
  | _ => none

def Quiet (messages : List (Message Currency)) : Prop := ∀ m ∈ messages, passedOn m = none

/-- What follows a payment that has gone through. A close the policy asks for drops all that the
payment has led to. -/
inductive Past (result : RepayLeaseResult Currency) : Response Currency Data → Prop
  | paid (h : result.closeStatus = .paid) :
      Past result ⟨repayMessages result.response, .paidActive result.lease⟩
  | due (zone : LeaseLiability.Zone) (alarms : Alarms)
      (h : result.closeStatus = .none zone alarms) :
      Past result ⟨alarmMessages alarms ++ repayMessages result.response,
        .openedActive result.lease⟩
  | liquidation (liquidation : Liquidation) (repayable : Repayable)
      (swap : List (Message Currency)) (dex : OutLocal.State Data _)
      (h : result.closeStatus = .needLiquidation liquidation) (hne : repayable ≠ .fullClose)
      (hquiet : Quiet swap) :
      Past result ⟨repayMessages result.response ++ swap, .sellAsset ⟨result.lease, repayable⟩ dex⟩
  | closeAsked (strategy : Strategy) (swap : List (Message Currency))
      (dex : OutLocal.State Data _) (h : result.closeStatus = .closeAsked strategy)
      (hquiet : Quiet swap) :
      Past result ⟨swap, .sellAsset ⟨result.lease, .fullClose⟩ dex⟩

inductive Handled (lpp : LppQuery) (env : Env Currency) (self : State Currency Data)
    (call : Call Currency Data) : Taken → Response Currency Data → Prop
  | requested (form : NewLeaseForm Currency) (downpayment principal : CoinDTO Currency)
      (spec : BuyAsset Currency) (dex : OutRemote.State Data spec.task)
      (messages : List (Message Currency)) (hself : self = .requestLoan form downpayment)
      (hcall : call = .loanOpened principal) (hquiet : Quiet messages) :
      Handled lpp env self call nothing ⟨messages, .buyAsset spec dex⟩
  | goesOn (messages : List (Message Currency)) (next : State Currency Data)
      (hcall : ∀ principal, call ≠ .loanOpened principal) (hquiet : Quiet messages)
      (hasset : asset next = asset self) (howing : owing next = owing self) :
      Handled lpp env self call nothing ⟨messages, next⟩
  | bought (spec : BuyAsset Currency) (dex : OutRemote.State Data spec.task) (amount : ℕ)
      (messages : List (Message Currency)) (next : State Currency Data)
      (hself : self = .buyAsset spec dex) (hcall : ∀ principal, call ≠ .loanOpened principal)
      (hquiet : Quiet messages) (hasset : asset next = amount) (howing : owing next = true) :
      Handled lpp env self call ⟨0, amount, 0⟩ ⟨messages, next⟩
  | repaid (dto : LeaseDTO Currency) (repayFn : RepayFn) (amount : ℕ) (lppLoan : LppLoan.Loan)
      (result : RepayLeaseResult Currency) (response : Response Currency Data)
      (hself : lease self = some dto) (howing : owing self = true)
      (hcall : ∀ principal, call ≠ .loanOpened principal) (hlpp : lpp = .ok lppLoan)
      (hexec : Repay.exec repayFn dto (env.lease dto lppLoan) amount env.now = .ok result)
      (hpast : Past result response) :
      Handled lpp env self call ⟨amount, 0, repayFn.asset⟩ response
  | closed (dto : LeaseDTO Currency) (recipient : Option Addr) (amount : ℕ)
      (lppLoan : LppLoan.Loan) (receipt : FullRepayReceipt) (next : State Currency Data)
      (hself : lease self = some dto) (howing : owing self = true)
      (hcall : ∀ principal, call ≠ .loanOpened principal) (hlpp : lpp = .ok lppLoan)
      (hclose : (env.lease dto lppLoan).closeFull amount env.now = .ok receipt)
      (hnext : next = .closed ∨ next = .liquidated) :
      Handled lpp env self call ⟨amount, 0, dto.position.amount⟩
        ⟨closeMessages receipt recipient ++ [.finalize dto.customer], next⟩
  | handedOver (dto : LeaseDTO Currency) (messages : List (Message Currency))
      (hself : lease self = some dto) (howing : owing self = false)
      (hcall : ∀ principal, call ≠ .loanOpened principal) (hquiet : Quiet messages) :
      Handled lpp env self call ⟨0, 0, dto.position.amount⟩ ⟨messages, .closed⟩

theorem quiet_dex (messages : List (SwapTasks.Message Currency)) :
    Quiet (messages.map .dex) := by
  intro m hm
  obtain ⟨message, -, rfl⟩ := List.mem_map.1 hm
  rfl

theorem quiet_alarms (alarms : Alarms) :
    Quiet (alarmMessages alarms : List (Message Currency)) := by
  intro m hm
  simp only [alarmMessages, List.mem_cons, List.not_mem_nil, or_false] at hm
  rcases hm with rfl | rfl
  · rfl
  · rfl

theorem quiet_sends (messages : List (Message Currency))
    (h : ∀ m ∈ messages, (∃ recipient coin, m = .send recipient coin) ∨
      ∃ customer, m = .finalize customer) : Quiet messages := by
  intro m hm
  rcases h m hm with ⟨_, _, rfl⟩ | ⟨_, rfl⟩
  · rfl
  · rfl

theorem quiet_nil : Quiet ([] : List (Message Currency)) := by
  intro m hm
  cases hm

def Yields (lpp : LppQuery) (env : Env Currency) (self : State Currency Data)
    (call : Call Currency Data) (taken : Taken)
    (x : Outcome ContractError (Response Currency Data)) : Prop :=
  ∀ response, x = .ok response → Handled lpp env self call taken response

section Yielding

variable {lpp : LppQuery} {env : Env Currency} {self : State Currency Data}
variable {call : Call Currency Data} {took : Taken}

theorem yields_bind {α : Type} (x : Outcome ContractError α)
    (f : α → Outcome ContractError (Response Currency Data))
    (h : ∀ a, x = .ok a → Yields lpp env self call took (f a)) :
    Yields lpp env self call took (x >>= f) :=
  returnsIn_bind _ x f h

theorem yields_failing (reason : ContractError) :
    Yields lpp env self call took
      (failing reason : Outcome ContractError (Response Currency Data)) :=
  returnsIn_failing _ reason

theorem yields_unimplemented (message : String) :
    Yields lpp env self call took
      (unimplemented message : Outcome ContractError (Response Currency Data)) :=
  returnsIn_panicking _ _

theorem yields_pure (response : Response Currency Data)
    (h : Handled lpp env self call took response) :
    Yields lpp env self call took (pure response) :=
  returnsIn_pure _ response h

theorem yields_same (messages : List (Message Currency)) (next : State Currency Data)
    (hcall : ∀ principal, call ≠ .loanOpened principal) (hquiet : Quiet messages)
    (hasset : asset next = asset self) (howing : owing next = owing self) :
    Yields lpp env self call nothing (pure ⟨messages, next⟩) :=
  yields_pure _ (.goesOn _ _ hcall hquiet hasset howing)

theorem yields_dex (wrap : S → State Currency Data)
    (finish : CoinDTO Currency → Outcome ContractError (Response Currency Data))
    (handled : Outcome DexError (HandlerResult Currency S)) (taken : CoinDTO Currency → Taken)
    (hcall : ∀ principal, call ≠ .loanOpened principal)
    (hasset : ∀ s, asset (wrap s) = asset self) (howing : ∀ s, owing (wrap s) = owing self)
    (hfinish : ∀ out, Yields lpp env self call (taken out) (finish out)) :
    Yields lpp env self call (whenFinished handled taken) (ofDex wrap finish handled) := by
  apply yields_bind
  intro result hresult
  rw [(mapError_ok _ _ _).1 hresult]
  cases result with
  | continue_ messages next =>
    exact yields_same _ _ hcall (quiet_dex _) (hasset next) (howing next)
  | finished amountOut => exact hfinish amountOut

theorem yields_close (dto : LeaseDTO Currency) (recipient : Option Addr)
    (next : State Currency Data) (amount : ℕ) (hself : lease self = some dto)
    (howing : owing self = true) (hcall : ∀ principal, call ≠ .loanOpened principal)
    (hnext : next = .closed ∨ next = .liquidated) :
    Yields lpp env self call ⟨amount, 0, dto.position.amount⟩
      (tryClose dto recipient next amount env lpp) := by
  apply yields_bind
  intro lppLoan hlpp
  apply yields_bind
  intro receipt hclose
  exact yields_pure _
    (.closed dto recipient amount lppLoan receipt next hself howing hcall hlpp hclose hnext)

theorem changed_amount (lease changed : Lease) (change : ClosePolicyChange) (now : ℕ)
    (h : lease.changeClosePolicy change now = .ok changed) :
    changed.position.amount = lease.position.amount ∧ changed.loan = lease.loan := by
  simp only [Lease.changeClosePolicy, Position.changeClosePolicy, bind_ok, mapError_ok,
    pure_ok] at h
  obtain ⟨_, -, _, -, _, ⟨_, -, rfl⟩, rfl⟩ := h
  exact ⟨rfl, rfl⟩

/-- A change of the close policy keeps the asset of the position. -/
theorem yields_change (dto : LeaseDTO Currency) (change : ClosePolicyChange)
    (hself : self = .openedActive dto) (hcall : ∀ principal, call ≠ .loanOpened principal) :
    Yields lpp env self call nothing (Active.changeClosePolicy dto change env lpp) := by
  subst hself
  apply yields_bind
  intro _ _
  apply yields_bind
  intro lppLoan _
  apply yields_bind
  intro updated hexec
  refine yields_same _ _ hcall (quiet_alarms _) ?_ rfl
  simp only [ChangeCmd.exec, bind_ok] at hexec
  obtain ⟨changed, hchanged, status, -, hexec⟩ := hexec
  cases status with
  | none zone alarms =>
    rw [pure_ok] at hexec
    subst hexec
    exact (changed_amount _ _ _ _ hchanged).1
  | paid => cases hexec
  | closeAsked strategy => cases hexec
  | needLiquidation liquidation => cases hexec

theorem yields_handed_over (dto : LeaseDTO Currency)
    (dex : OutLocal.State Data (transferIn dto))
    (hcall : ∀ principal, call ≠ .loanOpened principal) :
    Yields lpp env (.closingTransferIn dto dex) call ⟨0, 0, dto.position.amount⟩
      (finishTransferIn dto env) := by
  apply yields_bind
  intro surplus _
  refine yields_pure _ (.handedOver dto _ rfl rfl hcall (quiet_sends _ ?_))
  intro m hm
  simp only [sent, List.mem_append, List.mem_cons, List.not_mem_nil, or_false] at hm
  rcases hm with hm | rfl | rfl
  · split_ifs at hm
    · cases hm
    · exact .inl ⟨_, _, List.mem_singleton.1 hm⟩
  · exact .inl ⟨_, _, rfl⟩
  · exact .inr ⟨_, rfl⟩

/-- At the end there is no asset and no debt left to change. -/
theorem yields_end (self : State Currency Data) (call : Call Currency Data) :
    Yields lpp env self call nothing (handleEnd self env call) := by
  cases call with
  | priceAlarm => exact yields_same _ _ (by simp) quiet_nil rfl rfl
  | platform input =>
    cases input with
    | timeAlarm => exact yields_same _ _ (by simp) quiet_nil rfl rfl
    | heal =>
      change Yields _ _ _ _ _ (drain self env)
      unfold drain
      split_ifs
      · exact yields_failing _
      · refine yields_same _ _ (by simp) (quiet_sends _ ?_) rfl rfl
        intro m hm
        obtain ⟨coin, -, rfl⟩ := List.mem_map.1 hm
        exact .inl ⟨_, _, rfl⟩
    | _ => exact yields_failing _
  | _ => exact yields_failing _

theorem yields_paid (dto : LeaseDTO Currency) (call : Call Currency Data) :
    Yields lpp env (.paidActive dto) call nothing (handlePaid dto env call) := by
  cases call with
  | priceAlarm => exact yields_same _ _ (by simp) quiet_nil rfl rfl
  | close =>
    apply yields_bind
    intro _ _ response h
    simp only [ofDex, bind_ok] at h
    obtain ⟨result, -, h⟩ := h
    cases result with
    | continue_ messages next =>
      rw [← (pure_ok _ _).1 h]
      exact .goesOn _ _ (by simp) (quiet_dex _) rfl rfl
    | finished amountOut => cases h
  | platform input =>
    cases input with
    | timeAlarm => exact yields_same _ _ (by simp) quiet_nil rfl rfl
    | _ => exact yields_failing _
  | _ => exact yields_failing _

theorem yields_under_way (handled : Input Data → Outcome DexError (HandlerResult Currency S))
    (wrap : S → State Currency Data)
    (finish : CoinDTO Currency → Outcome ContractError (Response Currency Data))
    (taken : CoinDTO Currency → Taken) (call : Call Currency Data)
    (hasset : ∀ s, asset (wrap s) = asset self) (howing : ∀ s, owing (wrap s) = owing self)
    (hfinish : (∀ principal, call ≠ .loanOpened principal) →
      ∀ out, Yields lpp env self call (taken out) (finish out)) :
    Yields lpp env self call (whenDelivered handled taken call)
      (handleDex self (fun input => ofDex wrap finish (handled input)) call) := by
  cases call with
  | priceAlarm => exact yields_same _ _ (by simp) quiet_nil rfl rfl
  | platform input =>
    exact yields_dex wrap finish (handled input) taken (by simp) hasset howing
      (hfinish (by simp))
  | _ => exact yields_failing _

section Handlers

variable [DecidableEq Currency]

theorem start_ok (spec : SellAsset Currency) (currRequest : List (Message Currency))
    (env : Env Currency) (response : Response Currency Data)
    (h : SellAsset.start spec currRequest env = .ok response) :
    ∃ swap dex, Quiet swap ∧ response = ⟨currRequest ++ swap, .sellAsset spec dex⟩ := by
  simp only [SellAsset.start, bind_ok, pure_ok] at h
  obtain ⟨swap, -, rfl⟩ := h
  exact ⟨_, _, quiet_dex swap, rfl⟩

theorem liquidation_ok (lease : LeaseDTO Currency) (liquidation : Liquidation)
    (currRequest : List (Message Currency)) (env : Env Currency) (response : Response Currency Data)
    (h : startLiquidation lease liquidation currRequest env = .ok response) :
    ∃ repayable swap dex, repayable ≠ .fullClose ∧ Quiet swap ∧
      response = ⟨currRequest ++ swap, .sellAsset ⟨lease, repayable⟩ dex⟩ := by
  cases liquidation with
  | partial_ amount cause =>
    obtain ⟨swap, dex, hquiet, rfl⟩ := start_ok _ _ _ _ h
    exact ⟨_, swap, dex, by simp, hquiet, rfl⟩
  | full cause =>
    obtain ⟨swap, dex, hquiet, rfl⟩ := start_ok _ _ _ _ h
    exact ⟨_, swap, dex, by simp, hquiet, rfl⟩

theorem yields_start (spec : SellAsset Currency) (env : Env Currency)
    (hcall : ∀ principal, call ≠ .loanOpened principal)
    (hasset : spec.lease.position.amount = asset self) (howing : owing self = true) :
    Yields lpp env self call nothing (SellAsset.start spec [] env) := by
  intro response h
  obtain ⟨swap, dex, hquiet, rfl⟩ := start_ok _ _ _ _ h
  exact .goesOn _ _ hcall hquiet hasset howing.symm

theorem yields_liquidation (dto : LeaseDTO Currency) (liquidation : Liquidation)
    (env : Env Currency) (hcall : ∀ principal, call ≠ .loanOpened principal)
    (hasset : dto.position.amount = asset self) (howing : owing self = true) :
    Yields lpp env self call nothing (startLiquidation dto liquidation [] env) := by
  intro response h
  obtain ⟨repayable, swap, dex, -, hquiet, rfl⟩ := liquidation_ok _ _ _ _ _ h
  exact .goesOn _ _ hcall hquiet hasset howing.symm

theorem yields_repay (repayFn : RepayFn) (dto : LeaseDTO Currency) (amount : ℕ)
    (hself : lease self = some dto) (howing : owing self = true)
    (hcall : ∀ principal, call ≠ .loanOpened principal) :
    Yields lpp env self call ⟨amount, 0, repayFn.asset⟩ (tryRepay repayFn dto amount env lpp) := by
  apply yields_bind
  intro lppLoan hlpp
  apply yields_bind
  intro result hexec response h
  refine .repaid dto repayFn amount lppLoan result response hself howing hcall hlpp hexec ?_
  split at h
  · rename_i hstatus
    rw [← (pure_ok _ _).1 h]
    exact .paid hstatus
  · rename_i zone alarms hstatus
    rw [← (pure_ok _ _).1 h]
    exact .due zone alarms hstatus
  · rename_i liquidation hstatus
    obtain ⟨repayable, swap, dex, hne, hquiet, rfl⟩ := liquidation_ok _ _ _ _ _ h
    exact .liquidation liquidation repayable swap dex hstatus hne hquiet
  · cases h
  · rename_i strategy _ hstatus
    obtain ⟨swap, dex, hquiet, rfl⟩ := start_ok _ _ _ _ h
    exact .closeAsked _ swap dex hstatus hquiet

theorem yields_bought (spec : BuyAsset Currency) (dex : OutRemote.State Data spec.task)
    (out : CoinDTO Currency) (hself : self = .buyAsset spec dex)
    (hcall : ∀ principal, call ≠ .loanOpened principal) :
    Yields lpp env self call ⟨0, out.amount, 0⟩ (spec.finish out env lpp) := by
  apply yields_bind
  intro lppLoan _
  apply yields_bind
  intro status _
  split
  · exact yields_unimplemented _
  · exact yields_pure _ (.bought spec dex _ _ _ hself hcall (quiet_alarms _) rfl rfl)
  · intro response h
    obtain ⟨repayable, swap, sale, -, hquiet, rfl⟩ := liquidation_ok _ _ _ _ _ h
    exact .bought spec dex _ _ _ hself hcall hquiet rfl rfl
  · exact yields_unimplemented _

theorem yields_alarm (dto : LeaseDTO Currency) (hself : self = .openedActive dto)
    (hcall : ∀ principal, call ≠ .loanOpened principal) :
    Yields lpp env self call nothing (Active.tryOnAlarm dto env lpp) := by
  subst hself
  apply yields_bind
  intro lppLoan _
  apply yields_bind
  intro status _
  split
  · exact yields_unimplemented _
  · exact yields_same _ _ hcall (quiet_alarms _) rfl rfl
  · exact yields_liquidation _ _ _ hcall rfl rfl
  · exact yields_start _ _ hcall rfl rfl

theorem yields_repayment (dto : LeaseDTO Currency) (funds : List (CoinDTO Currency)) :
    Yields lpp env (.openedActive dto) (.repay funds : Call Currency Data)
      (takenActive env dto (.repay funds : Call Currency Data))
      (Active.tryRepay dto funds env lpp) := by
  have hcall : ∀ principal, (.repay funds : Call Currency Data) ≠ .loanOpened principal := by
    simp
  change Yields _ _ _ _ (payment
    (((funds.find? fun coin => coin.currency = dto.lpn).map (·.amount)).getD 0)) _
  unfold Active.tryRepay
  cases funds.find? fun coin => coin.currency = dto.lpn with
  | some coin => exact yields_repay .repayLease dto coin.amount rfl rfl hcall
  | none =>
    apply yields_bind
    intro _ _
    apply yields_bind
    intro coin _
    apply yields_bind
    intro _ _
    apply yields_bind
    intro _ _ response h
    -- a transfer out that has just begun does not finish the swap
    simp only [ofDex, bind_ok] at h
    obtain ⟨result, -, h⟩ := h
    cases result with
    | continue_ messages next =>
      rw [← (pure_ok _ _).1 h]
      exact .goesOn _ _ hcall (quiet_dex _) rfl rfl
    | finished amountOut => cases h

theorem yields_heal (dto : LeaseDTO Currency) :
    Yields lpp env (.openedActive dto) (.platform .heal : Call Currency Data)
      (takenActive env dto (.platform .heal : Call Currency Data)) (Active.heal dto env lpp) := by
  apply yields_bind
  intro balance hbalance
  split_ifs
  · exact yields_failing _
  · rw [okOr_ok] at hbalance
    unfold takenActive
    rw [hbalance]
    exact yields_repay .repayLease dto balance rfl rfl (by simp)

theorem yields_active (dto : LeaseDTO Currency) (call : Call Currency Data) :
    Yields lpp env (.openedActive dto) call (takenActive env dto call)
      (Active.handle dto env lpp call) := by
  cases call with
  | loanOpened principal => exact yields_failing _
  | repay funds => exact yields_repayment dto funds
  | changeClosePolicy change => exact yields_change dto change rfl (by simp)
  | closePosition spec =>
    apply yields_bind
    intro _ _
    cases spec with
    | partialClose amount =>
      apply yields_bind
      intro _ _
      apply yields_bind
      intro _ _
      exact yields_start _ _ (by simp) rfl rfl
    | fullClose => exact yields_start _ _ (by simp) rfl rfl
  | close => exact yields_failing _
  | priceAlarm =>
    apply yields_bind
    intro _ _
    exact yields_alarm dto rfl (by simp)
  | platform input =>
    cases input with
    | timeAlarm =>
      apply yields_bind
      intro _ _
      exact yields_alarm dto rfl (by simp)
    | heal => exact yields_heal dto
    | _ => exact yields_failing _

theorem yields_sold (spec : SellAsset Currency) (dex : OutLocal.State Data spec.task)
    (out : CoinDTO Currency) (hcall : ∀ principal, call ≠ .loanOpened principal) :
    Yields lpp env (.sellAsset spec dex) call ⟨out.amount, 0, spec.amount⟩
      (spec.finish out env lpp) := by
  obtain ⟨dto, repayable⟩ := spec
  cases repayable with
  | partialLiquidation amount cause => exact yields_repay (.close amount) dto _ rfl rfl hcall
  | fullLiquidation cause => exact yields_close dto _ _ _ rfl rfl hcall (.inr rfl)
  | partialClose amount => exact yields_repay (.close amount) dto _ rfl rfl hcall
  | fullClose => exact yields_close dto _ _ _ rfl rfl hcall (.inl rfl)

/-- Whatever a lease contract is called with, in whatever state. -/
theorem handle_handled (client : SwapClient Data Msg) (env : Env Currency)
    (self : State Currency Data) (call : Call Currency Data) :
    Yields lpp env self call (taken client env self call) (self.handle client env lpp call) := by
  cases self with
  | requestLoan form downpayment =>
    cases call with
    | loanOpened principal =>
      exact yields_pure _ (.requested form downpayment principal _ _ _ rfl rfl
        (quiet_dex [.request .registerIca]))
    | _ => exact yields_failing _
  | buyAsset spec dex =>
    exact yields_under_way _ _ _ _ call (fun _ => rfl) (fun _ => rfl)
      (fun hcall out => yields_bought spec dex out rfl hcall)
  | openedActive dto => exact yields_active dto call
  | buyLpn spec dex =>
    exact yields_under_way _ _ _ _ call (fun _ => rfl) (fun _ => rfl)
      (fun hcall out => yields_repay .repayLease spec.lease out.amount rfl rfl hcall)
  | sellAsset spec dex =>
    exact yields_under_way _ _ _ _ call (fun _ => rfl) (fun _ => rfl)
      (fun hcall out => yields_sold spec dex out hcall)
  | paidActive dto => exact yields_paid dto call
  | closingTransferIn dto dex =>
    exact yields_under_way _ _ _ _ call (fun _ => rfl) (fun _ => rfl)
      (fun hcall _ => yields_handed_over dto dex hcall)
  | closed => exact yields_end _ _
  | liquidated => exact yields_end _ _

end Handlers

end Yielding

end Nolus.LeaseHandled
