import NolusMoneyMarket.Lease.Books
import NolusMoneyMarket.Leaser.Close

/-! # The registration of a lease

The leaser registers a lease under its customer in the transaction that opens
it. The lease tells the leaser of its end by a single message, and the leaser
takes it off. In between others are opened and finalized, and the leases are
migrated. -/

set_option autoImplicit false

namespace Nolus.LeaseRegistration
open Nolus.Fallible Nolus.Runs Nolus.LeasePosition Nolus.Leases Nolus.LeaseContract
open Nolus.LeaseWatch Nolus.LeaseBooks
open Nolus.LeaserLeases (Storage HashOrder sortedOrder leased_remove leased_save)
open Nolus.LeaserMigration (Querier ExecuteMsg ProtocolContracts)
open Nolus.LeaserClosing (ForceClose tryCloseProtocol protocolsRegistryLoad oneLease)
open Nolus.SwapTasks hiding Env Message err

variable {Currency Data Msg S : Type}

/-! ## The end of a lease -/

def customerOf : LeaseContract.State Currency Data → Option Addr
  | .requestLoan form _ => some form.customer
  | .buyAsset spec _ => some spec.form.customer
  | .openedActive lease => some lease.customer
  | .buyLpn spec _ => some spec.lease.customer
  | .sellAsset spec _ => some spec.lease.customer
  | .paidActive lease => some lease.customer
  | .closingTransferIn lease _ => some lease.customer
  | .closed => none
  | .liquidated => none

def finalizes (messages : List (LeaseContract.Message Currency)) : List Addr :=
  messages.filterMap fun
    | .finalize customer => some customer
    | _ => none

/-- A response either goes on for the same customer, or is the end and tells the leaser so. -/
def EndsOrStays (customer : Option Addr) (response : Response Currency Data) : Prop :=
  (customerOf response.next = customer ∧ finalizes response.messages = []) ∨
    ∃ c, customer = some c ∧ customerOf response.next = none ∧
      finalizes response.messages = [c]

def Yields (customer : Option Addr) : Outcome ContractError (Response Currency Data) → Prop :=
  ReturnsIn (EndsOrStays customer)

theorem finalizes_append (messages rest : List (LeaseContract.Message Currency)) :
    finalizes (messages ++ rest) = finalizes messages ++ finalizes rest :=
  List.filterMap_append

theorem finalizes_dex (messages : List (SwapTasks.Message Currency)) :
    finalizes (messages.map LeaseContract.Message.dex) = [] := by
  rw [finalizes, List.filterMap_map]
  exact List.filterMap_eq_nil_iff.2 fun _ _ => rfl

theorem finalizes_alarms (alarms : Alarms) :
    finalizes (alarmMessages alarms : List (LeaseContract.Message Currency)) = [] := rfl

theorem finalizes_sent (amount : ℕ) (message : LeaseContract.Message Currency)
    (h : finalizes [message] = []) : finalizes (sent amount message) = [] := by
  rw [sent]
  split_ifs
  · rfl
  · exact h

theorem finalizes_lpp (lppRepay : Option ℕ) :
    finalizes (lppMessages lppRepay : List (LeaseContract.Message Currency)) = [] := by
  cases lppRepay with
  | none => rfl
  | some amount => rfl

theorem finalizes_repay (messages : RepayMessages) :
    finalizes (repayMessages messages : List (LeaseContract.Message Currency)) = [] := by
  rw [repayMessages, finalizes_append, finalizes_lpp, finalizes_sent _ _ rfl]
  rfl

theorem finalizes_close (receipt : FullRepayReceipt) (recipient : Option Addr) :
    finalizes (closeMessages receipt recipient : List (LeaseContract.Message Currency)) = [] := by
  rw [closeMessages, finalizes_append, finalizes_append, finalizes_append, finalizes_lpp,
    finalizes_sent _ (.sendProfit receipt.profit) rfl,
    finalizes_sent _ (.sendChange recipient receipt.change) rfl]
  cases receipt.losses with
  | none => rfl
  | some losses => rfl

/-! ## What every call makes of it -/

section Yielding

variable {customer : Option Addr}

theorem yields_stays (messages : List (LeaseContract.Message Currency))
    (next : LeaseContract.State Currency Data) (hnext : customerOf next = customer)
    (hmessages : finalizes messages = []) : Yields customer (pure ⟨messages, next⟩) :=
  returnsIn_pure _ _ (.inl ⟨hnext, hmessages⟩)

theorem yields_dex (wrap : S → LeaseContract.State Currency Data)
    (finish : CoinDTO Currency → Outcome ContractError (Response Currency Data))
    (handled : Outcome DexError (HandlerResult Currency S))
    (hwrap : ∀ s, customerOf (wrap s) = customer) (hfinish : ∀ out, Yields customer (finish out)) :
    Yields customer (ofDex wrap finish handled) := by
  apply returnsIn_bind
  intro result _
  cases result with
  | continue_ messages next => exact yields_stays _ _ (hwrap next) (finalizes_dex messages)
  | finished amountOut => exact hfinish amountOut

theorem yields_under_way (self : LeaseContract.State Currency Data)
    (handled : Input Data → Outcome ContractError (Response Currency Data))
    (call : Call Currency Data) (hhandled : ∀ input, Yields (customerOf self) (handled input)) :
    Yields (customerOf self) (handleDex self handled call) := by
  cases call with
  | priceAlarm => exact yields_stays [] self rfl rfl
  | platform input => exact hhandled input
  | _ => exact returnsIn_failing _ _

theorem yields_over (self : LeaseContract.State Currency Data) (env : Env Currency)
    (call : Call Currency Data) : Yields (customerOf self) (handleEnd self env call) := by
  cases call with
  | priceAlarm => exact yields_stays [] self rfl rfl
  | platform input =>
    cases input with
    | timeAlarm => exact yields_stays [] self rfl rfl
    | heal =>
      change Yields _ (drain self env)
      unfold drain
      split_ifs
      · exact returnsIn_failing _ _
      · refine yields_stays _ self rfl ?_
        rw [finalizes, List.filterMap_map]
        exact List.filterMap_eq_nil_iff.2 fun _ _ => rfl
    | _ => exact returnsIn_failing _ _
  | _ => exact returnsIn_failing _ _

theorem yields_paid (dto : LeaseDTO Currency) (env : Env Currency) (call : Call Currency Data) :
    Yields (some dto.customer) (handlePaid dto env call) := by
  cases call with
  | priceAlarm => exact yields_stays _ _ rfl rfl
  | close =>
    apply returnsIn_bind
    intro _ _
    exact yields_dex _ _ _ (fun _ => rfl) fun _ => returnsIn_failing _ _
  | platform input =>
    cases input with
    | timeAlarm => exact yields_stays _ _ rfl rfl
    | _ => exact returnsIn_failing _ _
  | _ => exact returnsIn_failing _ _

theorem yields_close (dto : LeaseDTO Currency) (recipient : Option Addr)
    (outState : LeaseContract.State Currency Data) (amount : ℕ) (env : Env Currency)
    (lpp : LppQuery) (hout : customerOf outState = none) :
    Yields (some dto.customer) (tryClose dto recipient outState amount env lpp) := by
  apply returnsIn_bind
  intro lppLoan _
  apply returnsIn_bind
  intro receipt _ response h
  rw [← (pure_ok _ _).1 h]
  refine .inr ⟨dto.customer, rfl, hout, ?_⟩
  rw [finalizes_append, finalizes_close]
  rfl

theorem yields_handed_over [DecidableEq Currency] (dto : LeaseDTO Currency) (env : Env Currency) :
    Yields (some dto.customer)
      (finishTransferIn dto env : Outcome ContractError (Response Currency Data)) := by
  apply returnsIn_bind
  intro surplus _ response h
  rw [← (pure_ok _ _).1 h]
  refine .inr ⟨dto.customer, rfl, rfl, ?_⟩
  rw [finalizes_append, finalizes_sent _ _ rfl]
  rfl

theorem exec_customer (repayFn : RepayFn) (dto : LeaseDTO Currency) (lease : Lease)
    (amount now : ℕ) (result : RepayLeaseResult Currency)
    (h : Repay.exec repayFn dto lease amount now = .ok result) :
    result.lease.customer = dto.customer := by
  simp only [Repay.exec, bind_ok, pure_ok] at h
  obtain ⟨_, -, _, -, rfl⟩ := h
  rfl

theorem change_customer (change : ClosePolicyChange) (dto : LeaseDTO Currency) (lease : Lease)
    (now : ℕ) (changed : LeaseDTO Currency × Alarms)
    (h : ChangeCmd.exec change dto lease now = .ok changed) :
    changed.1.customer = dto.customer := by
  simp only [ChangeCmd.exec, bind_ok] at h
  obtain ⟨_, -, status, -, h⟩ := h
  cases status with
  | none zone alarms =>
    rw [← (pure_ok _ _).1 h]
    rfl
  | paid => cases h
  | closeAsked strategy => cases h
  | needLiquidation liquidation => cases h

variable [DecidableEq Currency]

theorem yields_start (spec : SellAsset Currency)
    (currRequest : List (LeaseContract.Message Currency)) (env : Env Currency)
    (h : finalizes currRequest = []) :
    Yields (some spec.lease.customer)
      (SellAsset.start spec currRequest env : Outcome ContractError (Response Currency Data)) := by
  apply returnsIn_bind
  intro swap _
  refine yields_stays _ _ rfl ?_
  rw [finalizes_append, h, finalizes_dex]
  rfl

theorem yields_liquidation (dto : LeaseDTO Currency) (liquidation : Liquidation)
    (currRequest : List (LeaseContract.Message Currency)) (env : Env Currency)
    (h : finalizes currRequest = []) :
    Yields (some dto.customer) (startLiquidation dto liquidation currRequest env :
      Outcome ContractError (Response Currency Data)) := by
  cases liquidation with
  | partial_ amount cause => exact yields_start ⟨dto, .partialLiquidation amount cause⟩ _ env h
  | full cause => exact yields_start ⟨dto, .fullLiquidation cause⟩ _ env h

theorem yields_repay (repayFn : RepayFn) (dto : LeaseDTO Currency) (amount : ℕ)
    (env : Env Currency) (lpp : LppQuery) :
    Yields (some dto.customer) (LeaseContract.tryRepay repayFn dto amount env lpp :
      Outcome ContractError (Response Currency Data)) := by
  apply returnsIn_bind
  intro lppLoan _ response h
  obtain ⟨result, hexec, h⟩ := (bind_ok _ _ _).1 h
  rw [← exec_customer _ _ _ _ _ _ hexec]
  split at h
  · exact yields_stays _ (.paidActive result.lease) rfl (finalizes_repay _) response h
  · refine yields_stays _ (.openedActive result.lease) rfl ?_ response h
    rw [finalizes_append, finalizes_alarms, finalizes_repay]
    rfl
  · exact yields_liquidation _ _ _ env (finalizes_repay _) response h
  · exact returnsIn_panicking _ _ response h
  · exact yields_start ⟨result.lease, .fullClose⟩ [] env rfl response h

theorem yields_alarm (dto : LeaseDTO Currency) (env : Env Currency) (lpp : LppQuery) :
    Yields (some dto.customer) (Active.tryOnAlarm dto env lpp :
      Outcome ContractError (Response Currency Data)) := by
  apply returnsIn_bind
  intro lppLoan _
  apply returnsIn_bind
  intro closeStatus _
  split
  · exact returnsIn_panicking _ _
  · exact yields_stays _ _ rfl (finalizes_alarms _)
  · exact yields_liquidation _ _ _ env rfl
  · exact yields_start ⟨dto, .fullClose⟩ [] env rfl

omit [DecidableEq Currency] in
theorem yields_change (dto : LeaseDTO Currency) (change : ClosePolicyChange)
    (env : Env Currency) (lpp : LppQuery) :
    Yields (some dto.customer) (Active.changeClosePolicy dto change env lpp :
      Outcome ContractError (Response Currency Data)) := by
  apply returnsIn_bind
  intro _ _
  apply returnsIn_bind
  intro lppLoan _ response h
  obtain ⟨changed, hexec, h⟩ := (bind_ok _ _ _).1 h
  rw [← change_customer _ _ _ _ _ hexec]
  exact yields_stays _ (.openedActive changed.1) rfl (finalizes_alarms _) response h

theorem yields_repayment (dto : LeaseDTO Currency) (funds : List (CoinDTO Currency))
    (env : Env Currency) (lpp : LppQuery) :
    Yields (some dto.customer) (Active.tryRepay dto funds env lpp :
      Outcome ContractError (Response Currency Data)) := by
  unfold Active.tryRepay
  split
  · exact yields_repay _ dto _ env lpp
  · apply returnsIn_bind
    intro _ _
    apply returnsIn_bind
    intro payment _
    apply returnsIn_bind
    intro price _
    apply returnsIn_bind
    intro _ _
    exact yields_dex _ _ _ (fun _ => rfl) fun _ => returnsIn_failing _ _

theorem yields_position_close (dto : LeaseDTO Currency) (spec : PositionClose)
    (env : Env Currency) (lpp : LppQuery) :
    Yields (some dto.customer) (Active.closePosition dto spec env lpp :
      Outcome ContractError (Response Currency Data)) := by
  apply returnsIn_bind
  intro _ _
  cases spec with
  | partialClose amount =>
    apply returnsIn_bind
    intro lppLoan _
    apply returnsIn_bind
    intro _ _
    exact yields_start ⟨dto, .partialClose amount⟩ [] env rfl
  | fullClose => exact yields_start ⟨dto, .fullClose⟩ [] env rfl

theorem yields_active (dto : LeaseDTO Currency) (env : Env Currency) (lpp : LppQuery)
    (call : Call Currency Data) :
    Yields (some dto.customer) (Active.handle dto env lpp call) := by
  cases call with
  | loanOpened principal => exact returnsIn_failing _ _
  | repay funds => exact yields_repayment dto funds env lpp
  | changeClosePolicy change => exact yields_change dto change env lpp
  | closePosition spec => exact yields_position_close dto spec env lpp
  | close => exact returnsIn_failing _ _
  | priceAlarm =>
    apply returnsIn_bind
    intro _ _
    exact yields_alarm dto env lpp
  | platform input =>
    cases input with
    | timeAlarm =>
      apply returnsIn_bind
      intro _ _
      exact yields_alarm dto env lpp
    | heal =>
      apply returnsIn_bind
      intro balance _
      split_ifs
      · exact returnsIn_failing _ _
      · exact yields_repay _ dto balance env lpp
    | _ => exact returnsIn_failing _ _

theorem yields_bought (spec : BuyAsset Currency) (out : CoinDTO Currency) (env : Env Currency)
    (lpp : LppQuery) :
    Yields (some spec.form.customer) (spec.finish out env lpp :
      Outcome ContractError (Response Currency Data)) := by
  apply returnsIn_bind
  intro lppLoan _
  apply returnsIn_bind
  intro status _
  split
  · exact returnsIn_panicking _ _
  · exact yields_stays _ (.openedActive (spec.lease out)) rfl (finalizes_alarms _)
  · exact yields_liquidation (spec.lease out) _ _ env rfl
  · exact returnsIn_panicking _ _

theorem yields_sold (spec : SellAsset Currency) (out : CoinDTO Currency) (env : Env Currency)
    (lpp : LppQuery) :
    Yields (some spec.lease.customer) (spec.finish out env lpp :
      Outcome ContractError (Response Currency Data)) := by
  obtain ⟨dto, repayable⟩ := spec
  cases repayable with
  | partialLiquidation amount cause => exact yields_repay (.close amount) dto _ env lpp
  | fullLiquidation cause => exact yields_close dto _ .liquidated _ env lpp rfl
  | partialClose amount => exact yields_repay (.close amount) dto _ env lpp
  | fullClose => exact yields_close dto _ .closed _ env lpp rfl

/-- Whatever a lease contract is called with, in whatever state. -/
theorem handle_yields (client : SwapClient Data Msg) (env : Env Currency) (lpp : LppQuery)
    (self : LeaseContract.State Currency Data) (call : Call Currency Data) :
    Yields (customerOf self) (self.handle client env lpp call) := by
  cases self with
  | requestLoan form downpayment =>
    cases call with
    | loanOpened principal => exact yields_stays _ _ rfl rfl
    | _ => exact returnsIn_failing _ _
  | buyAsset spec dex =>
    exact yields_under_way (.buyAsset spec dex) _ call fun input =>
      yields_dex _ _ _ (fun _ => rfl) fun out => yields_bought spec out env lpp
  | openedActive dto => exact yields_active dto env lpp call
  | buyLpn spec dex =>
    exact yields_under_way (.buyLpn spec dex) _ call fun input =>
      yields_dex _ _ _ (fun _ => rfl) fun out => yields_repay _ spec.lease out.amount env lpp
  | sellAsset spec dex =>
    exact yields_under_way (.sellAsset spec dex) _ call fun input =>
      yields_dex _ _ _ (fun _ => rfl) fun out => yields_sold spec out env lpp
  | paidActive dto => exact yields_paid dto env call
  | closingTransferIn dto dex =>
    exact yields_under_way (.closingTransferIn dto dex) _ call fun input =>
      yields_dex _ _ _ (fun _ => rfl) fun _ => yields_handed_over dto env
  | closed => exact yields_over _ env call
  | liquidated => exact yields_over _ env call

end Yielding

/-! ## A lease and its leaser -/

/-- The finalizations the lease has sent are kept for the statements only. -/
structure Parties (Currency Data : Type) where
  lease : World Currency Data
  leaser : Storage
  told : List Addr

def finalizeAll (querier : Querier) (order : HashOrder) (lease : Addr) (leaser : Storage) :
    List Addr → Option Storage
  | [] => some leaser
  | customer :: customers =>
    match LeaserMigration.execute querier order lease leaser (.finalizeLease customer) with
    | .ok (_, next) => finalizeAll querier order lease next customers
    | .error _ => none

inductive Event (Currency Data : Type)
  | onLease (querier : Querier) (order : HashOrder) (event : LeaseWatch.Event Currency Data)
  | onLeaser (querier : Querier) (order : HashOrder) (sender : Addr) (msg : ExecuteMsg)
  | opened (customer other : Addr)
  | closing (force : ForceClose)

section Steps

variable [DecidableEq Currency]

def toldBy (client : SwapClient Data Msg) (w : World Currency Data)
    (event : LeaseWatch.Event Currency Data) : List Addr :=
  (turn client { w with now := event.now } event).elim [] fun t => finalizes t.response.messages

/-- The chain refuses a call whose finalization the leaser refuses, as it may refuse any other. -/
inductive Step (client : SwapClient Data Msg) (lease : Addr) :
    Parties Currency Data → Event Currency Data → Parties Currency Data → Prop
  | onLease (s : Parties Currency Data) (querier : Querier) (order : HashOrder)
      (event : LeaseWatch.Event Currency Data) (w : World Currency Data) (leaser : Storage)
      (hlease : LeaseWatch.Step client s.lease event w)
      (hleaser : finalizeAll querier order lease s.leaser (toldBy client s.lease event) =
        some leaser) :
      Step client lease s (.onLease querier order event)
        ⟨w, leaser, s.told ++ toldBy client s.lease event⟩
  | onLeaser (s : Parties Currency Data) (querier : Querier) (order : HashOrder) (sender : Addr)
      (msg : ExecuteMsg) (response : LeaserMigration.Response) (leaser : Storage)
      (hother : sender ≠ lease)
      (h : LeaserMigration.execute querier order sender s.leaser msg = .ok (response, leaser)) :
      Step client lease s (.onLeaser querier order sender msg) ⟨s.lease, leaser, s.told⟩
  | opened (s : Parties Currency Data) (customer other : Addr) (stored : Bool) (leaser : Storage)
      (hother : other ≠ lease)
      (h : (s.leaser.cacheOpenReq customer).save other = .ok (stored, leaser)) :
      Step client lease s (.opened customer other) ⟨s.lease, leaser, s.told⟩
  | closing (s : Parties Currency Data) (order : HashOrder)
      (newLeaseCode maxLeases toRelease : ℕ) (spec : ProtocolContracts) (force : ForceClose)
      (response : LeaserMigration.Response) (leaser : Storage)
      (h : tryCloseProtocol s.leaser order newLeaseCode maxLeases toRelease
        protocolsRegistryLoad spec force = .ok (response, leaser)) :
      Step client lease s (.closing force) ⟨s.lease, leaser, s.told⟩

/-- A lease right after the transaction that has opened it: the pool has lent, and the leaser has
stored the address of the new contract. -/
structure Opened (client : SwapClient Data Msg) (lease customer : Addr)
    (s : Parties Currency Data) : Prop where
  lent : ∃ w env loan, Opening w ∧ customerOf w.state = some customer ∧
    LeaseWatch.Step client w (.loanOpened env loan) s.lease
  stored : ∃ (leaser : Storage) (new : Bool), (∀ c, ¬ leaser.leased c lease) ∧
    (leaser.cacheOpenReq customer).save lease = .ok (new, s.leaser)
  told : s.told = []

/-- The leaser has the lease under its customer until the lease is over, and is told so once. -/
structure Registered (lease customer : Addr) (s : Parties Currency Data) : Prop where
  listed : ∀ c, s.leaser.leased c lease ↔ customerOf s.lease.state = some c
  told : (customerOf s.lease.state = some customer ∧ s.told = []) ∨
    (customerOf s.lease.state = none ∧ s.told = [customer])

omit [DecidableEq Currency] in
theorem called_state (w before : World Currency Data) (event : LeaseWatch.Event Currency Data)
    (env : Env Currency) (call : Call Currency Data)
    (h : called w event = some (before, env, call)) : before.state = w.state := by
  cases event with
  | loanOpened env loan =>
    cases hstate : w.state with
    | requestLoan form downpayment =>
      simp only [called, hstate] at h
      cases h
      rfl
    | _ => simp [called, hstate] at h
  | call env call =>
    cases h
    rfl
  | timeAlarm env refused =>
    cases refused with
    | false =>
      cases h
      rfl
    | true => cases h
  | priceAlarm env refused =>
    cases refused with
    | false =>
      cases h
      rfl
    | true => cases h
  | refused now => cases h

/-- A step of the lease goes on for its customer, or it is its end and the leaser is told. -/
theorem step_told (client : SwapClient Data Msg) (w w' : World Currency Data)
    (event : LeaseWatch.Event Currency Data) (h : LeaseWatch.Step client w event w') :
    (customerOf w'.state = customerOf w.state ∧ toldBy client w event = []) ∨
      ∃ c, customerOf w.state = some c ∧ customerOf w'.state = none ∧
        toldBy client w event = [c] := by
  simp only [LeaseWatch.Step, World.step] at h
  split_ifs at h
  rcases happens_turn client _ w' event h with ⟨hturn, hstate, -⟩ | ⟨t, hturn, hcalled, hled⟩
  · rw [toldBy, hturn, hstate]
    exact .inl ⟨rfl, rfl⟩
  · have hstate : t.before.state = w.state :=
      called_state { w with now := event.now } _ _ _ _ hcalled
    have hnext : w'.state = t.response.next := (settled_pool _ _ _ hled.settled).1
    have hends := handle_yields client t.env t.before.lpp t.before.state t.call _ hled.handled
    rw [toldBy, hturn, hnext, ← hstate]
    exact hends

end Steps

/-! ## The leaser -/

theorem finalize_ok (querier : Querier) (order : HashOrder) (sender customer : Addr)
    (self leaser : Storage) (response : LeaserMigration.Response)
    (h : LeaserMigration.execute querier order sender self (.finalizeLease customer) =
      .ok (response, leaser)) : leaser = (self.remove customer sender).2 := by
  obtain ⟨customer', hcustomer, h⟩ := (bind_ok _ _ _).1 h
  obtain ⟨lease, hlease, h⟩ := (bind_ok _ _ _).1 h
  simp only [LeaserMigration.validateCustomer, bind_ok, pure_ok] at hcustomer
  obtain ⟨_, -, rfl⟩ := hcustomer
  unfold LeaserMigration.validateLease at hlease
  split at hlease
  · exact absurd hlease (failing_ok _ _)
  · simp only [bind_ok, pure_ok] at hlease
    obtain ⟨_, -, rfl⟩ := hlease
    exact (Prod.mk.inj ((pure_ok _ _).1 h)).2.symm

theorem leased_records (self leaser : Storage) (h : leaser.customerLeases = self.customerLeases)
    (customer lease : Addr) : leaser.leased customer lease ↔ self.leased customer lease := by
  rw [Storage.leased, Storage.leased, Storage.loadByCustomer, Storage.loadByCustomer, h]

/-- No message of another contract takes a lease off. -/
theorem execute_leased (querier : Querier) (order : HashOrder) (sender lease : Addr)
    (self leaser : Storage) (msg : ExecuteMsg) (response : LeaserMigration.Response)
    (hother : sender ≠ lease)
    (h : LeaserMigration.execute querier order sender self msg = .ok (response, leaser))
    (customer : Addr) : leaser.leased customer lease ↔ self.leased customer lease := by
  cases msg with
  | finalizeLease finalized =>
    rw [finalize_ok _ _ _ _ _ _ _ h, leased_remove]
    exact and_iff_left fun hsame => hother hsame.2.symm
  | migrateLeases newCodeId toRelease maxLeases =>
    obtain ⟨_, -, h⟩ := (bind_ok _ _ _).1 h
    obtain ⟨code, -, h⟩ := (bind_ok _ _ _).1 h
    apply leased_records
    simp only [LeaserMigration.tryMigrateLeases, bind_ok, pure_ok, Prod.mk.injEq] at h
    obtain ⟨_, -, -, rfl⟩ := h
    rfl
  | migrateLeasesCont key toRelease maxLeases =>
    obtain ⟨_, -, h⟩ := (bind_ok _ _ _).1 h
    obtain ⟨next, -, h⟩ := (bind_ok _ _ _).1 h
    simp only [LeaserMigration.tryMigrateLeasesCont, bind_ok, pure_ok, Prod.mk.injEq] at h
    obtain ⟨_, -, -, rfl⟩ := h
    rfl

theorem closing_leased (order : HashOrder) (newLeaseCode maxLeases toRelease : ℕ)
    (spec : ProtocolContracts) (force : ForceClose) (self leaser : Storage)
    (response : LeaserMigration.Response)
    (h : tryCloseProtocol self order newLeaseCode maxLeases toRelease protocolsRegistryLoad spec
      force = .ok (response, leaser)) (customer lease : Addr) :
    leaser.leased customer lease ↔ self.leased customer lease := by
  simp only [tryCloseProtocol, bind_ok, pure_ok, Prod.mk.injEq] at h
  obtain ⟨closed, hclosed, _, -, -, rfl⟩ := h
  apply leased_records
  cases force with
  | killProtocol =>
    simp only [LeaserClosing.closeLeases, LeaserMigration.tryMigrateLeases, bind_ok, pure_ok]
      at hclosed
    obtain ⟨_, -, rfl⟩ := hclosed
    rfl
  | no =>
    simp only [LeaserClosing.closeLeases] at hclosed
    split_ifs at hclosed
    · exact absurd hclosed (failing_ok _ _)
    · rw [← (pure_ok _ _).1 hclosed]

/-! ## The two in step -/

theorem finalizeAll_one (querier : Querier) (order : HashOrder) (lease customer : Addr)
    (self leaser : Storage) (h : finalizeAll querier order lease self [customer] = some leaser) :
    leaser = (self.remove customer lease).2 := by
  unfold finalizeAll at h
  split at h
  case h_1 response next hexecuted =>
    obtain rfl := Option.some.inj h
    exact finalize_ok _ _ _ _ _ _ _ hexecuted
  case h_2 => cases h

section Steps

variable [DecidableEq Currency] {client : SwapClient Data Msg} {lease customer : Addr}

theorem lent_customer (w w' : World Currency Data) (form : NewLeaseForm Currency)
    (downpayment : CoinDTO Currency) (env : Env Currency) (loan : LppLoan.Loan)
    (hrequest : w.state = .requestLoan form downpayment)
    (h : LeaseWatch.Step client w (.loanOpened env loan) w') :
    customerOf w'.state = some form.customer := by
  simp only [LeaseWatch.Step, World.step] at h
  split_ifs at h
  simp only [World.happens, World.call, hrequest] at h
  rw [(settled_pool _ _ _ h).1]
  rfl

theorem opened_registered (s : Parties Currency Data) (h : Opened client lease customer s) :
    Registered lease customer s := by
  obtain ⟨w, env, loan, ⟨⟨form, downpayment, hrequest⟩, -⟩, hcustomer, hlent⟩ := h.lent
  obtain ⟨leaser, new, hfresh, hsaved⟩ := h.stored
  have hstays : customerOf s.lease.state = some customer := by
    rw [lent_customer w s.lease form downpayment env loan hrequest hlent, ← hcustomer, hrequest]
    rfl
  constructor
  · intro c
    rw [leased_save _ _ _ _ _ _ _ hsaved, hstays, Option.some.injEq]
    constructor
    · rintro (hbefore | ⟨rfl, -⟩)
      · exact absurd hbefore (hfresh c)
      · rfl
    · rintro rfl
      exact .inr ⟨rfl, rfl⟩
  · exact .inl ⟨hstays, h.told⟩

theorem lease_registered (s : Parties Currency Data) (querier : Querier) (order : HashOrder)
    (event : LeaseWatch.Event Currency Data) (w : World Currency Data) (leaser : Storage)
    (hlease : LeaseWatch.Step client s.lease event w)
    (hleaser : finalizeAll querier order lease s.leaser (toldBy client s.lease event) = some leaser)
    (hr : Registered lease customer s) :
    Registered lease customer ⟨w, leaser, s.told ++ toldBy client s.lease event⟩ := by
  rcases step_told client s.lease w event hlease with ⟨hstays, hnone⟩ | ⟨c, hbefore, hover, htold⟩
  · rw [hnone] at hleaser ⊢
    obtain rfl := Option.some.inj hleaser
    rw [List.append_nil]
    exact ⟨fun c => by rw [hr.listed, hstays], by rw [hstays]; exact hr.told⟩
  · rw [htold] at hleaser ⊢
    obtain rfl := finalizeAll_one _ _ _ _ _ _ hleaser
    rcases hr.told with ⟨hcustomer, hempty⟩ | ⟨hnobody, -⟩
    · obtain rfl : c = customer := Option.some.inj (hbefore.symm.trans hcustomer)
      refine ⟨?_, .inr ⟨hover, by rw [hempty]; rfl⟩⟩
      intro other
      rw [leased_remove, hr.listed, hbefore, hover, Option.some.injEq]
      constructor
      · rintro ⟨rfl, hnot⟩
        exact absurd ⟨rfl, rfl⟩ hnot
      · rintro ⟨⟩
    · rw [hnobody] at hbefore
      cases hbefore

omit [DecidableEq Currency] in
theorem leaser_registered (s : Parties Currency Data) (leaser : Storage)
    (h : ∀ c, leaser.leased c lease ↔ s.leaser.leased c lease) (hr : Registered lease customer s) :
    Registered lease customer ⟨s.lease, leaser, s.told⟩ :=
  ⟨fun c => (h c).trans (hr.listed c), hr.told⟩

theorem step_registered (s s' : Parties Currency Data) (event : Event Currency Data)
    (h : Step client lease s event s') (hr : Registered lease customer s) :
    Registered lease customer s' := by
  cases h with
  | onLease querier order event w leaser hlease hleaser =>
    exact lease_registered s querier order event w leaser hlease hleaser hr
  | onLeaser querier order sender msg response leaser hother h =>
    exact leaser_registered s leaser (execute_leased _ _ _ _ _ _ _ _ hother h) hr
  | opened customer other stored leaser hother h =>
    refine leaser_registered s leaser ?_ hr
    intro c
    rw [leased_save _ _ _ _ _ _ _ h]
    exact or_iff_left fun hsame => hother hsame.2.symm
  | closing order newLeaseCode maxLeases toRelease spec force response leaser h =>
    exact leaser_registered s leaser (fun c => closing_leased _ _ _ _ _ _ _ _ _ h c lease) hr

theorem reachable_registered (s : Parties Currency Data)
    (h : Reachable (Step client lease) (Opened client lease customer) s) :
    Registered lease customer s :=
  reachable_induction _ _ opened_registered
    (fun s event s' => step_registered s s' event) s h

end Steps

/-! ## A sample -/

def sampleQuerier : Querier where
  knownCode := fun _ => true
  codeOf := fun contract => if contract = 11 then some 4 else none

def sampleStart : Parties ℕ (List ℕ) where
  lease := (sampleOpening.step sampleClient (.loanOpened (sampleEnv 0) samplePoolLoan)).getD
    sampleOpening
  leaser := { oneLease with customerLeases := oneLease.customerLeases.insert 1 {11, 10} }
  told := []

def sampleNext (s : Parties ℕ (List ℕ)) : Event ℕ (List ℕ) → Option (Parties ℕ (List ℕ))
  | .onLease querier order event => do
    let w ← s.lease.step sampleClient event
    let leaser ← finalizeAll querier order 11 s.leaser (toldBy sampleClient s.lease event)
    pure ⟨w, leaser, s.told ++ toldBy sampleClient s.lease event⟩
  | _ => none

def sampleEnding : List (LeaseWatch.Event ℕ (List ℕ)) :=
  sampleOpened.tail ++
    [.call (sampleEnv 0) (.repay [⟨0, 600⟩]), .call { sampleEnv 0 with sender := 1 } .close,
      sampleCall (.response [])]

def sampleReturn : LeaseWatch.Event ℕ (List ℕ) :=
  .call { sampleEnv 0 with dex.balance := fun _ => some 1000 } (.platform .inner)

def sampleAfter (events : List (LeaseWatch.Event ℕ (List ℕ))) : Parties ℕ (List ℕ) :=
  ((events.map (.onLease sampleQuerier sortedOrder)).foldlM sampleNext sampleStart).getD
    sampleStart

def sampleReturning : Parties ℕ (List ℕ) := sampleAfter sampleEnding

def sampleEnd : Parties ℕ (List ℕ) := sampleAfter (sampleEnding ++ [sampleReturn])

theorem sample_start : Opened sampleClient 11 1 sampleStart where
  lent := ⟨sampleOpening, sampleEnv 0, samplePoolLoan, sample_begun, rfl, rfl⟩
  stored := by
    refine ⟨oneLease, true, ?_, rfl⟩
    intro c hleased
    have hload : oneLease.loadByCustomer c = if c = 1 then {10} else ∅ :=
      LeaserLeases.loadByCustomer_insert (Storage.new 9 ⟨4, 101, 102, 103⟩) 1 c {10}
    rw [Storage.leased, hload] at hleased
    split_ifs at hleased
    · exact absurd hleased (by decide)
    · cases hleased
  told := rfl

theorem sample_after (events : List (LeaseWatch.Event ℕ (List ℕ)))
    (h : (events.map (.onLease sampleQuerier sortedOrder)).foldlM sampleNext sampleStart =
      some (sampleAfter events)) :
    Reachable (Step sampleClient 11) (Opened sampleClient 11 1) (sampleAfter events) := by
  refine ⟨sampleStart, _, sample_start, run_mono _ ?_ _ _ _ (run_foldlM sampleNext _ _ _ h)⟩
  rintro s event s' hnext
  cases event with
  | onLease querier order event =>
    obtain ⟨w, hw, hrest⟩ := Option.bind_eq_some_iff.1 hnext
    obtain ⟨leaser, hleaser, hs'⟩ := Option.bind_eq_some_iff.1 hrest
    obtain rfl := Option.some.inj hs'
    exact .onLease s querier order event w leaser hw hleaser
  | _ => cases hnext

/-! ## From the opening to the end -/

/-- From its opening on the leaser has a lease under its customer and under nobody else, until the
lease is over. It is told so once, and only then, and finds the lease it is to take off. The
protocol is not closed in the meantime, unless forced. -/
theorem registered_until_over [DecidableEq Currency] (client : SwapClient Data Msg)
    (lease customer : Addr) (s : Parties Currency Data)
    (h : Reachable (Step client lease) (Opened client lease customer) s) :
    (∀ c, s.leaser.leased c lease ↔ customerOf s.lease.state = some c) ∧
      ((customerOf s.lease.state = some customer ∧ s.told = []) ∨
        (customerOf s.lease.state = none ∧ s.told = [customer])) ∧
      (∀ event w, LeaseWatch.Step client s.lease event w →
        ∀ c ∈ toldBy client s.lease event, (s.leaser.remove c lease).1 = true) ∧
      (customerOf s.lease.state ≠ none → ∀ order newLeaseCode maxLeases toRelease spec,
        tryCloseProtocol s.leaser order newLeaseCode maxLeases toRelease protocolsRegistryLoad
          spec .no = failing .protocolStillInUse) := by
  have hr := reachable_registered s h
  refine ⟨hr.listed, hr.told, ?_, ?_⟩
  · intro event w hstep c hc
    rcases step_told client s.lease w event hstep with ⟨-, hnone⟩ | ⟨c', hbefore, -, htold⟩
    · rw [hnone] at hc
      cases hc
    · rw [htold, List.mem_singleton] at hc
      subst hc
      exact decide_eq_true ((hr.listed c).2 hbefore)
  · intro hlive order newLeaseCode maxLeases toRelease spec
    obtain ⟨c, hc⟩ := Option.ne_none_iff_exists'.1 hlive
    apply LeaserClosing.close_recorded
    exact LeaserClosing.inUse_records _ ⟨c, lease, (hr.listed c).2 hc⟩

/-- The return of the asset ends the lease, which the leaser finds under its customer. -/
theorem registered_until_over_sample :
    (∀ c, sampleEnd.leaser.leased c 11 ↔ customerOf sampleEnd.lease.state = some c) ∧
      (customerOf sampleEnd.lease.state = none ∧ sampleEnd.told = [1]) ∧
      (toldBy sampleClient sampleReturning.lease sampleReturn = [1] ∧
        (sampleReturning.leaser.remove 1 11).1 = true) ∧
      ∀ order newLeaseCode maxLeases toRelease spec,
        tryCloseProtocol sampleReturning.leaser order newLeaseCode maxLeases toRelease
          protocolsRegistryLoad spec .no = failing .protocolStillInUse := by
  obtain ⟨hlisted, htold, -, -⟩ := registered_until_over sampleClient 11 1 sampleEnd
    (sample_after (sampleEnding ++ [sampleReturn]) rfl)
  obtain ⟨-, -, hfound, hused⟩ := registered_until_over sampleClient 11 1 sampleReturning
    (sample_after sampleEnding rfl)
  have hover : sampleEnd.told = [1] := by rfl
  have htells : toldBy sampleClient sampleReturning.lease sampleReturn = [1] := by rfl
  refine ⟨hlisted, htold.resolve_left fun h => ?_, ⟨htells, ?_⟩, hused ?_⟩
  · rw [h.2] at hover
    cases hover
  · apply hfound sampleReturn sampleEnd.lease rfl
    rw [htells]
    exact List.mem_singleton_self 1
  · exact nofun

end Nolus.LeaseRegistration
