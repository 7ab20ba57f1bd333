import NolusMoneyMarket.Dex.OutLocal
import NolusMoneyMarket.Dex.OutRemote
import NolusMoneyMarket.Lease.Lease

/-! # The lease contract

The states of a lease contract from the request of its loan until it is closed
or liquidated. Whatever buys or sells the asset goes through the states of a
swap task; past the last of these the outcome repays the loan. Every way into
the active state checks the lease and sets its alarms up anew. -/

set_option autoImplicit false

namespace Nolus.LeaseContract
open Nolus.Fallible Nolus.Prices Nolus.SwapTasks Nolus.LeaseLoan Nolus.LeasePosition Nolus.Leases

variable {Currency Data Msg S : Type}

structure NewLeaseForm (Currency : Type) where
  customer : Addr
  timeAlarms : Addr
  oracle : Addr
  currency : Currency
  lpn : Currency
  positionSpec : Spec
  annualMarginInterest : ℕ
  duePeriod : ℕ

structure BuyAsset (Currency : Type) where
  form : NewLeaseForm Currency
  downpayment : CoinDTO Currency
  loan : CoinDTO Currency
  startOpeningAt : ℕ

def BuyAsset.task (self : BuyAsset Currency) : SwapTask Currency :=
  ⟨[self.downpayment, self.loan], self.form.currency, by simp, by simp⟩

def swapOne (coin : CoinDTO Currency) (outCurrency : Currency) : SwapTask Currency :=
  ⟨[coin], outCurrency, by simp, by simp⟩

structure BuyLpn (Currency : Type) where
  lease : LeaseDTO Currency
  payment : CoinDTO Currency

def BuyLpn.task (self : BuyLpn Currency) : SwapTask Currency :=
  swapOne self.payment self.lease.lpn

inductive Repayable
  | partialLiquidation (amount : ℕ) (cause : Cause)
  | fullLiquidation (cause : Cause)
  | partialClose (amount : ℕ)
  | fullClose
deriving DecidableEq, Repr

structure SellAsset (Currency : Type) where
  lease : LeaseDTO Currency
  repayable : Repayable

def SellAsset.amount (self : SellAsset Currency) : ℕ :=
  match self.repayable with
  | .partialLiquidation amount _ => amount
  | .fullLiquidation _ => self.lease.position.amount
  | .partialClose amount => amount
  | .fullClose => self.lease.position.amount

def SellAsset.task (self : SellAsset Currency) : SwapTask Currency :=
  swapOne ⟨self.lease.currency, self.amount⟩ self.lease.lpn

def LeaseDTO.asset (self : LeaseDTO Currency) : CoinDTO Currency :=
  ⟨self.currency, self.position.amount⟩

def transferIn (lease : LeaseDTO Currency) : SwapTask Currency :=
  swapOne (LeaseDTO.asset lease) lease.currency

/-- The sales of the asset, of a part or of all of it, on a liquidation or by the customer, share
one constructor. -/
inductive State (Currency Data : Type)
  | requestLoan (form : NewLeaseForm Currency) (downpayment : CoinDTO Currency)
  | buyAsset (spec : BuyAsset Currency) (dex : OutRemote.State Data spec.task)
  | openedActive (lease : LeaseDTO Currency)
  | buyLpn (spec : BuyLpn Currency) (dex : OutLocal.State Data spec.task)
  | sellAsset (spec : SellAsset Currency) (dex : OutLocal.State Data spec.task)
  | paidActive (lease : LeaseDTO Currency)
  | closingTransferIn (lease : LeaseDTO Currency) (dex : OutLocal.State Data (transferIn lease))
  | closed
  | liquidated

inductive Message (Currency : Type)
  | dex (message : SwapTasks.Message Currency)
  | timeAlarm (at_ : ℕ)
  | priceAlarm (alarm : PriceAlarm)
  | repayLoan (amount : ℕ)
  | sendProfit (amount : ℕ)
  | sendChange (recipient : Option Addr) (amount : ℕ)
  | coverLosses (amount : ℕ)
  | finalize (customer : Addr)
  | send (recipient : Addr) (coin : CoinDTO Currency)
deriving DecidableEq, Repr

structure Response (Currency Data : Type) where
  messages : List (Message Currency)
  next : State Currency Data

/-- The chain as a call sees it, the loan the pool answers with apart. -/
structure Env (Currency : Type) where
  dex : SwapTasks.Env Currency
  sender : Addr
  price : Currency → Outcome ContractError Price
  paymentCurrency : Currency → Bool
  balances : List (CoinDTO Currency)

def Env.now (self : Env Currency) : ℕ := self.dex.now

inductive PositionClose
  | partialClose (amount : ℕ)
  | fullClose
deriving DecidableEq, Repr

inductive Call (Currency Data : Type)
  | loanOpened (principal : CoinDTO Currency)
  | repay (funds : List (CoinDTO Currency))
  | changeClosePolicy (change : ClosePolicyChange)
  | closePosition (spec : PositionClose)
  | close
  | priceAlarm
  | platform (input : Input Data)

abbrev LppQuery := Outcome ContractError LppLoan.Loan

def err (operation : String) : Outcome ContractError (Response Currency Data) :=
  failing (.unsupportedOperation operation)

def ignoreMsg (state : State Currency Data) : Outcome ContractError (Response Currency Data) :=
  pure ⟨[], state⟩

def accessCheck (owner sender : Addr) : Outcome ContractError Unit :=
  ensure (owner = sender) (.error .unauthorized)

def alarmMessages (alarms : Alarms) : List (Message Currency) :=
  [.timeAlarm alarms.time, .priceAlarm alarms.price]

def sent (amount : ℕ) (message : Message Currency) : List (Message Currency) :=
  if amount = 0 then [] else [message]

def lppMessages (lppRepay : Option ℕ) : List (Message Currency) :=
  match lppRepay with
  | none => []
  | some amount => [.repayLoan amount]

def repayMessages (response : RepayMessages) : List (Message Currency) :=
  lppMessages response.lppRepay ++ sent response.profit (.sendProfit response.profit)

/-- A full close sends the losses out first, for the pool to be repaid in full. -/
def closeMessages (receipt : FullRepayReceipt) (recipient : Option Addr) :
    List (Message Currency) :=
  (match receipt.losses with
    | none => []
    | some losses => [.coverLosses losses]) ++
  lppMessages receipt.lppRepay ++ sent receipt.profit (.sendProfit receipt.profit) ++
  sent receipt.change (.sendChange recipient receipt.change)

def Env.lease (env : Env Currency) (dto : LeaseDTO Currency) (lppLoan : LppLoan.Loan) : Lease :=
  dto.withDeps lppLoan (env.price dto.currency)

section Selling

variable [DecidableEq Currency]

/-- A sale starts with a swap request, since the asset is at the remote chain. -/
def SellAsset.start (spec : SellAsset Currency) (currRequest : List (Message Currency))
    (env : Env Currency) : Outcome ContractError (Response Currency Data) := do
  let swap ← mapError .dexError (submit env.dex spec.task.swapRequest)
  pure ⟨currRequest ++ swap.map .dex,
    .sellAsset spec (OutLocal.State.startRemoteLocal Data spec.task)⟩

def startLiquidation (lease : LeaseDTO Currency) (liquidation : Liquidation)
    (currRequest : List (Message Currency)) (env : Env Currency) :
    Outcome ContractError (Response Currency Data) :=
  match liquidation with
  | .partial_ amount cause =>
    SellAsset.start ⟨lease, .partialLiquidation amount cause⟩ currRequest env
  | .full cause => SellAsset.start ⟨lease, .fullLiquidation cause⟩ currRequest env

/-- A close the policy asks for sends out nothing of what has led to it. -/
def autoStart (lease : LeaseDTO Currency) (env : Env Currency) :
    Outcome ContractError (Response Currency Data) :=
  SellAsset.start ⟨lease, .fullClose⟩ [] env

def tryRepay (repayFn : RepayFn) (lease : LeaseDTO Currency) (amount : ℕ) (env : Env Currency)
    (lpp : LppQuery) : Outcome ContractError (Response Currency Data) := do
  let lppLoan ← lpp
  let result ← Repay.exec repayFn lease (env.lease lease lppLoan) amount env.now
  match result.closeStatus with
  | .paid => pure ⟨repayMessages result.response, .paidActive result.lease⟩
  | .none _ alarms =>
    pure ⟨alarmMessages alarms ++ repayMessages result.response, .openedActive result.lease⟩
  | .needLiquidation liquidation =>
    startLiquidation result.lease liquidation (repayMessages result.response) env
  | .closeAsked (.takeProfit _) =>
    unimplemented "a Take Profit past payment should have been ignored"
  | .closeAsked _ => autoStart result.lease env

end Selling

def tryClose (lease : LeaseDTO Currency) (recipient : Option Addr) (outState : State Currency Data)
    (amount : ℕ) (env : Env Currency) (lpp : LppQuery) :
    Outcome ContractError (Response Currency Data) := do
  let lppLoan ← lpp
  let receipt ← (env.lease lease lppLoan).closeFull amount env.now
  pure ⟨closeMessages receipt recipient ++ [.finalize lease.customer], outState⟩

section Finishing

variable [DecidableEq Currency]

def SellAsset.finish (spec : SellAsset Currency) (amountOut : CoinDTO Currency)
    (env : Env Currency) (lpp : LppQuery) : Outcome ContractError (Response Currency Data) :=
  match spec.repayable with
  | .partialLiquidation amount _ => tryRepay (.close amount) spec.lease amountOut.amount env lpp
  | .fullLiquidation _ => tryClose spec.lease none .liquidated amountOut.amount env lpp
  | .partialClose amount => tryRepay (.close amount) spec.lease amountOut.amount env lpp
  | .fullClose =>
    tryClose spec.lease (some spec.lease.customer) .closed amountOut.amount env lpp

def BuyLpn.finish (spec : BuyLpn Currency) (amountOut : CoinDTO Currency) (env : Env Currency)
    (lpp : LppQuery) : Outcome ContractError (Response Currency Data) :=
  tryRepay .repayLease spec.lease amountOut.amount env lpp

def BuyAsset.lease (spec : BuyAsset Currency) (amountOut : CoinDTO Currency) : LeaseDTO Currency where
  customer := spec.form.customer
  timeAlarms := spec.form.timeAlarms
  oracle := spec.form.oracle
  currency := spec.form.currency
  lpn := spec.form.lpn
  position := ⟨amountOut.amount, spec.form.positionSpec⟩
  loan := ⟨spec.form.duePeriod, spec.form.annualMarginInterest, spec.startOpeningAt⟩

def BuyAsset.finish (spec : BuyAsset Currency) (amountOut : CoinDTO Currency) (env : Env Currency)
    (lpp : LppQuery) : Outcome ContractError (Response Currency Data) := do
  let lppLoan ← lpp
  let status ← check (env.lease (spec.lease amountOut) lppLoan) env.now
  match status with
  | .paid => unimplemented "a freshly open lease should have some due amount"
  | .none _ alarms => pure ⟨alarmMessages alarms, .openedActive (spec.lease amountOut)⟩
  | .needLiquidation liquidation => startLiquidation (spec.lease amountOut) liquidation [] env
  | .closeAsked _ => unimplemented "no triggers have been set"

def finishTransferIn (lease : LeaseDTO Currency) (env : Env Currency) :
    Outcome ContractError (Response Currency Data) := do
  let surplus ← okOr (env.dex.balance lease.lpn) .platformError
  pure ⟨sent surplus (.send lease.customer ⟨lease.lpn, surplus⟩) ++
    [.send lease.customer (LeaseDTO.asset lease), .finalize lease.customer], .closed⟩

end Finishing

/-- A swap task goes on in a state of its own, or finishes with the outcome of the swap. -/
def ofDex (wrap : S → State Currency Data)
    (finish : CoinDTO Currency → Outcome ContractError (Response Currency Data))
    (handled : Outcome DexError (HandlerResult Currency S)) :
    Outcome ContractError (Response Currency Data) := do
  let result ← mapError .dexError handled
  match result with
  | .continue_ messages next => pure ⟨messages.map .dex, wrap next⟩
  | .finished amountOut => finish amountOut

namespace Active

variable [DecidableEq Currency]

def startSwap (lease : LeaseDTO Currency) (funds : List (CoinDTO Currency)) (env : Env Currency)
    (lpp : LppQuery) : Outcome ContractError (Response Currency Data) := do
  let _ ← lpp
  let payment ← okOr (funds.find? fun coin => env.paymentCurrency coin.currency) .noPaymentError
  let price ← env.price payment.currency
  mapError .positionError (lease.position.spec.validatePayment payment.amount price)
  ofDex (State.buyLpn ⟨lease, payment⟩) (fun _ => err "repay")
    ((TransferOut.new (BuyLpn.task ⟨lease, payment⟩)).enter env.dex OutLocal.State.transferOut)

def tryRepay (lease : LeaseDTO Currency) (funds : List (CoinDTO Currency)) (env : Env Currency)
    (lpp : LppQuery) : Outcome ContractError (Response Currency Data) :=
  match funds.find? fun coin => coin.currency = lease.lpn with
  | some payment => LeaseContract.tryRepay .repayLease lease payment.amount env lpp
  | none => startSwap lease funds env lpp

def tryOnAlarm (lease : LeaseDTO Currency) (env : Env Currency) (lpp : LppQuery) :
    Outcome ContractError (Response Currency Data) := do
  let lppLoan ← lpp
  let closeStatus ← check (env.lease lease lppLoan) env.now
  match closeStatus with
  | .paid => unimplemented "an Active Opened Lease should always have some due amount"
  | .none _ alarms => pure ⟨alarmMessages alarms, .openedActive lease⟩
  | .needLiquidation liquidation => startLiquidation lease liquidation [] env
  | .closeAsked _ => autoStart lease env

def onTimeAlarm (lease : LeaseDTO Currency) (env : Env Currency) (lpp : LppQuery) :
    Outcome ContractError (Response Currency Data) := do
  accessCheck lease.timeAlarms env.sender
  tryOnAlarm lease env lpp

def onPriceAlarm (lease : LeaseDTO Currency) (env : Env Currency) (lpp : LppQuery) :
    Outcome ContractError (Response Currency Data) := do
  accessCheck lease.oracle env.sender
  tryOnAlarm lease env lpp

def changeClosePolicy (lease : LeaseDTO Currency) (change : ClosePolicyChange)
    (env : Env Currency) (lpp : LppQuery) : Outcome ContractError (Response Currency Data) := do
  accessCheck lease.customer env.sender
  let lppLoan ← lpp
  let changed ← ChangeCmd.exec change lease (env.lease lease lppLoan) env.now
  pure ⟨alarmMessages changed.2, .openedActive changed.1⟩

def closePosition (lease : LeaseDTO Currency) (spec : PositionClose) (env : Env Currency)
    (lpp : LppQuery) : Outcome ContractError (Response Currency Data) := do
  accessCheck lease.customer env.sender
  match spec with
  | .partialClose amount => do
    let lppLoan ← lpp
    (env.lease lease lppLoan).validateClose amount
    SellAsset.start ⟨lease, .partialClose amount⟩ [] env
  | .fullClose => SellAsset.start ⟨lease, .fullClose⟩ [] env

/-- An amount that has come in past a failure is used for a repayment. -/
def heal (lease : LeaseDTO Currency) (env : Env Currency) (lpp : LppQuery) :
    Outcome ContractError (Response Currency Data) := do
  let balance ← okOr (env.dex.balance lease.lpn) .platformError
  if balance = 0 then failing .inconsistencyNotDetected
  else LeaseContract.tryRepay .repayLease lease balance env lpp

def handle (lease : LeaseDTO Currency) (env : Env Currency) (lpp : LppQuery) :
    Call Currency Data → Outcome ContractError (Response Currency Data)
  | .repay funds => tryRepay lease funds env lpp
  | .changeClosePolicy change => changeClosePolicy lease change env lpp
  | .closePosition spec => closePosition lease spec env lpp
  | .priceAlarm => onPriceAlarm lease env lpp
  | .platform .timeAlarm => onTimeAlarm lease env lpp
  | .platform .heal => heal lease env lpp
  | _ => err "unsupported in the active state"

end Active

def drain (state : State Currency Data) (env : Env Currency) :
    Outcome ContractError (Response Currency Data) :=
  if env.balances = [] then failing .inconsistencyNotDetected
  else pure ⟨env.balances.map (.send env.sender), state⟩

/-- A lease at its end ignores the alarms, and gives away what it still gets. -/
def handleEnd (state : State Currency Data) (env : Env Currency) :
    Call Currency Data → Outcome ContractError (Response Currency Data)
  | .priceAlarm => ignoreMsg state
  | .platform .timeAlarm => ignoreMsg state
  | .platform .heal => drain state env
  | _ => err "unsupported at the end"

def handlePaid (lease : LeaseDTO Currency) (env : Env Currency) :
    Call Currency Data → Outcome ContractError (Response Currency Data)
  | .priceAlarm => ignoreMsg (.paidActive lease)
  | .platform .timeAlarm => ignoreMsg (.paidActive lease)
  | .close => do
    accessCheck lease.customer env.sender
    ofDex (State.closingTransferIn lease) (fun _ => err "close")
      (TransferInInit.enter env.dex ⟨LeaseDTO.asset lease⟩ OutLocal.State.transferInInit)
  | _ => err "unsupported in the paid state"

def handleRequest (form : NewLeaseForm Currency) (downpayment : CoinDTO Currency)
    (env : Env Currency) : Call Currency Data → Outcome ContractError (Response Currency Data)
  | .loanOpened principal =>
    pure ⟨[.dex (.request .registerIca)], .buyAsset ⟨form, downpayment, principal, env.now⟩
      (OutRemote.State.start Data _)⟩
  | _ => err "unsupported while the loan is requested"

/-- The swap states ignore the price alarms. -/
def handleDex (state : State Currency Data)
    (handled : Input Data → Outcome ContractError (Response Currency Data)) :
    Call Currency Data → Outcome ContractError (Response Currency Data)
  | .priceAlarm => ignoreMsg state
  | .platform input => handled input
  | _ => err "unsupported while a swap is under way"

def State.handle [DecidableEq Currency] (client : SwapClient Data Msg) (env : Env Currency)
    (lpp : LppQuery) (self : State Currency Data) (call : Call Currency Data) :
    Outcome ContractError (Response Currency Data) :=
  match self with
  | .requestLoan form downpayment => handleRequest form downpayment env call
  | .buyAsset spec dex => handleDex (.buyAsset spec dex) (fun input =>
      ofDex (.buyAsset spec) (fun out => spec.finish out env lpp) (dex.handle client env.dex input))
      call
  | .openedActive lease => Active.handle lease env lpp call
  | .buyLpn spec dex => handleDex (.buyLpn spec dex) (fun input =>
      ofDex (.buyLpn spec) (fun out => spec.finish out env lpp) (dex.handle client env.dex input))
      call
  | .sellAsset spec dex => handleDex (.sellAsset spec dex) (fun input =>
      ofDex (.sellAsset spec) (fun out => spec.finish out env lpp)
        (dex.handle client env.dex input)) call
  | .paidActive lease => handlePaid lease env call
  | .closingTransferIn lease dex => handleDex (.closingTransferIn lease dex) (fun input =>
      ofDex (.closingTransferIn lease) (fun _ => finishTransferIn lease env)
        (dex.handle client env.dex input)) call
  | .closed => handleEnd .closed env call
  | .liquidated => handleEnd .liquidated env call

end Nolus.LeaseContract
