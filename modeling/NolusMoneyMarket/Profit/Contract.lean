import NolusMoneyMarket.Dex.OutLocal

/-! # The profit contract

Once its account at the remote chain is opened, the contract waits for a time
alarm. It then sends what it has in the native currency to the treasury, unless
there is something else to be swapped for the native currency first. Its states
are the ones of opening the account, of idling, and those of the swap. -/

set_option autoImplicit false

namespace Nolus.ProfitContract
open Nolus.Fallible Nolus.SwapTasks

variable {Addr Currency Data Msg : Type}

structure Config (Addr : Type) where
  cadenceHours : UInt16
  treasury : Addr
deriving DecidableEq, Repr

def Config.update (self : Config Addr) (cadenceHours : UInt16) : Config Addr :=
  { self with cadenceHours }

inductive State (Addr Currency Data : Type)
  | openIca (config : Config Addr)
  | idle (config : Config Addr)
  | buyBack (config : Config Addr) (task : SwapTask Currency) (inner : OutLocal.State Data task)

inductive ContractError
  | dex (reason : DexError)
  | platform
  | unauthorized
  | unsupportedOperation (operation : String)
deriving DecidableEq, Repr

inductive ProfitMessage (Addr Currency : Type)
  | dex (message : Message Currency)
  | send (receiver : Addr) (amount : ℕ)
deriving DecidableEq, Repr

structure Response (Addr Currency Data : Type) where
  messages : List (ProfitMessage Addr Currency)
  nextState : State Addr Currency Data

/-- The chain as the contract sees it: all its balances besides, and whether what it sends out is
turned down. -/
structure ChainEnv (Currency : Type) extends Env Currency where
  balances : Option (List (CoinDTO Currency))
  refused : Bool

def hourNanos : ℕ := 3600 * 10 ^ 9
def ibcFeeReserve : ℕ := 100

def err (operation : String) : Outcome ContractError (Response Addr Currency Data) :=
  failing (.dex (.unsupportedOperation operation))

namespace Profit

def transferNls (toTreasury : Addr) (amount : ℕ) : List (ProfitMessage Addr Currency) :=
  if amount - ibcFeeReserve = 0 then [] else [.send toTreasury (amount - ibcFeeReserve)]

end Profit

structure SplitCoins (Currency : Type) where
  filtered : ℕ
  rest : List (CoinDTO Currency)
deriving DecidableEq, Repr

section Balances

variable [DecidableEq Currency]

def SplitCoins.on (nls : Currency) (coin : CoinDTO Currency) : SplitCoins Currency :=
  if coin.currency = nls then ⟨coin.amount, []⟩ else ⟨0, [coin]⟩

def SplitCoins.aggregate (self other : SplitCoins Currency) :
    Outcome ContractError (SplitCoins Currency) := do
  let filtered ← nativeAdd amountBits self.filtered other.filtered
  pure ⟨filtered, self.rest ++ other.rest⟩

def splitBalances (nls : Currency) :
    List (CoinDTO Currency) → Outcome ContractError (SplitCoins Currency)
  | [] => pure ⟨0, []⟩
  | coin :: coins =>
    coins.foldlM (fun split coin => split.aggregate (.on nls coin)) (.on nls coin)

end Balances

namespace Idle

def setupTimeAlarm (env : ChainEnv Currency) (config : Config Addr) :
    Outcome ContractError (List (ProfitMessage Addr Currency)) := do
  let forr ← nativeAdd timeBits env.now (config.cadenceHours.toNat * hourNanos)
  pure [.dex (.setupAlarm forr)]

def enter (env : ChainEnv Currency) (config : Config Addr) :
    Outcome ContractError (List (ProfitMessage Addr Currency)) :=
  setupTimeAlarm env config

def sendNls (env : ChainEnv Currency) (config : Config Addr) (nls : ℕ) :
    Outcome ContractError (Response Addr Currency Data) := do
  let entered ← enter env config
  pure ⟨Profit.transferNls config.treasury nls ++ entered, .idle config⟩

/-- The first coin is transferred out; tasks of too many coins are not supported. -/
def tryEnterBuyBack (env : ChainEnv Currency) (config : Config Addr) (nls : Currency)
    (balances : List (CoinDTO Currency)) : Outcome ContractError (Response Addr Currency Data) :=
  if h : balances ≠ [] ∧ balances.length ≤ 2 ^ 8 then do
    let task : SwapTask Currency := ⟨balances, nls, h.1, h.2⟩
    let messages ← mapError .dex (submitTransfer env.toEnv (TransferOut.new task).request)
    pure ⟨messages.map .dex, .buyBack config task (OutLocal.State.startLocalLocal Data task)⟩
  else panicking (.assertion "Functionality doesn't support this many coins!")

def onTimeAlarm [DecidableEq Currency] (env : ChainEnv Currency) (config : Config Addr)
    (nls : Currency) : Outcome ContractError (Response Addr Currency Data) := do
  let balances ← okOr env.balances .platform
  let split ← splitBalances nls balances
  if split.rest = [] then sendNls env config split.filtered
  else tryEnterBuyBack env config nls split.rest

def tryUpdateConfig (env : ChainEnv Currency) (config : Config Addr) (cadenceHours : UInt16) :
    Outcome ContractError (Response Addr Currency Data) := do
  let messages ← setupTimeAlarm env (config.update cadenceHours)
  pure ⟨messages, .idle (config.update cadenceHours)⟩

end Idle

namespace BuyBack

def finish (env : ChainEnv Currency) (config : Config Addr) (nls : Currency) :
    Outcome ContractError (Response Addr Currency Data) := do
  let balanceNls ← okOr (env.balance nls) .platform
  let entered ← Idle.enter env config
  pure ⟨entered ++ Profit.transferNls config.treasury balanceNls, .idle config⟩

def respond (env : ChainEnv Currency) (config : Config Addr) (task : SwapTask Currency) :
    HandlerResult Currency (OutLocal.State Data task) →
      Outcome ContractError (Response Addr Currency Data)
  | .continue_ messages next => pure ⟨messages.map .dex, .buyBack config task next⟩
  | .finished _ => finish env config task.outCurrency

def handled (env : ChainEnv Currency) (config : Config Addr) (task : SwapTask Currency)
    (result : Outcome DexError (OutLocal.Handled Data task)) :
    Outcome ContractError (Response Addr Currency Data) := do
  let result ← mapError .dex result
  respond env config task result

end BuyBack

namespace OpenIca

def onOpenIca (env : ChainEnv Currency) (config : Config Addr) (counterpartyVersion : String) :
    Outcome ContractError (Response Addr Currency Data) := do
  ensure (env.parseRegisterResponse counterpartyVersion = true) (.error (.dex .platform))
  let entered ← Idle.enter env config
  pure ⟨entered, .idle config⟩

end OpenIca

def unsupportedConfig : Outcome ContractError (Response Addr Currency Data) :=
  failing (.unsupportedOperation "Configuration changes are not allowed in this state!")

namespace State

def tryUpdateConfig (env : ChainEnv Currency) (cadenceHours : UInt16) :
    State Addr Currency Data → Outcome ContractError (Response Addr Currency Data)
  | .openIca _ => unsupportedConfig
  | .idle config => Idle.tryUpdateConfig env config cadenceHours
  | .buyBack _ _ _ => unsupportedConfig

def onOpenIca (env : ChainEnv Currency) (counterpartyVersion : String) :
    State Addr Currency Data → Outcome ContractError (Response Addr Currency Data)
  | .openIca config => OpenIca.onOpenIca env config counterpartyVersion
  | .idle _ => err "handle open ica response"
  | .buyBack config task inner => BuyBack.handled env config task inner.onOpenIca

def onResponse (env : ChainEnv Currency) (data : Data) :
    State Addr Currency Data → Outcome ContractError (Response Addr Currency Data)
  | .openIca _ => err "handle transaction response"
  | .idle _ => err "handle transaction response"
  | .buyBack config task inner => BuyBack.handled env config task (inner.onResponse data)

def onError (env : ChainEnv Currency) :
    State Addr Currency Data → Outcome ContractError (Response Addr Currency Data)
  | .openIca _ => err "handle transaction error"
  | .idle _ => err "handle transaction error"
  | .buyBack config task inner => BuyBack.handled env config task (inner.onError env.toEnv)

def onInnerContinue (env : ChainEnv Currency) :
    State Addr Currency Data → Outcome ContractError (Response Addr Currency Data)
  | .openIca _ => err "handle inner to 'Continue' response"
  | .idle _ => err "handle inner to 'Continue' response"
  | .buyBack config task inner => BuyBack.handled env config task inner.onInnerContinue

def reply (env : ChainEnv Currency) :
    State Addr Currency Data → Outcome ContractError (Response Addr Currency Data)
  | .openIca _ => err "handle reply"
  | .idle _ => err "handle reply"
  | .buyBack config task inner => BuyBack.handled env config task (inner.reply env.toEnv)

variable [DecidableEq Currency]

def onTimeout (env : ChainEnv Currency) :
    State Addr Currency Data → Outcome ContractError (Response Addr Currency Data)
  | .openIca _ => err "handle transaction timeout"
  | .idle _ => err "handle transaction timeout"
  | .buyBack config task inner => BuyBack.handled env config task (inner.onTimeout env.toEnv)

def onInner (client : SwapClient Data Msg) (env : ChainEnv Currency) :
    State Addr Currency Data → Outcome ContractError (Response Addr Currency Data)
  | .openIca _ => err "handle inner"
  | .idle _ => err "handle inner"
  | .buyBack config task inner => BuyBack.handled env config task (inner.onInner client env.toEnv)

def onTimeAlarm (client : SwapClient Data Msg) (nls : Currency) (env : ChainEnv Currency) :
    State Addr Currency Data → Outcome ContractError (Response Addr Currency Data)
  | .openIca _ => err "handle time alarm"
  | .idle config => Idle.onTimeAlarm env config nls
  | .buyBack config task inner =>
    BuyBack.handled env config task (inner.onTimeAlarm client env.toEnv)

end State

/-- Who may execute what: the owner, the time alarms and the contract itself. -/
structure Access (Addr : Type) where
  owner : Addr
  timeAlarms : Addr
  contract : Addr

inductive ExecuteMsg
  | timeAlarm
  | config (cadenceHours : UInt16)
  | dexCallback
  | dexCallbackContinue
deriving DecidableEq, Repr

inductive SudoMsg (Data : Type)
  | response (data : Data)
  | error
  | timeout
  | openAck (counterpartyVersion : String)
  | queryResult
deriving DecidableEq, Repr

def tryHandleNeutronMsg [DecidableEq Currency] (env : ChainEnv Currency)
    (self : State Addr Currency Data) :
    SudoMsg Data → Outcome ContractError (Response Addr Currency Data)
  | .response data => self.onResponse env data
  | .error => self.onError env
  | .timeout => self.onTimeout env
  | .openAck counterpartyVersion => self.onOpenIca env counterpartyVersion
  | .queryResult => panicking (.assertion "not implemented")

def reply (env : ChainEnv Currency) (self : State Addr Currency Data) :
    Outcome ContractError (Response Addr Currency Data) :=
  self.reply env

section Execute

variable [DecidableEq Addr] [DecidableEq Currency]

def accessCheck (grantedTo sender : Addr) : Outcome ContractError Unit :=
  ensure (sender = grantedTo) (.error .unauthorized)

def execute (client : SwapClient Data Msg) (nls : Currency) (access : Access Addr) (sender : Addr)
    (env : ChainEnv Currency) (self : State Addr Currency Data) :
    ExecuteMsg → Outcome ContractError (Response Addr Currency Data)
  | .timeAlarm => do
    accessCheck access.timeAlarms sender
    self.onTimeAlarm client nls env
  | .config cadenceHours => do
    accessCheck access.owner sender
    self.tryUpdateConfig env cadenceHours
  | .dexCallback => do
    accessCheck access.contract sender
    self.onInner client env
  | .dexCallbackContinue => do
    accessCheck access.contract sender
    self.onInnerContinue env

end Execute

end Nolus.ProfitContract
