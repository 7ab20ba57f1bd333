import NolusMoneyMarket.Dex.Task

/-! # Swaps with the outcome left out

The states of a swap that first opens the account of the contract at the remote
chain and leaves the outcome there. -/

set_option autoImplicit false

namespace Nolus.OutRemote
open Nolus.Fallible Nolus.SwapTasks

variable {Currency Data Msg : Type}

inductive State (Data : Type) (task : SwapTask Currency)
  | openIca
  | openIcaRespDelivery (counterpartyVersion : String)
  | transferOut (inner : TransferOut task)
  | transferOutRespDelivery (handler : TransferOut task) (response : Data)
  | swapExactIn
  | swapExactInRespDelivery (response : Data)
deriving DecidableEq, Repr

abbrev Handled (Data : Type) (task : SwapTask Currency) :=
  HandlerResult Currency (State Data task)

variable {task : SwapTask Currency}

namespace State

def start (Data : Type) (task : SwapTask Currency) : State Data task := .openIca

def onOpenIca (counterpartyVersion : String) :
    State Data task → Outcome DexError (Handled Data task)
  | .openIca => forwardToInner (.openIcaRespDelivery counterpartyVersion)
  | _ => err "handle open ica response"

def onResponse (response : Data) : State Data task → Outcome DexError (Handled Data task)
  | .transferOut inner => forwardToInner (.transferOutRespDelivery inner response)
  | .swapExactIn => forwardToInner (.swapExactInRespDelivery response)
  | _ => err "handle transaction response"

def onError (env : Env Currency) : State Data task → Outcome DexError (Handled Data task)
  | .transferOut inner => inner.enter env .transferOut
  | _ => err "handle transaction error"

/-- The account is built from what the remote chain has sent, then the first coin
is transferred to it. -/
def onAccountOpened (env : Env Currency) (task : SwapTask Currency)
    (counterpartyVersion : String) : Outcome DexError (Handled Data task) := do
  ensure (env.parseRegisterResponse counterpartyVersion = true) (.error .platform)
  (TransferOut.new task).enter env .transferOut

def onInnerContinue (env : Env Currency) : State Data task → Outcome DexError (Handled Data task)
  | .openIcaRespDelivery counterpartyVersion => onAccountOpened env task counterpartyVersion
  | .transferOutRespDelivery _ _ => err "deliver ica_open response"
  | .swapExactInRespDelivery _ => err "deliver ica_open response"
  | _ => err "handle inner to 'Continue' response"

def reply (env : Env Currency) : State Data task → Outcome DexError (Handled Data task)
  | .openIcaRespDelivery counterpartyVersion =>
    setupAlarm env rightAfterNow (.openIcaRespDelivery counterpartyVersion)
  | .transferOutRespDelivery handler response =>
    setupAlarm env rightAfterNow (.transferOutRespDelivery handler response)
  | .swapExactInRespDelivery response =>
    setupAlarm env rightAfterNow (.swapExactInRespDelivery response)
  | _ => err "handle reply"

section Swap

variable [DecidableEq Currency]

def onTimeout (env : Env Currency) : State Data task → Outcome DexError (Handled Data task)
  | .transferOut inner => inner.enter env .transferOut
  | .swapExactIn => task.enterSwap env .swapExactIn
  | _ => err "handle transaction timeout"

def onSwapResponse (client : SwapClient Data Msg) (task : SwapTask Currency) (response : Data) :
    Outcome DexError (Handled Data task) := do
  let amountOut ← decodeResponse client task response
  pure (.finished amountOut)

def onInner (client : SwapClient Data Msg) (env : Env Currency) :
    State Data task → Outcome DexError (Handled Data task)
  | .openIcaRespDelivery _ => err "deliver transaction response"
  | .transferOutRespDelivery handler _ => handler.onResponse env .transferOut .swapExactIn
  | .swapExactInRespDelivery response => onSwapResponse client task response
  | _ => err "handle inner"

def heal (env : Env Currency) : State Data task → Outcome DexError (Handled Data task)
  | .swapExactIn => task.enterSwap env .swapExactIn
  | _ => err "handle heal"

def onTimeAlarm (client : SwapClient Data Msg) (env : Env Currency) :
    State Data task → Outcome DexError (Handled Data task)
  | .openIcaRespDelivery counterpartyVersion => onAccountOpened env task counterpartyVersion
  | .transferOutRespDelivery handler _ => handler.onResponse env .transferOut .swapExactIn
  | .swapExactInRespDelivery response => onSwapResponse client task response
  | _ => err "handle time alarm"

def handle (client : SwapClient Data Msg) (env : Env Currency) (self : State Data task) :
    Input Data → Outcome DexError (Handled Data task)
  | .openIca counterpartyVersion => self.onOpenIca counterpartyVersion
  | .response data => self.onResponse data
  | .error => self.onError env
  | .timeout => self.onTimeout env
  | .inner => self.onInner client env
  | .innerContinue => self.onInnerContinue env
  | .heal => self.heal env
  | .reply => self.reply env
  | .timeAlarm => self.onTimeAlarm client env

end Swap

end State

end Nolus.OutRemote
