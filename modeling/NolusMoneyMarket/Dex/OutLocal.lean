import NolusMoneyMarket.Dex.Task

/-! # Swaps with the outcome taken in

The states of a swap whose outcome is transferred back to the contract. A
response is first stored together with the state it is for and then delivered
by the contract to itself; until a delivery succeeds it is repeated on time
alarms. -/

set_option autoImplicit false

namespace Nolus.OutLocal
open Nolus.Fallible Nolus.SwapTasks

variable {Currency Data Msg : Type}

inductive State (Data : Type) (task : SwapTask Currency)
  | transferOut (inner : TransferOut task)
  | transferOutRespDelivery (handler : TransferOut task) (response : Data)
  | swapExactIn
  | swapExactInRespDelivery (response : Data)
  | transferInInit (inner : TransferInInit Currency)
  | transferInInitRespDelivery (handler : TransferInInit Currency) (response : Data)
  | transferInFinish (inner : TransferInFinish Currency)
deriving DecidableEq, Repr

abbrev Handled (Data : Type) (task : SwapTask Currency) :=
  HandlerResult Currency (State Data task)

variable {task : SwapTask Currency}

namespace State

def startLocalLocal (Data : Type) (task : SwapTask Currency) : State Data task :=
  .transferOut (TransferOut.new task)

def startRemoteLocal (Data : Type) (task : SwapTask Currency) : State Data task := .swapExactIn

def onOpenIca (_ : State Data task) : Outcome DexError (Handled Data task) :=
  err "handle open ica response"

def onResponse (response : Data) : State Data task → Outcome DexError (Handled Data task)
  | .transferOut inner => forwardToInner (.transferOutRespDelivery inner response)
  | .swapExactIn => forwardToInner (.swapExactInRespDelivery response)
  | .transferInInit inner => forwardToInner (.transferInInitRespDelivery inner response)
  | _ => err "handle transaction response"

def onError (env : Env Currency) : State Data task → Outcome DexError (Handled Data task)
  | .transferOut inner => inner.enter env .transferOut
  | _ => err "handle transaction error"

def onInnerContinue : State Data task → Outcome DexError (Handled Data task)
  | .transferOutRespDelivery _ _ => err "deliver ica_open response"
  | .swapExactInRespDelivery _ => err "deliver ica_open response"
  | .transferInInitRespDelivery _ _ => err "deliver ica_open response"
  | _ => err "handle inner to 'Continue' response"

def reply (env : Env Currency) : State Data task → Outcome DexError (Handled Data task)
  | .transferOutRespDelivery handler response =>
    setupAlarm env rightAfterNow (.transferOutRespDelivery handler response)
  | .swapExactInRespDelivery response =>
    setupAlarm env rightAfterNow (.swapExactInRespDelivery response)
  | .transferInInitRespDelivery handler response =>
    setupAlarm env rightAfterNow (.transferInInitRespDelivery handler response)
  | _ => err "handle reply"

section Swap

variable [DecidableEq Currency]

def onTimeout (env : Env Currency) : State Data task → Outcome DexError (Handled Data task)
  | .transferOut inner => inner.enter env .transferOut
  | .swapExactIn => task.enterSwap env .swapExactIn
  | .transferInInit inner => inner.enter env .transferInInit
  | _ => err "handle transaction timeout"

def onSwapResponse (client : SwapClient Data Msg) (env : Env Currency) (task : SwapTask Currency)
    (response : Data) : Outcome DexError (Handled Data task) := do
  let amountOut ← decodeResponse client task response
  TransferInInit.enter env ⟨amountOut⟩ .transferInInit

def deliver (client : SwapClient Data Msg) (env : Env Currency) (operation : String) :
    State Data task → Outcome DexError (Handled Data task)
  | .transferOutRespDelivery handler _ => handler.onResponse env .transferOut .swapExactIn
  | .swapExactInRespDelivery response => onSwapResponse client env task response
  | .transferInInitRespDelivery handler _ =>
    handler.onResponse env .transferInInit .transferInFinish
  | _ => err operation

def onInner (client : SwapClient Data Msg) (env : Env Currency) (self : State Data task) :
    Outcome DexError (Handled Data task) :=
  self.deliver client env "handle inner"

def heal (env : Env Currency) : State Data task → Outcome DexError (Handled Data task)
  | .swapExactIn => task.enterSwap env .swapExactIn
  | .transferInInit inner => inner.onResponse env .transferInInit .transferInFinish
  | .transferInFinish inner => inner.tryComplete env .transferInInit .transferInFinish
  | _ => err "handle heal"

def onTimeAlarm (client : SwapClient Data Msg) (env : Env Currency) :
    State Data task → Outcome DexError (Handled Data task)
  | .transferInFinish inner => inner.tryComplete env .transferInInit .transferInFinish
  | self => self.deliver client env "handle time alarm"

def handle (client : SwapClient Data Msg) (env : Env Currency) (self : State Data task) :
    Input Data → Outcome DexError (Handled Data task)
  | .openIca _ => self.onOpenIca
  | .response data => self.onResponse data
  | .error => self.onError env
  | .timeout => self.onTimeout env
  | .inner => self.onInner client env
  | .innerContinue => self.onInnerContinue
  | .heal => self.heal env
  | .reply => self.reply env
  | .timeAlarm => self.onTimeAlarm client env

end Swap

end State

end Nolus.OutLocal
