import NolusMoneyMarket.Dex.OutLocal

/-! # What the states of a swap support

A state has no operation for most of the inputs and says so. The ones it supports
may fail as well, yet for other reasons. -/

set_option autoImplicit false

namespace Nolus.SwapSupports
open Nolus.Fallible Nolus.SwapTasks Nolus.OutLocal

variable {Currency Data Msg S : Type} {task : SwapTask Currency}

def supports : State Data task → Input Data → Bool
  | .transferOut _, .response _ => true
  | .transferOut _, .error => true
  | .transferOut _, .timeout => true
  | .transferOutRespDelivery _ _, .inner => true
  | .transferOutRespDelivery _ _, .reply => true
  | .transferOutRespDelivery _ _, .timeAlarm => true
  | .swapExactIn, .response _ => true
  | .swapExactIn, .timeout => true
  | .swapExactIn, .heal => true
  | .swapExactInRespDelivery _, .inner => true
  | .swapExactInRespDelivery _, .reply => true
  | .swapExactInRespDelivery _, .timeAlarm => true
  | .transferInInit _, .response _ => true
  | .transferInInit _, .timeout => true
  | .transferInInit _, .heal => true
  | .transferInInitRespDelivery _ _, .inner => true
  | .transferInInitRespDelivery _ _, .reply => true
  | .transferInInitRespDelivery _ _, .timeAlarm => true
  | .transferInFinish _, .heal => true
  | .transferInFinish _, .timeAlarm => true
  | _, _ => false

/-- A fault that is not about an operation the state does not have. -/
def Supported (fault : Fault DexError) : Prop :=
  ∀ operation, fault ≠ .error (.unsupportedOperation operation)

def Buildable (env : Env Currency) : Prop :=
  ∀ request reason, env.unbuildable request = some reason → Supported (.error reason)

theorem platform_supported : Supported (.error .platform) := nofun

theorem swap_supported : Supported (.error .swap) := nofun

theorem nativeAdd_supported (width a b : ℕ) :
    FaultsIn Supported (nativeAdd width a b : Outcome DexError ℕ) := by
  intro e he
  obtain ⟨message, rfl⟩ := evaluates_faults _ _ (nativeAdd_evaluates width a b) e he
  exact nofun

theorem submit_supported (env : Env Currency) (henv : Buildable env) (request : Request Currency) :
    FaultsIn Supported (submit env request) := by
  unfold submit
  cases hbuild : env.unbuildable request with
  | none => exact faultsIn_pure _ _
  | some reason => exact faultsIn_error _ _ (henv request reason hbuild)

theorem submitTransfer_supported (env : Env Currency) (henv : Buildable env)
    (request : Request Currency) : FaultsIn Supported (submitTransfer env request) :=
  faultsIn_bind _ _ _ (nativeAdd_supported _ _ _) fun _ _ => submit_supported env henv request

theorem enterNext_supported (messages : Outcome DexError (List (Message Currency))) (next : S)
    (h : FaultsIn Supported messages) : FaultsIn Supported (enterNext messages next) :=
  faultsIn_bind _ _ _ h fun _ _ => faultsIn_pure _ _

theorem setupAlarm_supported (env : Env Currency) (delay : ℕ) (next : S) :
    FaultsIn Supported (setupAlarm env delay next) :=
  faultsIn_bind _ _ _ (nativeAdd_supported _ _ _) fun _ _ => faultsIn_pure _ _

theorem tryComplete_supported (env : Env Currency) (henv : Buildable env)
    (inner : TransferInFinish Currency) (intoInit : TransferInInit Currency → S)
    (into : TransferInFinish Currency → S) :
    FaultsIn Supported (inner.tryComplete env intoInit into) := by
  have hreceived : FaultsIn Supported (checkReceived env inner.amountIn) :=
    faultsIn_bind _ _ _ (faultsIn_okOr _ _ _ platform_supported) fun _ _ => faultsIn_pure _ _
  apply faultsIn_bind _ _ _ hreceived
  intro received _
  split
  · exact faultsIn_pure _ _
  · unfold TransferInFinish.tryAgain
    split
    · exact enterNext_supported _ _ (submitTransfer_supported env henv _)
    · exact setupAlarm_supported env _ _

theorem transferIn_supported (env : Env Currency) (henv : Buildable env)
    (inner : TransferInInit Currency) (intoInit : TransferInInit Currency → S)
    (intoFinish : TransferInFinish Currency → S) :
    FaultsIn Supported (inner.onResponse env intoInit intoFinish) :=
  faultsIn_bind _ _ _ (nativeAdd_supported _ _ _) fun timeout _ =>
    tryComplete_supported env henv ⟨inner.amountIn, timeout⟩ _ _

variable [DecidableEq Currency]

theorem transferOut_supported (env : Env Currency) (henv : Buildable env)
    (inner : TransferOut task) (into : TransferOut task → S) (swapExactIn : S) :
    FaultsIn Supported (inner.onResponse env into swapExactIn) := by
  unfold TransferOut.onResponse
  split_ifs with hlast
  · exact enterNext_supported _ _ (submit_supported env henv _)
  · exact enterNext_supported _ _ (submitTransfer_supported env henv _)

theorem visitResponses_supported (client : SwapClient Data Msg) (outCurrency : Currency)
    (coins : List (CoinDTO Currency)) (responses : List Msg) (filtered swapped : ℕ) :
    FaultsIn Supported (visitResponses client outCurrency coins responses filtered swapped) := by
  induction coins generalizing responses filtered swapped with
  | nil => exact faultsIn_pure _ _
  | cons coin coins ih =>
    unfold visitResponses
    split
    · exact faultsIn_bind _ _ _ (nativeAdd_supported _ _ _) fun _ _ => ih _ _ _
    · apply faultsIn_bind _ _ _ (faultsIn_okOr _ _ _ swap_supported)
      intro parsed _
      exact faultsIn_bind _ _ _ (nativeAdd_supported _ _ _) fun _ _ => ih _ _ _

theorem decodeResponse_supported (client : SwapClient Data Msg) (task : SwapTask Currency)
    (data : Data) : FaultsIn Supported (decodeResponse client task data) := by
  apply faultsIn_bind _ _ _ (faultsIn_okOr _ _ _ platform_supported)
  intro responses _
  apply faultsIn_bind _ _ _ (visitResponses_supported client task.outCurrency task.coins _ _ _)
  intro amounts _
  exact faultsIn_bind _ _ _ (nativeAdd_supported _ _ _) fun _ _ => faultsIn_pure _ _

theorem swapResponse_supported (client : SwapClient Data Msg) (env : Env Currency)
    (henv : Buildable env) (response : Data) :
    FaultsIn Supported (State.onSwapResponse client env task response) :=
  faultsIn_bind _ _ _ (decodeResponse_supported client task response) fun _ _ =>
    enterNext_supported _ _ (submitTransfer_supported env henv _)

theorem deliver_supported (client : SwapClient Data Msg) (env : Env Currency) (henv : Buildable env)
    (operation : String) (s : State Data task) (h : supports s .inner = true) :
    FaultsIn Supported (s.deliver client env operation) := by
  cases s with
  | transferOutRespDelivery handler response => exact transferOut_supported env henv handler _ _
  | swapExactInRespDelivery response => exact swapResponse_supported client env henv response
  | transferInInitRespDelivery handler response => exact transferIn_supported env henv handler _ _
  | _ => cases h

theorem handle_supported (client : SwapClient Data Msg) (env : Env Currency) (henv : Buildable env)
    (s : State Data task) (input : Input Data) (h : supports s input = true) :
    FaultsIn Supported (s.handle client env input) := by
  cases input with
  | openIca version => cases s <;> cases h
  | response data =>
    cases s with
    | transferOut inner => exact faultsIn_pure _ _
    | swapExactIn => exact faultsIn_pure _ _
    | transferInInit inner => exact faultsIn_pure _ _
    | _ => cases h
  | error =>
    cases s with
    | transferOut inner => exact enterNext_supported _ _ (submitTransfer_supported env henv _)
    | _ => cases h
  | timeout =>
    cases s with
    | transferOut inner => exact enterNext_supported _ _ (submitTransfer_supported env henv _)
    | swapExactIn => exact enterNext_supported _ _ (submit_supported env henv _)
    | transferInInit inner => exact enterNext_supported _ _ (submitTransfer_supported env henv _)
    | _ => cases h
  | inner => exact deliver_supported client env henv _ s h
  | innerContinue => cases s <;> cases h
  | heal =>
    cases s with
    | swapExactIn => exact enterNext_supported _ _ (submit_supported env henv _)
    | transferInInit inner => exact transferIn_supported env henv inner _ _
    | transferInFinish inner => exact tryComplete_supported env henv inner _ _
    | _ => cases h
  | reply =>
    cases s with
    | transferOutRespDelivery handler response => exact setupAlarm_supported env _ _
    | swapExactInRespDelivery response => exact setupAlarm_supported env _ _
    | transferInInitRespDelivery handler response => exact setupAlarm_supported env _ _
    | _ => cases h
  | timeAlarm =>
    have hdelivered := deliver_supported client env henv "handle time alarm" s
    cases s with
    | transferInFinish inner => exact tryComplete_supported env henv inner _ _
    | transferOutRespDelivery handler response => exact hdelivered rfl
    | swapExactInRespDelivery response => exact hdelivered rfl
    | transferInInitRespDelivery handler response => exact hdelivered rfl
    | _ => cases h

end Nolus.SwapSupports
