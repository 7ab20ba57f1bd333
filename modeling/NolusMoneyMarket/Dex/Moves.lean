import NolusMoneyMarket.Dex.OutLocal
import NolusMoneyMarket.Dex.OutRemote

/-! # What the states of a swap do

All that a handled input may send out and lead to, state by state, for both kinds
of swap. Whatever is kept along a swap is read off here. -/

set_option autoImplicit false

namespace Nolus.SwapMoves
open Nolus.Fallible Nolus.SwapTasks

variable {Currency Data Msg S : Type}

def Yields (P : HandlerResult Currency S → Prop) (x : Outcome DexError (HandlerResult Currency S)) :
    Prop :=
  ∀ result, x = .ok result → P result

section Yielding

variable {P : HandlerResult Currency S → Prop}

theorem yields_err (operation : String) : Yields P (err operation) := by
  intro result h
  exact absurd h (failing_ok _ _)

theorem yields_pure (result : HandlerResult Currency S) (h : P result) : Yields P (pure result) :=
  returnsIn_pure P result h

theorem yields_bind {α : Type} (x : Outcome DexError α)
    (f : α → Outcome DexError (HandlerResult Currency S)) (h : ∀ a, Yields P (f a)) :
    Yields P (x >>= f) :=
  returnsIn_bind P x f fun a _ => h a

theorem yields_forward (next : S) (h : P (.continue_ [.forwardToInner] next)) :
    Yields P (forwardToInner next) :=
  yields_pure _ h

theorem yields_alarm (env : Env Currency) (delay : ℕ) (next : S)
    (h : ∀ forr, P (.continue_ [.setupAlarm forr] next)) :
    Yields P (setupAlarm env delay next) := by
  intro result hx
  obtain ⟨-, rfl⟩ := (setupAlarm_ok env delay next result).1 hx
  exact h _

theorem yields_submit (env : Env Currency) (request : Request Currency) (next : S)
    (h : P (.continue_ [.request request] next)) :
    Yields P (enterNext (submit env request) next) := by
  intro result hx
  obtain ⟨-, rfl⟩ := (enter_submit_ok env request next result).1 hx
  exact h

theorem yields_transfer (env : Env Currency) (request : Request Currency) (next : S)
    (h : P (.continue_ [.request request] next)) :
    Yields P (enterNext (submitTransfer env request) next) := by
  intro result hx
  obtain ⟨-, rfl⟩ := (enter_transfer_ok env request next result).1 hx
  exact h

theorem yields_out {task : SwapTask Currency} (env : Env Currency) (inner : TransferOut task)
    (into : TransferOut task → S) (h : P (.continue_ [.request inner.request] (into inner))) :
    Yields P (inner.enter env into) :=
  yields_transfer env inner.request (into inner) h

theorem yields_in (env : Env Currency) (inner : TransferInInit Currency)
    (into : TransferInInit Currency → S)
    (h : P (.continue_ [.request inner.request] (into inner))) :
    Yields P (inner.enter env into) :=
  yields_transfer env inner.request (into inner) h

theorem yields_complete (env : Env Currency) (inner : TransferInFinish Currency)
    (intoInit : TransferInInit Currency → S) (into : TransferInFinish Currency → S)
    (hfinish : P (.finished inner.amountIn))
    (hagain : P (.continue_ [.request (.transferIn inner.amountIn)] (intoInit ⟨inner.amountIn⟩)))
    (hpoll : ∀ forr, P (.continue_ [.setupAlarm forr] (into inner))) :
    Yields P (inner.tryComplete env intoInit into) := by
  apply yields_bind
  intro received
  split
  · exact yields_pure _ hfinish
  · unfold TransferInFinish.tryAgain
    split
    · exact yields_in env ⟨inner.amountIn⟩ intoInit hagain
    · exact yields_alarm env _ _ hpoll

theorem yields_received (env : Env Currency) (inner : TransferInInit Currency)
    (intoInit : TransferInInit Currency → S) (intoFinish : TransferInFinish Currency → S)
    (hfinish : P (.finished inner.amountIn))
    (hagain : P (.continue_ [.request (.transferIn inner.amountIn)] (intoInit ⟨inner.amountIn⟩)))
    (hpoll : ∀ timeout forr,
      P (.continue_ [.setupAlarm forr] (intoFinish ⟨inner.amountIn, timeout⟩))) :
    Yields P (inner.onResponse env intoInit intoFinish) :=
  yields_bind _ _ fun timeout =>
    yields_complete env ⟨inner.amountIn, timeout⟩ intoInit intoFinish hfinish hagain (hpoll timeout)

theorem yields_sent [DecidableEq Currency] {task : SwapTask Currency} (env : Env Currency)
    (inner : TransferOut task) (into : TransferOut task → S) (swapExactIn : S)
    (hnext : ∀ h, P (.continue_ [.request (inner.next h).request] (into (inner.next h))))
    (hswap : inner.lastCoin → P (.continue_ [.request task.swapRequest] swapExactIn)) :
    Yields P (inner.onResponse env into swapExactIn) := by
  unfold TransferOut.onResponse
  split_ifs with hlast
  · exact yields_submit env _ _ (hswap hlast)
  · exact yields_out env _ into (hnext hlast)

end Yielding

def Retries (input : Input Data) : Prop := input = .timeout ∨ input = .error

def Delivers (input : Input Data) : Prop := input = .inner ∨ input = .timeAlarm

namespace Local

open OutLocal

variable {task : SwapTask Currency}

def stored : State Data task → Prop
  | .transferOutRespDelivery _ _ => True
  | .swapExactInRespDelivery _ => True
  | .transferInInitRespDelivery _ _ => True
  | _ => False

inductive Polls : State Data task → Input Data → CoinDTO Currency → Prop
  | delivered (handler : TransferInInit Currency) (response : Data) (input : Input Data) :
      Delivers input → Polls (.transferInInitRespDelivery handler response) input handler.amountIn
  | again (inner : TransferInFinish Currency) (input : Input Data) :
      input = .timeAlarm ∨ input = .heal → Polls (.transferInFinish inner) input inner.amountIn
  | healed (inner : TransferInInit Currency) : Polls (.transferInInit inner) .heal inner.amountIn

inductive Moves [DecidableEq Currency] :
    State Data task → Input Data → List (Message Currency) → State Data task → Prop
  | transferOutResponse (inner : TransferOut task) (data : Data) :
      Moves (.transferOut inner) (.response data) [.forwardToInner]
        (.transferOutRespDelivery inner data)
  | swapResponse (data : Data) :
      Moves .swapExactIn (.response data) [.forwardToInner] (.swapExactInRespDelivery data)
  | transferInResponse (inner : TransferInInit Currency) (data : Data) :
      Moves (.transferInInit inner) (.response data) [.forwardToInner]
        (.transferInInitRespDelivery inner data)
  | transferOutAgain (inner : TransferOut task) (input : Input Data) : Retries input →
      Moves (.transferOut inner) input [.request inner.request] (.transferOut inner)
  | swapAgain (input : Input Data) : input = .timeout ∨ input = .heal →
      Moves .swapExactIn input [.request task.swapRequest] .swapExactIn
  | transferInAgain (inner : TransferInInit Currency) :
      Moves (.transferInInit inner) .timeout [.request inner.request] (.transferInInit inner)
  | reply (s : State Data task) (forr : ℕ) : stored s → Moves s .reply [.setupAlarm forr] s
  | nextCoin (handler : TransferOut task) (response : Data) (h : ¬ handler.lastCoin)
      (input : Input Data) : Delivers input →
      Moves (.transferOutRespDelivery handler response) input
        [.request (handler.next h).request] (.transferOut (handler.next h))
  | swap (handler : TransferOut task) (response : Data) (input : Input Data) :
      handler.lastCoin → Delivers input →
      Moves (.transferOutRespDelivery handler response) input [.request task.swapRequest]
        .swapExactIn
  | swapped (response : Data) (amountOut : CoinDTO Currency) (input : Input Data) :
      Delivers input →
      Moves (.swapExactInRespDelivery response) input [.request (.transferIn amountOut)]
        (.transferInInit ⟨amountOut⟩)
  | sentAgain (s : State Data task) (input : Input Data) (amountIn : CoinDTO Currency) :
      Polls s input amountIn →
      Moves s input [.request (.transferIn amountIn)] (.transferInInit ⟨amountIn⟩)
  | polled (s : State Data task) (input : Input Data) (amountIn : CoinDTO Currency)
      (timeout forr : ℕ) : Polls s input amountIn →
      Moves s input [.setupAlarm forr] (.transferInFinish ⟨amountIn, timeout⟩)

variable [DecidableEq Currency]

def Arrives (s : State Data task) (input : Input Data) : Handled Data task → Prop
  | .continue_ messages next => Moves s input messages next
  | .finished amountOut => Polls s input amountOut

theorem deliver_arrives (client : SwapClient Data Msg) (env : Env Currency) (operation : String)
    (s : State Data task) (input : Input Data) (h : Delivers input) :
    Yields (Arrives s input) (s.deliver client env operation) := by
  cases s with
  | transferOutRespDelivery handler response =>
    exact yields_sent env handler _ _ (fun hnext => .nextCoin handler response hnext input h)
      (fun hlast => .swap handler response input hlast h)
  | swapExactInRespDelivery response =>
    exact yields_bind _ _ fun amountOut =>
      yields_in env ⟨amountOut⟩ _ (.swapped response amountOut input h)
  | transferInInitRespDelivery handler response =>
    have hpolls : Polls (.transferInInitRespDelivery handler response : State Data task) input
        handler.amountIn := .delivered handler response input h
    exact yields_received env handler _ _ hpolls (.sentAgain _ _ _ hpolls)
      (fun _ _ => .polled _ _ _ _ _ hpolls)
  | _ => exact yields_err _

theorem handle_arrives (client : SwapClient Data Msg) (env : Env Currency) (s : State Data task)
    (input : Input Data) : Yields (Arrives s input) (s.handle client env input) := by
  cases input with
  | openIca version => exact yields_err _
  | response data =>
    cases s with
    | transferOut inner => exact yields_forward _ (.transferOutResponse inner data)
    | swapExactIn => exact yields_forward _ (.swapResponse data)
    | transferInInit inner => exact yields_forward _ (.transferInResponse inner data)
    | _ => exact yields_err _
  | error =>
    cases s with
    | transferOut inner => exact yields_out env inner _ (.transferOutAgain inner _ (.inr rfl))
    | _ => exact yields_err _
  | timeout =>
    cases s with
    | transferOut inner => exact yields_out env inner _ (.transferOutAgain inner _ (.inl rfl))
    | swapExactIn => exact yields_submit env _ _ (.swapAgain _ (.inl rfl))
    | transferInInit inner => exact yields_in env inner _ (.transferInAgain inner)
    | _ => exact yields_err _
  | inner => exact deliver_arrives client env _ s .inner (.inl rfl)
  | innerContinue => cases s <;> exact yields_err _
  | heal =>
    cases s with
    | swapExactIn => exact yields_submit env _ _ (.swapAgain _ (.inr rfl))
    | transferInInit inner =>
      have hpolls : Polls (.transferInInit inner : State Data task) .heal inner.amountIn :=
        .healed inner
      exact yields_received env inner _ _ hpolls (.sentAgain _ _ _ hpolls)
        (fun _ _ => .polled _ _ _ _ _ hpolls)
    | transferInFinish inner =>
      have hpolls : Polls (.transferInFinish inner : State Data task) .heal inner.amountIn :=
        .again inner _ (.inr rfl)
      exact yields_complete env inner _ _ hpolls (.sentAgain _ _ _ hpolls)
        (fun _ => .polled _ _ _ _ _ hpolls)
    | _ => exact yields_err _
  | reply =>
    cases s with
    | transferOutRespDelivery handler response =>
      exact yields_alarm env _ _ fun forr => .reply _ forr trivial
    | swapExactInRespDelivery response =>
      exact yields_alarm env _ _ fun forr => .reply _ forr trivial
    | transferInInitRespDelivery handler response =>
      exact yields_alarm env _ _ fun forr => .reply _ forr trivial
    | _ => exact yields_err _
  | timeAlarm =>
    cases s with
    | transferInFinish inner =>
      have hpolls : Polls (.transferInFinish inner : State Data task) .timeAlarm inner.amountIn :=
        .again inner _ (.inl rfl)
      exact yields_complete env inner _ _ hpolls (.sentAgain _ _ _ hpolls)
        (fun _ => .polled _ _ _ _ _ hpolls)
    | _ => exact deliver_arrives client env "handle time alarm" _ .timeAlarm (.inr rfl)

end Local

namespace Remote

open OutRemote

variable {task : SwapTask Currency}

def stored : State Data task → Prop
  | .openIcaRespDelivery _ => True
  | .transferOutRespDelivery _ _ => True
  | .swapExactInRespDelivery _ => True
  | _ => False

inductive Moves [DecidableEq Currency] :
    State Data task → Input Data → List (Message Currency) → State Data task → Prop
  | icaResponse (version : String) :
      Moves .openIca (.openIca version) [.forwardToInner] (.openIcaRespDelivery version)
  | transferOutResponse (inner : TransferOut task) (data : Data) :
      Moves (.transferOut inner) (.response data) [.forwardToInner]
        (.transferOutRespDelivery inner data)
  | swapResponse (data : Data) :
      Moves .swapExactIn (.response data) [.forwardToInner] (.swapExactInRespDelivery data)
  | transferOutAgain (inner : TransferOut task) (input : Input Data) : Retries input →
      Moves (.transferOut inner) input [.request inner.request] (.transferOut inner)
  | swapAgain (input : Input Data) : input = .timeout ∨ input = .heal →
      Moves .swapExactIn input [.request task.swapRequest] .swapExactIn
  | reply (s : State Data task) (forr : ℕ) : stored s → Moves s .reply [.setupAlarm forr] s
  | opened (version : String) (input : Input Data) : input = .innerContinue ∨ input = .timeAlarm →
      Moves (.openIcaRespDelivery version) input [.request (TransferOut.new task).request]
        (.transferOut (TransferOut.new task))
  | nextCoin (handler : TransferOut task) (response : Data) (h : ¬ handler.lastCoin)
      (input : Input Data) : Delivers input →
      Moves (.transferOutRespDelivery handler response) input
        [.request (handler.next h).request] (.transferOut (handler.next h))
  | swap (handler : TransferOut task) (response : Data) (input : Input Data) :
      handler.lastCoin → Delivers input →
      Moves (.transferOutRespDelivery handler response) input [.request task.swapRequest]
        .swapExactIn

def Swapped (s : State Data task) (input : Input Data) : Prop :=
  (∃ response, s = .swapExactInRespDelivery response) ∧ Delivers input

variable [DecidableEq Currency]

def Arrives (s : State Data task) (input : Input Data) : Handled Data task → Prop
  | .continue_ messages next => Moves s input messages next
  | .finished _ => Swapped s input

theorem opened_arrives (env : Env Currency) (version : String) (input : Input Data)
    (h : input = .innerContinue ∨ input = .timeAlarm) :
    Yields (Arrives (.openIcaRespDelivery version : State Data task) input)
      (State.onAccountOpened env task version) := by
  have hentered : Yields (Arrives (.openIcaRespDelivery version : State Data task) input)
      ((TransferOut.new task).enter env .transferOut) :=
    yields_out env (TransferOut.new task) _ (.opened version input h)
  exact yields_bind _ _ fun _ => hentered

theorem sent_arrives (env : Env Currency) (handler : TransferOut task) (response : Data)
    (input : Input Data) (h : Delivers input) :
    Yields (Arrives (.transferOutRespDelivery handler response) input)
      (handler.onResponse env .transferOut .swapExactIn) :=
  yields_sent env handler _ _ (fun hnext => .nextCoin handler response hnext input h)
    (fun hlast => .swap handler response input hlast h)

theorem swapped_arrives (client : SwapClient Data Msg) (response : Data) (input : Input Data)
    (h : Delivers input) :
    Yields (Arrives (.swapExactInRespDelivery response : State Data task) input)
      (State.onSwapResponse client task response) :=
  yields_bind _ _ fun _ => yields_pure _ ⟨⟨response, rfl⟩, h⟩

theorem handle_arrives (client : SwapClient Data Msg) (env : Env Currency) (s : State Data task)
    (input : Input Data) : Yields (Arrives s input) (s.handle client env input) := by
  cases input with
  | openIca version =>
    cases s with
    | openIca => exact yields_forward _ (.icaResponse version)
    | _ => exact yields_err _
  | response data =>
    cases s with
    | transferOut inner => exact yields_forward _ (.transferOutResponse inner data)
    | swapExactIn => exact yields_forward _ (.swapResponse data)
    | _ => exact yields_err _
  | error =>
    cases s with
    | transferOut inner => exact yields_out env inner _ (.transferOutAgain inner _ (.inr rfl))
    | _ => exact yields_err _
  | timeout =>
    cases s with
    | transferOut inner => exact yields_out env inner _ (.transferOutAgain inner _ (.inl rfl))
    | swapExactIn => exact yields_submit env _ _ (.swapAgain _ (.inl rfl))
    | _ => exact yields_err _
  | inner =>
    cases s with
    | transferOutRespDelivery handler response => exact sent_arrives env handler response _ (.inl rfl)
    | swapExactInRespDelivery response => exact swapped_arrives client response _ (.inl rfl)
    | _ => exact yields_err _
  | innerContinue =>
    cases s with
    | openIcaRespDelivery version => exact opened_arrives env version _ (.inl rfl)
    | _ => exact yields_err _
  | heal =>
    cases s with
    | swapExactIn => exact yields_submit env _ _ (.swapAgain _ (.inr rfl))
    | _ => exact yields_err _
  | reply =>
    cases s with
    | openIcaRespDelivery version => exact yields_alarm env _ _ fun forr => .reply _ forr trivial
    | transferOutRespDelivery handler response =>
      exact yields_alarm env _ _ fun forr => .reply _ forr trivial
    | swapExactInRespDelivery response =>
      exact yields_alarm env _ _ fun forr => .reply _ forr trivial
    | _ => exact yields_err _
  | timeAlarm =>
    cases s with
    | openIcaRespDelivery version => exact opened_arrives env version _ (.inr rfl)
    | transferOutRespDelivery handler response => exact sent_arrives env handler response _ (.inr rfl)
    | swapExactInRespDelivery response => exact swapped_arrives client response _ (.inr rfl)
    | _ => exact yields_err _

end Remote

end Nolus.SwapMoves
