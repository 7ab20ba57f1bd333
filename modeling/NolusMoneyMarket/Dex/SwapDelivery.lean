import NolusMoneyMarket.Dex.Moves
import NolusMoneyMarket.Dex.RespDelivery

/-! # The responses of a swap task

The states of a swap task that have a response to deliver handle nothing but its
delivery, hence each response that is stored on the way of a swap is applied
once, by the state it is for. -/

set_option autoImplicit false

namespace Nolus.SwapDelivery
open Nolus.Fallible Nolus.Runs Nolus.Redelivery Nolus.SwapTasks
open Nolus.RespDelivery hiding State Handled

variable {Currency Data Msg S D : Type}

variable {task : SwapTask Currency}

namespace Local

open OutLocal

def delivery : State Data task → Option (State Data task)
  | .transferOutRespDelivery handler response => some (.transferOutRespDelivery handler response)
  | .swapExactInRespDelivery response => some (.swapExactInRespDelivery response)
  | .transferInInitRespDelivery handler response =>
    some (.transferInInitRespDelivery handler response)
  | _ => none

variable [DecidableEq Currency]

theorem handle_forwards (client : SwapClient Data Msg) (env : Env Currency) (s : State Data task)
    (input : Input Data) (h : input = .reply → delivery s = none) :
    Forwards delivery (s.handle client env input) := by
  intro messages next d hx hd
  have hmoves : SwapMoves.Local.Moves s input messages next :=
    SwapMoves.Local.handle_arrives client env s input _ hx
  cases hmoves with
  | transferOutResponse => rfl
  | swapResponse => rfl
  | transferInResponse => rfl
  | reply =>
    rw [h rfl] at hd
    cases hd
  | _ => cases hd

def applied (client : SwapClient Data Msg) (env : Env Currency) (stored : State Data task) :
    Outcome DexError (Handled Data task) :=
  stored.onInner client env

theorem sound (client : SwapClient Data Msg) :
    Sound (State.handle client) (delivery : State Data task → Option (State Data task))
      (applied client) fun _ => .inner := by
  constructor
  · intro env s input h
    exact handle_forwards client env s input h
  · intro env s d input hd hout
    cases input with
    | inner => cases hout
    | innerContinue => cases hout
    | reply => cases hout
    | timeAlarm => cases hout
    | _ => cases s <;> first | (cases hd; done) | exact ⟨_, rfl⟩
  · intro env s d hd
    cases s with
    | transferOutRespDelivery handler response => exact .inl rfl
    | swapExactInRespDelivery response => exact .inl rfl
    | transferInInitRespDelivery handler response => exact .inl rfl
    | _ => cases hd
  · intro env s d hd
    cases s with
    | transferOutRespDelivery handler response =>
      cases hd
      exact ⟨rfl, rfl⟩
    | swapExactInRespDelivery response =>
      cases hd
      exact ⟨rfl, rfl⟩
    | transferInInitRespDelivery handler response =>
      cases hd
      exact ⟨rfl, rfl⟩
    | _ => cases hd

theorem stored_delivered_once (client : SwapClient Data Msg) (stored : State Data task)
    (w : World (State Data task) (State Data task) (Env Currency))
    (h : Reachable
      (Step (RespDelivery.client (State.handle client) delivery (applied client) fun _ => .inner))
      (JustStored (RespDelivery.client (State.handle client) delivery (applied client)
        fun _ => .inner) stored) w) :
    Waiting (RespDelivery.client (State.handle client) delivery (applied client) fun _ => .inner)
        stored w ∨
      AppliedOnce (RespDelivery.client (State.handle client) delivery (applied client)
        fun _ => .inner) stored w :=
  delivered_once (sound_reliable _ _ _ (fun _ => by simp) (sound client)) stored w h

end Local

namespace Remote

open OutRemote

def delivery : State Data task → Option (State Data task)
  | .openIcaRespDelivery version => some (.openIcaRespDelivery version)
  | .transferOutRespDelivery handler response => some (.transferOutRespDelivery handler response)
  | .swapExactInRespDelivery response => some (.swapExactInRespDelivery response)
  | _ => none

/-- The delivery of an opened account continues. -/
def message : State Data task → Input Data
  | .openIcaRespDelivery _ => .innerContinue
  | _ => .inner

theorem message_attempt (s : State Data task) : message s ≠ .reply := by
  cases s <;> simp [message]

variable [DecidableEq Currency]

theorem handle_forwards (client : SwapClient Data Msg) (env : Env Currency) (s : State Data task)
    (input : Input Data) (h : input = .reply → delivery s = none) :
    Forwards delivery (s.handle client env input) := by
  intro messages next d hx hd
  have hmoves : SwapMoves.Remote.Moves s input messages next :=
    SwapMoves.Remote.handle_arrives client env s input _ hx
  cases hmoves with
  | icaResponse => rfl
  | transferOutResponse => rfl
  | swapResponse => rfl
  | reply =>
    rw [h rfl] at hd
    cases hd
  | _ => cases hd

def applied (client : SwapClient Data Msg) (env : Env Currency) (stored : State Data task) :
    Outcome DexError (Handled Data task) :=
  stored.onTimeAlarm client env

theorem sound (client : SwapClient Data Msg) :
    Sound (State.handle client) (delivery : State Data task → Option (State Data task))
      (applied client) message := by
  constructor
  · intro env s input h
    exact handle_forwards client env s input h
  · intro env s d input hd hout
    cases input with
    | inner => cases hout
    | innerContinue => cases hout
    | reply => cases hout
    | timeAlarm => cases hout
    | _ => cases s <;> first | (cases hd; done) | exact ⟨_, rfl⟩
  · intro env s d hd
    cases s with
    | openIcaRespDelivery version => exact .inl rfl
    | transferOutRespDelivery handler response => exact .inl rfl
    | swapExactInRespDelivery response => exact .inl rfl
    | _ => cases hd
  · intro env s d hd
    cases s with
    | openIcaRespDelivery version =>
      cases hd
      exact ⟨rfl, rfl⟩
    | transferOutRespDelivery handler response =>
      cases hd
      exact ⟨rfl, rfl⟩
    | swapExactInRespDelivery response =>
      cases hd
      exact ⟨rfl, rfl⟩
    | _ => cases hd

theorem stored_delivered_once (client : SwapClient Data Msg) (stored : State Data task)
    (w : World (State Data task) (State Data task) (Env Currency))
    (h : Reachable
      (Step (RespDelivery.client (State.handle client) delivery (applied client) message))
      (JustStored (RespDelivery.client (State.handle client) delivery (applied client) message)
        stored) w) :
    Waiting (RespDelivery.client (State.handle client) delivery (applied client) message) stored
        w ∨
      AppliedOnce (RespDelivery.client (State.handle client) delivery (applied client) message)
        stored w :=
  delivered_once (sound_reliable _ _ _ message_attempt (sound client)) stored w h

end Remote

end Nolus.SwapDelivery
