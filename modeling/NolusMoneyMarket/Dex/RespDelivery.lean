import NolusMoneyMarket.Base.Redelivery
import NolusMoneyMarket.Dex.Task

/-! # The delivery of responses

A response for a handler is stored together with it, and delivered by a message
of the contract to itself. The reply of a failed one sets up a time alarm, whose
handling delivers the response again. Nothing else is handled in between. -/

set_option autoImplicit false

namespace Nolus.RespDelivery
open Nolus.Fallible Nolus.Runs Nolus.Redelivery Nolus.SwapTasks

variable {Currency Data H R T S D Msg : Type}

structure ResponseDelivery (H R : Type) where
  handler : H
  response : R
deriving DecidableEq, Repr

inductive State (H R T : Type)
  | respDelivery (inner : ResponseDelivery H R)
  | other (inner : T)
deriving DecidableEq, Repr

inductive Handled (Currency H R T : Type)
  | continue_ (messages : List (Message Currency)) (next : T)
  | forwardToInner (handler : H) (response : R)
  | finished (amountOut : CoinDTO Currency)

abbrev Responded (Currency H R T : Type) := HandlerResult Currency (State H R T)

def Handled.respond : Handled Currency H R T → Outcome DexError (Responded Currency H R T)
  | .continue_ messages next => resContinue messages (.other next)
  | .forwardToInner handler response =>
    SwapTasks.forwardToInner (.respDelivery ⟨handler, response⟩)
  | .finished amountOut => pure (.finished amountOut)

structure Handler (Currency Data H R T : Type) where
  onOpenIca : Env Currency → H → String → Outcome DexError (Handled Currency H R T)
  onResponse : Env Currency → H → Data → Outcome DexError (Handled Currency H R T)
  setupAlarm : H → ℕ → Outcome DexError Unit

structure DeliveryAdapter (Currency Data H R T : Type) where
  deliver : Handler Currency Data H R T → Env Currency → H → R →
    Outcome DexError (Handled Currency H R T)
  deliverContinue : Handler Currency Data H R T → Env Currency → H → R →
    Outcome DexError (Handled Currency H R T)
  deliverAgain : Handler Currency Data H R T → Env Currency → H → R →
    Outcome DexError (Handled Currency H R T)

def responseDeliveryAdapter : DeliveryAdapter Currency Data H Data T where
  deliver handlers := handlers.onResponse
  deliverContinue _ _ _ _ := failing (.unsupportedOperation "deliver ica_open response")
  deliverAgain handlers := handlers.onResponse

namespace ResponseDelivery

def setupNextDelivery (handlers : Handler Currency Data H R T) (env : Env Currency)
    (self : ResponseDelivery H R) : Outcome DexError (Responded Currency H R T) := do
  handlers.setupAlarm self.handler (env.now + rightAfterNow)
  SwapTasks.setupAlarm env rightAfterNow (.respDelivery self)

def handle (adapter : DeliveryAdapter Currency Data H R T)
    (handlers : Handler Currency Data H R T) (env : Env Currency) (self : ResponseDelivery H R) :
    Input Data → Outcome DexError (Responded Currency H R T)
  | .openIca _ => err "handle open ica response"
  | .response _ => err "handle transaction response"
  | .error => err "handle transaction error"
  | .timeout => err "handle transaction timeout"
  | .inner => do
    let handled ← adapter.deliver handlers env self.handler self.response
    handled.respond
  | .innerContinue => do
    let handled ← adapter.deliverContinue handlers env self.handler self.response
    handled.respond
  | .heal => err "handle heal"
  | .reply => self.setupNextDelivery handlers env
  | .timeAlarm => do
    let handled ← adapter.deliverAgain handlers env self.handler self.response
    handled.respond

end ResponseDelivery

abbrev Others (Currency Data H R T : Type) :=
  Env Currency → T → Input Data → Outcome DexError (Handled Currency H R T)

def State.handle (adapter : DeliveryAdapter Currency Data H R T)
    (handlers : Handler Currency Data H R T) (others : Others Currency Data H R T)
    (env : Env Currency) (self : State H R T) (input : Input Data) :
    Outcome DexError (Responded Currency H R T) :=
  match self with
  | .respDelivery inner => inner.handle adapter handlers env input
  | .other inner => do
    let handled ← others env inner input
    handled.respond

def State.delivery : State H R T → Option (ResponseDelivery H R)
  | .respDelivery inner => some inner
  | .other _ => none

def forwards (messages : List (Message Currency)) : Bool :=
  messages.any fun message => match message with
    | .forwardToInner => true
    | _ => false

def alarms (messages : List (Message Currency)) : Bool :=
  messages.any fun message => match message with
    | .setupAlarm _ => true
    | _ => false

def took : Outcome DexError (HandlerResult Currency S) → Option (Taken S)
  | .ok (.continue_ messages next) => some ⟨some next, forwards messages, alarms messages⟩
  | .ok (.finished _) => some ⟨none, false, false⟩
  | .error _ => none

def outside : Input Data → Bool
  | .inner => false
  | .innerContinue => false
  | .reply => false
  | .timeAlarm => false
  | _ => true

/-- A contract by how it handles the inputs, which states have a response to deliver, what applying
one comes to, and with which message to itself. -/
def client (handle : Env Currency → S → Input Data → Outcome DexError (HandlerResult Currency S))
    (delivery : S → Option D) (apply : Env Currency → D → Outcome DexError (HandlerResult Currency S))
    (message : S → Input Data) : Client S D (Env Currency) (Input Data) where
  delivery := delivery
  apply env d := took (apply env d)
  onInner env s := took (handle env s (message s))
  onAlarm env s := took (handle env s .timeAlarm)
  onReply env s := took (handle env s .reply)
  onCall env s input := if outside input then took (handle env s input) else none

def Forwards (delivery : S → Option D) (x : Outcome DexError (HandlerResult Currency S)) : Prop :=
  ∀ messages next d, x = .ok (.continue_ messages next) → delivery next = some d →
    forwards messages = true

section Forwarding

variable {delivery : S → Option D}

/-- A state with a response to deliver handles nothing but its delivery, by applying it. -/
structure Sound (handle : Env Currency → S → Input Data →
      Outcome DexError (HandlerResult Currency S)) (delivery : S → Option D)
    (apply : Env Currency → D → Outcome DexError (HandlerResult Currency S))
    (message : S → Input Data) : Prop where
  forwards : ∀ env s input, (input = .reply → delivery s = none) →
    Forwards delivery (handle env s input)
  refuses : ∀ env s d input, delivery s = some d → outside input = true →
    ∃ e, handle env s input = .error e
  replies : ∀ env s d, delivery s = some d →
    (handle env s .reply = SwapTasks.setupAlarm env rightAfterNow s ∨
      ∃ e, handle env s .reply = .error e)
  delivers : ∀ env s d, delivery s = some d →
    handle env s (message s) = apply env d ∧ handle env s .timeAlarm = apply env d

theorem took_forwards (x : Outcome DexError (HandlerResult Currency S)) (t : Taken S) (d : D)
    (hx : Forwards delivery x) (ht : took x = some t) (hd : t.next.bind delivery = some d) :
    t.forwards = true := by
  unfold took at ht
  split at ht
  · cases ht
    exact hx _ _ d rfl hd
  · cases ht
    cases hd
  · cases ht

theorem alarm_took (env : Env Currency) (delay : ℕ) (next : S) (t : Taken S)
    (h : took (SwapTasks.setupAlarm env delay next) = some t) : t = ⟨some next, false, true⟩ := by
  cases hsent : SwapTasks.setupAlarm env delay next with
  | ok result =>
    obtain ⟨-, rfl⟩ := (setupAlarm_ok env delay next result).1 hsent
    rw [hsent] at h
    cases h
    rfl
  | error e =>
    rw [hsent] at h
    cases h

theorem sound_reliable (handle : Env Currency → S → Input Data →
      Outcome DexError (HandlerResult Currency S))
    (apply : Env Currency → D → Outcome DexError (HandlerResult Currency S))
    (message : S → Input Data) (hm : ∀ s, message s ≠ .reply)
    (h : Sound handle delivery apply message) :
    Reliable (client handle delivery apply message) := by
  constructor
  · intro env s t d ht hd
    rcases ht with ht | ht | ⟨input, ht⟩ | ⟨hnone, ht⟩
    · exact took_forwards _ t d (h.forwards env s _ fun he => absurd he (hm s)) ht hd
    · exact took_forwards _ t d (h.forwards env s _ fun he => by cases he) ht hd
    · simp only [client] at ht
      split_ifs at ht with hout
      refine took_forwards _ t d (h.forwards env s input fun he => ?_) ht hd
      subst he
      cases hout
    · exact took_forwards _ t d (h.forwards env s _ fun _ => hnone) ht hd
  · intro env s d input hd
    simp only [client]
    split_ifs with hout
    · obtain ⟨e, he⟩ := h.refuses env s d input hd hout
      rw [he]
      rfl
    · rfl
  · intro env s d t hd ht
    simp only [client] at ht
    rcases h.replies env s d hd with hreply | ⟨e, hreply⟩
    · rw [hreply] at ht
      exact alarm_took env _ s t ht
    · rw [hreply] at ht
      cases ht
  · intro env s d t hd ht
    obtain ⟨hinner, halarm⟩ := h.delivers env s d hd
    change took (handle env s (message s)) = some t ∨ took (handle env s .timeAlarm) = some t at ht
    rw [hinner, halarm, or_self] at ht
    exact ht

end Forwarding

abbrev Call (Currency H R T : Type) :=
  Env Currency → H → R → Outcome DexError (Handled Currency H R T)

def Call.respond (call : Call Currency H R T) (env : Env Currency)
    (delivery : ResponseDelivery H R) : Outcome DexError (Responded Currency H R T) := do
  let handled ← call env delivery.handler delivery.response
  handled.respond

section Delivering

variable (adapter : DeliveryAdapter Currency Data H R T) (handlers : Handler Currency Data H R T)
  (others : Others Currency Data H R T) (call : Call Currency H R T)
  (message : State H R T → Input Data)

/-- A contract whose responses are delivered with an adapter to a call of a handler, by the given
message to itself. -/
def deliveryClient : Client (State H R T) (ResponseDelivery H R) (Env Currency) (Input Data) :=
  client (State.handle adapter handlers others) State.delivery (Call.respond call) message

end Delivering

def sampleHandler : Handler ℕ ℕ ℕ ℕ ℕ where
  onOpenIca _ _ _ := failing .platform
  onResponse env handler response :=
    if env.now = 0 then failing .swap else pure (.continue_ [] (handler + response))
  setupAlarm _ _ := pure ()

def sampleOthers : Others ℕ ℕ ℕ ℕ ℕ := fun _ _ _ => failing .platform

def sampleEnv (now : ℕ) : Env ℕ := ⟨now, fun _ => none, fun _ => none, fun _ => true⟩

abbrev sampleClient : Client (State ℕ ℕ ℕ) (ResponseDelivery ℕ ℕ) (Env ℕ) (Input ℕ) :=
  deliveryClient responseDeliveryAdapter sampleHandler sampleOthers sampleHandler.onResponse
    fun _ => .inner

end Nolus.RespDelivery
