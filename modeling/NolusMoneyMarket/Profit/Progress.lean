import NolusMoneyMarket.Base.Handover
import NolusMoneyMarket.Dex.RespDelivery
import NolusMoneyMarket.Dex.Swap
import NolusMoneyMarket.Profit.Supports

/-! # The profit contract going on

What keeps the contract going is the answer to its request, the delivery of a
response to itself, or a time alarm, depending on its state. There is nobody who
could heal it. It gets stuck once it fails on an answer, for instance on the
error a swap is answered with, and in no other way. -/

set_option autoImplicit false

namespace Nolus.ProfitProgress
open Nolus.Fallible Nolus.Runs Nolus.Handover Nolus.SwapTasks Nolus.ProfitContract
open Nolus.Swapping (requested)
open Nolus.RespDelivery (forwards alarms)

variable {Addr Currency Data Msg : Type}

def dexMessages (messages : List (ProfitMessage Addr Currency)) : List (Message Currency) :=
  messages.filterMap fun message => match message with
    | .dex message => some message
    | .send _ _ => none

/-- The chain may turn down all but the call of the contract to itself, which is replied. -/
def refusable (messages : List (ProfitMessage Addr Currency)) : Bool :=
  messages.any fun message => match message with
    | .dex .forwardToInner => false
    | _ => true

def taken (response : Response Addr Currency Data) :
    Taken (State Addr Currency Data) (Request Currency) where
  next := response.nextState
  submitted := requested (dexMessages response.messages)
  forwards := forwards (dexMessages response.messages)
  alarms := alarms (dexMessages response.messages)

def accepted (env : ChainEnv Currency) :
    Outcome ContractError (Response Addr Currency Data) →
      Option (Taken (State Addr Currency Data) (Request Currency))
  | .ok response =>
    if env.refused && refusable response.messages then none else some (taken response)
  | .error _ => none

def Answers : SudoMsg Data → Request Currency → Prop
  | .response _, request => request ≠ .registerIca
  | .error, request => request ≠ .registerIca
  | .timeout, request => request ≠ .registerIca
  | .openAck _, request => request = .registerIca
  | .queryResult, _ => False

section Client

variable [DecidableEq Addr] [DecidableEq Currency]

/-- The contract and the time alarms call as the world has it, anybody else as they like. -/
def client (swapClient : SwapClient Data Msg) (nls : Currency) (access : Access Addr) :
    Client (State Addr Currency Data) (Request Currency) (SudoMsg Data) (ChainEnv Currency)
      (Addr × ExecuteMsg) where
  answers := Answers
  onAnswer env s input := accepted env (tryHandleNeutronMsg env s input)
  onInner env s :=
    accepted env (execute swapClient nls access access.contract env s .dexCallback)
  onReply env s := accepted env (reply env s)
  onAlarm env s :=
    accepted env (execute swapClient nls access access.timeAlarms env s .timeAlarm)
  onCall env s call :=
    if call.1 = access.contract ∨ call.1 = access.timeAlarms then none
    else accepted env (execute swapClient nls access call.1 env s call.2)

end Client

/-- What each state relies on. -/
def mechanism [DecidableEq Currency] : State Addr Currency Data → Mechanism (Request Currency)
  | .openIca _ => .answer .registerIca
  | .idle _ => .alarm
  | .buyBack _ _ (.transferOut inner) => .answer inner.request
  | .buyBack _ task .swapExactIn => .answer task.swapRequest
  | .buyBack _ _ (.transferInInit inner) => .answer inner.request
  | .buyBack _ _ (.transferInFinish _) => .alarm
  | .buyBack _ _ _ => .delivery

/-! ## What an answer or a reply takes -/

def Resubmits (env : ChainEnv Currency) (request : Request Currency) : Prop :=
  env.unbuildable request = none ∧ env.refused = false ∧
    ((∃ coins, request = .swap coins) ∨ env.now + ibcTimeout < 2 ^ timeBits)

def configOf : State Addr Currency Data → Config Addr
  | .openIca config => config
  | .idle config => config
  | .buyBack config _ _ => config

/-- Of the answers, an error is taken by a transfer out only. -/
def HeedsAnswer (env : ChainEnv Currency) (s : State Addr Currency Data)
    (request : Request Currency) : SudoMsg Data → Prop
  | .response _ => True
  | .error => (∃ coinIndex coin, request = .transferOut coinIndex coin) ∧ Resubmits env request
  | .timeout => Resubmits env request
  | .openAck counterpartyVersion => env.parseRegisterResponse counterpartyVersion = true ∧
      env.refused = false ∧
      env.now + (configOf s).cadenceHours.toNat * hourNanos < 2 ^ timeBits
  | .queryResult => True

def HeedsReply (env : ChainEnv Currency) (_ : State Addr Currency Data) : Prop :=
  env.now + rightAfterNow < 2 ^ timeBits ∧ env.refused = false

/-! ## Each state's mechanism is armed on the way to it -/

theorem dexMessages_transfer (toTreasury : Addr) (amount : ℕ) :
    dexMessages (Profit.transferNls toTreasury amount : List (ProfitMessage Addr Currency)) =
      [] := by
  unfold Profit.transferNls
  split
  · rfl
  · rfl

theorem dexMessages_append (before after : List (ProfitMessage Addr Currency)) :
    dexMessages (before ++ after) = dexMessages before ++ dexMessages after :=
  List.filterMap_append

theorem idle_entered (env : ChainEnv Currency) (config : Config Addr)
    (entered : List (ProfitMessage Addr Currency)) :
    Idle.enter env config = .ok entered ↔
      env.now + config.cadenceHours.toNat * hourNanos < 2 ^ timeBits ∧
      entered = [.dex (.setupAlarm (env.now + config.cadenceHours.toNat * hourNanos))] := by
  simp only [Idle.enter, Idle.setupTimeAlarm, bind_ok, nativeAdd_ok, pure_ok]
  constructor
  · rintro ⟨_, ⟨hfits, rfl⟩, rfl⟩
    exact ⟨hfits, rfl⟩
  · rintro ⟨hfits, rfl⟩
    exact ⟨_, ⟨hfits, rfl⟩, rfl⟩

section Arming

variable [DecidableEq Currency]

def Armed (x : Outcome ContractError (Response Addr Currency Data)) : Prop :=
  ∀ response, x = .ok response → Arms (taken response) (mechanism response.nextState)

theorem armed_err (operation : String) :
    Armed (ProfitContract.err operation : Outcome ContractError (Response Addr Currency Data)) := by
  intro response h
  exact absurd h (failing_ok _ _)

theorem armed_bind {α : Type} (x : Outcome ContractError α)
    (f : α → Outcome ContractError (Response Addr Currency Data))
    (h : ∀ a, x = .ok a → Armed (f a)) : Armed (x >>= f) := by
  intro response hx
  obtain ⟨a, ha, hf⟩ := (bind_ok x f _).1 hx
  exact h a ha response hf

theorem idle_armed (config : Config Addr) (messages : List (ProfitMessage Addr Currency)) (forr : ℕ)
    (h : dexMessages messages = [.setupAlarm forr]) :
    Armed (pure ⟨messages, .idle config⟩ :
      Outcome ContractError (Response Addr Currency Data)) := by
  intro response hresponse
  cases hresponse
  simp [Arms, mechanism, taken, h, requested, Message.submitted, forwards, alarms]

theorem moves_armed (config : Config Addr) {task : SwapTask Currency}
    (s next : OutLocal.State Data task) (input : Input Data) (messages : List (Message Currency))
    (h : SwapMoves.Local.Moves s input messages next) :
    Armed (pure ⟨messages.map .dex, .buyBack config task next⟩ :
      Outcome ContractError (Response Addr Currency Data)) := by
  intro response hresponse
  cases hresponse
  cases h with
  | transferOutResponse inner data => exact ⟨rfl, .inl ⟨rfl, rfl⟩⟩
  | swapResponse data => exact ⟨rfl, .inl ⟨rfl, rfl⟩⟩
  | transferInResponse inner data => exact ⟨rfl, .inl ⟨rfl, rfl⟩⟩
  | reply s forr hstored =>
    cases s with
    | transferOutRespDelivery handler response => exact ⟨rfl, .inr ⟨rfl, rfl⟩⟩
    | swapExactInRespDelivery response => exact ⟨rfl, .inr ⟨rfl, rfl⟩⟩
    | transferInInitRespDelivery handler response => exact ⟨rfl, .inr ⟨rfl, rfl⟩⟩
    | _ => cases hstored
  | _ => exact ⟨rfl, rfl, rfl⟩

theorem finish_armed (env : ChainEnv Currency) (config : Config Addr) (nls : Currency) :
    Armed (BuyBack.finish env config nls :
      Outcome ContractError (Response Addr Currency Data)) := by
  refine armed_bind _ _ fun balanceNls _ => armed_bind _ _ fun entered hentered => ?_
  obtain ⟨-, rfl⟩ := (idle_entered env config entered).1 hentered
  apply idle_armed
  rw [dexMessages_append, dexMessages_transfer]
  rfl

theorem handled_armed (swapClient : SwapClient Data Msg) (env : ChainEnv Currency)
    (config : Config Addr) (task : SwapTask Currency) (s : OutLocal.State Data task)
    (input : Input Data) :
    Armed (BuyBack.handled env config task (s.handle swapClient env.toEnv input)) := by
  refine armed_bind _ _ fun result hresult => ?_
  have harrives := SwapMoves.Local.handle_arrives swapClient env.toEnv s input result
    ((mapError_ok _ _ _).1 hresult)
  cases result with
  | continue_ messages next => exact moves_armed config s next input messages harrives
  | finished amountOut => exact finish_armed env config task.outCurrency

theorem sendNls_armed (env : ChainEnv Currency) (config : Config Addr) (nls : ℕ) :
    Armed (Idle.sendNls env config nls : Outcome ContractError (Response Addr Currency Data)) := by
  refine armed_bind _ _ fun entered hentered => ?_
  obtain ⟨-, rfl⟩ := (idle_entered env config entered).1 hentered
  apply idle_armed
  rw [dexMessages_append, dexMessages_transfer]
  rfl

theorem tryEnterBuyBack_armed (env : ChainEnv Currency) (config : Config Addr) (nls : Currency)
    (balances : List (CoinDTO Currency)) :
    Armed (Idle.tryEnterBuyBack env config nls balances :
      Outcome ContractError (Response Addr Currency Data)) := by
  unfold Idle.tryEnterBuyBack
  split
  · refine armed_bind _ _ fun messages hmessages => ?_
    obtain ⟨-, -, rfl⟩ := (submitTransfer_ok _ _ _).1 ((mapError_ok _ _ _).1 hmessages)
    intro response hresponse
    cases hresponse
    exact ⟨rfl, rfl, rfl⟩
  · intro response hresponse
    exact absurd hresponse (panicking_ok _ _)

theorem idle_alarm_armed (env : ChainEnv Currency) (config : Config Addr) (nls : Currency) :
    Armed (Idle.onTimeAlarm env config nls :
      Outcome ContractError (Response Addr Currency Data)) := by
  refine armed_bind _ _ fun balances _ => armed_bind _ _ fun split _ => ?_
  split
  · exact sendNls_armed env config _
  · exact tryEnterBuyBack_armed env config nls _

theorem updated_armed (env : ChainEnv Currency) (config : Config Addr) (cadenceHours : UInt16) :
    Armed (Idle.tryUpdateConfig env config cadenceHours :
      Outcome ContractError (Response Addr Currency Data)) := by
  refine armed_bind _ _ fun messages hmessages => ?_
  obtain ⟨-, rfl⟩ := (idle_entered env (config.update cadenceHours) messages).1 hmessages
  exact idle_armed _ _ _ rfl

theorem opened_armed (env : ChainEnv Currency) (config : Config Addr)
    (counterpartyVersion : String) :
    Armed (OpenIca.onOpenIca env config counterpartyVersion :
      Outcome ContractError (Response Addr Currency Data)) := by
  refine armed_bind _ _ fun _ _ => armed_bind _ _ fun entered hentered => ?_
  obtain ⟨-, rfl⟩ := (idle_entered env config entered).1 hentered
  exact idle_armed _ _ _ rfl

theorem answer_armed (swapClient : SwapClient Data Msg) (env : ChainEnv Currency)
    (s : State Addr Currency Data) (input : SudoMsg Data) :
    Armed (tryHandleNeutronMsg env s input) := by
  cases input with
  | response data =>
    cases s with
    | buyBack config task inner =>
      exact handled_armed swapClient env config task inner (.response data)
    | _ => exact armed_err _
  | error =>
    cases s with
    | buyBack config task inner => exact handled_armed swapClient env config task inner .error
    | _ => exact armed_err _
  | timeout =>
    cases s with
    | buyBack config task inner => exact handled_armed swapClient env config task inner .timeout
    | _ => exact armed_err _
  | openAck counterpartyVersion =>
    cases s with
    | openIca config => exact opened_armed env config counterpartyVersion
    | idle config => exact armed_err _
    | buyBack config task inner =>
      exact handled_armed swapClient env config task inner (.openIca counterpartyVersion)
  | queryResult =>
    intro response hresponse
    exact absurd hresponse (panicking_ok _ _)

end Arming

/-! ## The answers and the replies that are taken -/

theorem accepted_some (env : ChainEnv Currency)
    (x : Outcome ContractError (Response Addr Currency Data))
    (t : Taken (State Addr Currency Data) (Request Currency)) :
    accepted env x = some t ↔ ∃ response, x = .ok response ∧
      (env.refused && refusable response.messages) = false ∧ taken response = t := by
  cases x with
  | error e => simp [accepted]
  | ok response => simp [accepted]

theorem accepted_armed [DecidableEq Currency] (env : ChainEnv Currency)
    (x : Outcome ContractError (Response Addr Currency Data))
    (t : Taken (State Addr Currency Data) (Request Currency)) (hx : Armed x)
    (ht : accepted env x = some t) : Arms t (mechanism t.next) := by
  obtain ⟨response, hresponse, -, rfl⟩ := (accepted_some env x t).1 ht
  exact hx response hresponse

theorem continued_accepted (env : ChainEnv Currency) (config : Config Addr)
    {task : SwapTask Currency} (x : Outcome DexError (OutLocal.Handled Data task)) (C : Prop)
    (messages : List (Message Currency)) (next : OutLocal.State Data task)
    (hx : ∀ result, x = .ok result ↔ C ∧ result = .continue_ messages next) :
    (∃ t, accepted env (BuyBack.handled env config task x) = some t) ↔
      C ∧ (env.refused &&
        refusable (messages.map .dex : List (ProfitMessage Addr Currency))) = false := by
  constructor
  · rintro ⟨t, ht⟩
    obtain ⟨response, hresponse, hrefused, -⟩ := (accepted_some env _ t).1 ht
    obtain ⟨result, hresult, hresponded⟩ := (bind_ok _ _ _).1 hresponse
    obtain ⟨hc, rfl⟩ := (hx result).1 ((mapError_ok _ _ _).1 hresult)
    cases hresponded
    exact ⟨hc, hrefused⟩
  · rintro ⟨hc, hrefused⟩
    have hresult := (hx _).2 ⟨hc, rfl⟩
    refine ⟨_, (accepted_some env _ _).2 ⟨⟨messages.map .dex, .buyBack config task next⟩, ?_,
      hrefused, rfl⟩⟩
    rw [hresult]
    rfl

theorem request_refusable (request : Request Currency) :
    refusable ([.request request].map .dex : List (ProfitMessage Addr Currency)) = true := rfl

theorem resubmits_transfer (env : ChainEnv Currency) (config : Config Addr)
    {task : SwapTask Currency} (request : Request Currency) (next : OutLocal.State Data task)
    (h : ∀ coins, request ≠ .swap coins) :
    Resubmits env request ↔ ∃ t, accepted env (BuyBack.handled env config task
      (enterNext (submitTransfer env.toEnv request) next)) = some t := by
  rw [continued_accepted env config _ _ _ next (enter_transfer_ok env.toEnv request next),
    request_refusable, Bool.and_true]
  constructor
  · rintro ⟨hbuilt, hrefused, ⟨coins, hswap⟩ | hfits⟩
    · exact absurd hswap (h coins)
    · exact ⟨⟨hfits, hbuilt⟩, hrefused⟩
  · rintro ⟨⟨hfits, hbuilt⟩, hrefused⟩
    exact ⟨hbuilt, hrefused, .inr hfits⟩

theorem resubmits_swap (env : ChainEnv Currency) (config : Config Addr) {task : SwapTask Currency}
    (coins : List (CoinDTO Currency)) (next : OutLocal.State Data task) :
    Resubmits env (.swap coins) ↔ ∃ t, accepted env (BuyBack.handled env config task
      (enterNext (submit env.toEnv (.swap coins)) next)) = some t := by
  rw [continued_accepted env config _ _ _ next (enter_submit_ok env.toEnv (.swap coins) next),
    request_refusable, Bool.and_true]
  constructor
  · rintro ⟨hbuilt, hrefused, -⟩
    exact ⟨hbuilt, hrefused⟩
  · rintro ⟨hbuilt, hrefused⟩
    exact ⟨hbuilt, hrefused, .inl ⟨coins, rfl⟩⟩

theorem response_accepted (env : ChainEnv Currency) (config : Config Addr)
    {task : SwapTask Currency} (next : OutLocal.State Data task) :
    ∃ t, accepted env (BuyBack.handled env config task (forwardToInner next)) = some t := by
  have hforward : ∀ result, (forwardToInner next : Outcome DexError (OutLocal.Handled Data task)) =
      .ok result ↔ True ∧ result = .continue_ [.forwardToInner] next := by
    intro result
    rw [forwardToInner_ok, true_and]
  exact (continued_accepted env config _ _ _ next hforward).2 ⟨trivial, Bool.and_false _⟩

theorem unsupported_accepted (env : ChainEnv Currency) (config : Config Addr)
    {task : SwapTask Currency} (operation : String) :
    ¬ ∃ t, accepted env (BuyBack.handled env config task
      (SwapTasks.err operation : Outcome DexError (OutLocal.Handled Data task))) = some t := by
  rintro ⟨t, ht⟩
  cases ht

theorem reply_accepted (env : ChainEnv Currency) (config : Config Addr) {task : SwapTask Currency}
    (s : OutLocal.State Data task) (next : OutLocal.State Data task) :
    HeedsReply env (.buyBack config task s : State Addr Currency Data) ↔
      ∃ t, accepted env (BuyBack.handled env config task
        (setupAlarm env.toEnv rightAfterNow next)) = some t := by
  have hsent : refusable ([.setupAlarm (env.now + rightAfterNow)].map .dex :
      List (ProfitMessage Addr Currency)) = true := rfl
  rw [continued_accepted env config _ _ _ next (setupAlarm_ok env.toEnv rightAfterNow next), hsent,
    Bool.and_true]
  exact Iff.rfl

theorem opened_accepted (env : ChainEnv Currency) (config : Config Addr)
    (counterpartyVersion : String) :
    HeedsAnswer env (.openIca config : State Addr Currency Data) .registerIca
        (.openAck counterpartyVersion : SudoMsg Data) ↔
      ∃ t, accepted env (OpenIca.onOpenIca env config counterpartyVersion :
        Outcome ContractError (Response Addr Currency Data)) = some t := by
  constructor
  · rintro ⟨hparse, hrefused, hfits⟩
    refine ⟨_, (accepted_some env _ _).2 ⟨⟨[.dex (.setupAlarm
      (env.now + config.cadenceHours.toNat * hourNanos))], .idle config⟩, ?_, ?_, rfl⟩⟩
    · exact (bind_ok _ _ _).2 ⟨(), (ensure_ok _ _ _).2 hparse,
        (bind_ok _ _ _).2 ⟨_, (idle_entered env config _).2 ⟨hfits, rfl⟩, rfl⟩⟩
    · rw [hrefused, Bool.false_and]
  · rintro ⟨t, ht⟩
    obtain ⟨response, hresponse, hrefused, -⟩ := (accepted_some env _ t).1 ht
    obtain ⟨_, hparse, hopened⟩ := (bind_ok _ _ _).1 hresponse
    obtain ⟨entered, hentered, hpure⟩ := (bind_ok _ _ _).1 hopened
    obtain ⟨hfits, rfl⟩ := (idle_entered env config entered).1 hentered
    cases hpure
    exact ⟨(ensure_ok _ _ _).1 hparse, (Bool.and_true _).symm.trans hrefused, hfits⟩

section Handing

variable [DecidableEq Currency]

theorem heeds_answer (env : ChainEnv Currency) (s : State Addr Currency Data)
    (request : Request Currency) (input : SudoMsg Data) (hm : mechanism s = .answer request)
    (ha : Answers input request) :
    HeedsAnswer env s request input ↔
      ∃ t, accepted env (tryHandleNeutronMsg env s input) = some t := by
  cases s with
  | idle config => cases hm
  | openIca config =>
    cases hm
    cases input with
    | openAck counterpartyVersion => exact opened_accepted env config counterpartyVersion
    | queryResult => exact ha.elim
    | _ => exact absurd rfl ha
  | buyBack config task inner =>
    cases inner with
    | transferOut inner =>
      cases hm
      cases input with
      | response data => exact iff_of_true trivial (response_accepted env config _)
      | error =>
        exact (and_iff_right ⟨_, _, rfl⟩).trans
          (resubmits_transfer env config inner.request (.transferOut inner) nofun)
      | timeout => exact resubmits_transfer env config inner.request (.transferOut inner) nofun
      | openAck counterpartyVersion => cases ha
      | queryResult => exact ha.elim
    | swapExactIn =>
      cases hm
      cases input with
      | response data => exact iff_of_true trivial (response_accepted env config _)
      | error => exact iff_of_false (fun h => nomatch h.1) (unsupported_accepted env config _)
      | timeout => exact resubmits_swap env config task.passed _
      | openAck counterpartyVersion => cases ha
      | queryResult => exact ha.elim
    | transferInInit inner =>
      cases hm
      cases input with
      | response data => exact iff_of_true trivial (response_accepted env config _)
      | error => exact iff_of_false (fun h => nomatch h.1) (unsupported_accepted env config _)
      | timeout => exact resubmits_transfer env config inner.request (.transferInInit inner) nofun
      | openAck counterpartyVersion => cases ha
      | queryResult => exact ha.elim
    | _ => cases hm

theorem heeds_reply (env : ChainEnv Currency) (s : State Addr Currency Data)
    (hm : mechanism s = .delivery) :
    HeedsReply env s ↔ ∃ t, accepted env (ProfitContract.reply env s) = some t := by
  cases s with
  | openIca config => cases hm
  | idle config => cases hm
  | buyBack config task inner =>
    cases inner with
    | transferOutRespDelivery handler response => exact reply_accepted env config _ _
    | swapExactInRespDelivery response => exact reply_accepted env config _ _
    | transferInInitRespDelivery handler response => exact reply_accepted env config _ _
    | _ => cases hm

variable [DecidableEq Addr]

/-- The owner reconfigures an idle contract only, and nobody else is let in. -/
theorem call_idle (swapClient : SwapClient Data Msg) (nls : Currency) (access : Access Addr)
    (env : ChainEnv Currency) (s : State Addr Currency Data) (call : Addr × ExecuteMsg)
    (t : Taken (State Addr Currency Data) (Request Currency))
    (h : (client swapClient nls access).onCall env s call = some t) :
    mechanism s = .alarm ∧ mechanism t.next = .alarm ∧ Arms t .alarm := by
  simp only [client] at h
  split_ifs at h with hsender
  obtain ⟨hcontract, halarms⟩ := not_or.1 hsender
  obtain ⟨response, hresponse, -, rfl⟩ := (accepted_some env _ t).1 h
  obtain ⟨sender, message⟩ := call
  cases message with
  | timeAlarm =>
    obtain ⟨_, hgranted, -⟩ := (bind_ok _ _ _).1 hresponse
    exact absurd ((ensure_ok _ _ _).1 hgranted) halarms
  | dexCallback =>
    obtain ⟨_, hgranted, -⟩ := (bind_ok _ _ _).1 hresponse
    exact absurd ((ensure_ok _ _ _).1 hgranted) hcontract
  | dexCallbackContinue =>
    obtain ⟨_, hgranted, -⟩ := (bind_ok _ _ _).1 hresponse
    exact absurd ((ensure_ok _ _ _).1 hgranted) hcontract
  | config cadenceHours =>
    obtain ⟨_, -, hupdated⟩ := (bind_ok _ _ _).1 hresponse
    cases s with
    | openIca config => exact absurd hupdated (failing_ok _ _)
    | buyBack config task inner => exact absurd hupdated (failing_ok _ _)
    | idle config =>
      have harmed := updated_armed env config cadenceHours response hupdated
      obtain ⟨messages, -, hpure⟩ := (bind_ok _ _ _).1 hupdated
      cases hpure
      exact ⟨rfl, rfl, harmed⟩

theorem hands_over (swapClient : SwapClient Data Msg) (nls : Currency) (access : Access Addr) :
    HandsOver (client swapClient nls access) mechanism HeedsAnswer HeedsReply where
  answer env s input t ht :=
    accepted_armed env _ t (answer_armed swapClient env s input) ht
  inner env s t ht := by
    refine accepted_armed env _ t (armed_bind _ _ fun _ _ => ?_) ht
    cases s with
    | buyBack config task inner => exact handled_armed swapClient env config task inner .inner
    | _ => exact armed_err _
  reply env s t ht := by
    refine accepted_armed env _ t ?_ ht
    cases s with
    | buyBack config task inner => exact handled_armed swapClient env config task inner .reply
    | _ => exact armed_err _
  alarm env s t ht := by
    refine accepted_armed env _ t (armed_bind _ _ fun _ _ => ?_) ht
    cases s with
    | openIca config => exact armed_err _
    | idle config => exact idle_alarm_armed env config nls
    | buyBack config task inner => exact handled_armed swapClient env config task inner .timeAlarm
  call := call_idle swapClient nls access
  heedsAnswer := heeds_answer
  heedsReply := heeds_reply

end Handing

/-! ## Going on -/

/-- An operation that may fail, yet not for the contract being in a state that does not have it. -/
def Handles (handle : ChainEnv Currency → Outcome ContractError (Response Addr Currency Data)) :
    Prop :=
  ∀ env, SwapSupports.Buildable env.toEnv → FaultsIn ProfitSupports.Supported (handle env)

theorem granted_handles [DecidableEq Addr] (grantedTo : Addr)
    (handle : ChainEnv Currency → Outcome ContractError (Response Addr Currency Data))
    (h : Handles handle) :
    Handles fun env => (do
      accessCheck grantedTo grantedTo
      handle env) := by
  intro env henv
  apply faultsIn_bind _ _ _
    (faultsIn_ensure _ _ _ fun _ => ProfitSupports.unauthorized_supported)
  exact fun _ _ => h env henv

section Handling

variable [DecidableEq Currency]

theorem answer_handles (swapClient : SwapClient Data Msg) (s : State Addr Currency Data)
    (request : Request Currency) (hm : mechanism s = .answer request) (input : SudoMsg Data)
    (ha : Answers input request) (he : input ≠ .error) :
    Handles fun env => tryHandleNeutronMsg env s input := by
  intro env henv
  cases s with
  | idle config => cases hm
  | openIca config =>
    cases hm
    cases input with
    | openAck counterpartyVersion =>
      exact ProfitSupports.opened_supported env config counterpartyVersion
    | queryResult => exact ha.elim
    | _ => exact absurd rfl ha
  | buyBack config task inner =>
    have hhandled := ProfitSupports.handled_supported swapClient env henv config task inner
    cases input with
    | error => exact absurd rfl he
    | queryResult => exact ha.elim
    | openAck counterpartyVersion => cases inner <;> cases hm <;> cases ha
    | response data =>
      cases inner with
      | transferOut inner => exact hhandled (.response data) rfl
      | swapExactIn => exact hhandled (.response data) rfl
      | transferInInit inner => exact hhandled (.response data) rfl
      | _ => cases hm
    | timeout =>
      cases inner with
      | transferOut inner => exact hhandled .timeout rfl
      | swapExactIn => exact hhandled .timeout rfl
      | transferInInit inner => exact hhandled .timeout rfl
      | _ => cases hm

/-- The inputs of a delivery: by the message of the contract to itself, its reply, an alarm. -/
theorem delivery_handles (swapClient : SwapClient Data Msg) (nls : Currency)
    (env : ChainEnv Currency) (henv : SwapSupports.Buildable env.toEnv)
    (s : State Addr Currency Data) (hm : mechanism s = .delivery) :
    FaultsIn ProfitSupports.Supported (s.onInner swapClient env) ∧
      FaultsIn ProfitSupports.Supported (s.reply env) ∧
      FaultsIn ProfitSupports.Supported (s.onTimeAlarm swapClient nls env) := by
  cases s with
  | openIca config => cases hm
  | idle config => cases hm
  | buyBack config task inner =>
    have hhandled := ProfitSupports.handled_supported swapClient env henv config task inner
    cases inner with
    | transferOutRespDelivery handler response =>
      exact ⟨hhandled .inner rfl, hhandled .reply rfl, hhandled .timeAlarm rfl⟩
    | swapExactInRespDelivery response =>
      exact ⟨hhandled .inner rfl, hhandled .reply rfl, hhandled .timeAlarm rfl⟩
    | transferInInitRespDelivery handler response =>
      exact ⟨hhandled .inner rfl, hhandled .reply rfl, hhandled .timeAlarm rfl⟩
    | _ => cases hm

theorem alarm_handles (swapClient : SwapClient Data Msg) (nls : Currency) (env : ChainEnv Currency)
    (henv : SwapSupports.Buildable env.toEnv) (s : State Addr Currency Data)
    (hm : mechanism s = .alarm) :
    FaultsIn ProfitSupports.Supported (s.onTimeAlarm swapClient nls env) := by
  cases s with
  | openIca config => cases hm
  | idle config => exact ProfitSupports.idle_alarm_supported env henv config nls
  | buyBack config task inner =>
    cases inner with
    | transferInFinish inner =>
      exact ProfitSupports.handled_supported swapClient env henv config task
        (.transferInFinish inner) .timeAlarm rfl
    | _ => cases hm

def Started (w : World (State Addr Currency Data) (Request Currency)) : Prop :=
  ∃ config, w = ⟨.openIca config, [.registerIca], none, false⟩

theorem started_tended (w : World (State Addr Currency Data) (Request Currency)) (h : Started w) :
    Tended w (mechanism w.state) := by
  obtain ⟨config, rfl⟩ := h
  exact ⟨rfl, rfl, rfl⟩

end Handling

section GoingOn

variable [DecidableEq Addr] [DecidableEq Currency] (swapClient : SwapClient Data Msg)
  (nls : Currency) (access : Access Addr)

/-- Something is pending that the current state handles: a request by any answer but an error, the
message of the contract to itself, its reply, or the alarm. -/
def GoesOn (w : World (State Addr Currency Data) (Request Currency)) : Prop :=
  (∃ request ∈ w.unanswered, ∀ input : SudoMsg Data, Answers input request → input ≠ .error →
    Handles fun env => tryHandleNeutronMsg env w.state input) ∨
  (∃ before, w.selfCall = some (.inner before) ∧
    Handles fun env => execute swapClient nls access access.contract env w.state .dexCallback) ∨
  (∃ before, w.selfCall = some (.reply before) ∧
    Handles fun env => ProfitContract.reply env w.state) ∨
  (w.alarm = true ∧
    Handles fun env => execute swapClient nls access access.timeAlarms env w.state .timeAlarm)

theorem tended_goes_on (w : World (State Addr Currency Data) (Request Currency))
    (h : Tended w (mechanism w.state)) : GoesOn swapClient nls access w := by
  cases hm : mechanism w.state with
  | answer request =>
    rw [hm] at h
    have hin : request ∈ w.unanswered := by simp [h.1]
    exact .inl ⟨request, hin, answer_handles swapClient w.state request hm⟩
  | delivery =>
    rw [hm] at h
    have hdelivery := fun env henv =>
      delivery_handles swapClient nls env henv w.state hm
    rcases h.2 with ⟨hcall, -⟩ | ⟨-, halarm⟩
    · obtain ⟨call, hcall⟩ := Option.ne_none_iff_exists'.1 hcall
      cases call with
      | inner before =>
        exact .inr (.inl ⟨before, hcall,
          granted_handles access.contract _ fun env henv => (hdelivery env henv).1⟩)
      | reply before =>
        exact .inr (.inr (.inl ⟨before, hcall, fun env henv => (hdelivery env henv).2.1⟩))
    · exact .inr (.inr (.inr ⟨halarm,
        granted_handles access.timeAlarms _ fun env henv => (hdelivery env henv).2.2⟩))
  | alarm =>
    rw [hm] at h
    exact .inr (.inr (.inr ⟨h.2.2, granted_handles access.timeAlarms _ fun env henv =>
      alarm_handles swapClient nls env henv w.state hm⟩))

theorem stuck_stays (w : World (State Addr Currency Data) (Request Currency)) (h : Stuck w) :
    ¬ GoesOn swapClient nls access w := by
  obtain ⟨hu, hc, ha⟩ := h
  rintro (⟨request, hin, -⟩ | ⟨before, hcall, -⟩ | ⟨before, hcall, -⟩ | ⟨halarm, -⟩)
  · rw [hu] at hin
    cases hin
  · rw [hc] at hcall
    cases hcall
  · rw [hc] at hcall
    cases hcall
  · rw [ha] at halarm
    cases halarm

/-- As long as it heeds the answers and the replies the contract goes on, and each one it does not
heed gets it stuck. -/
theorem profit_goes_on (w : World (State Addr Currency Data) (Request Currency))
    (h : Reachable (HeededStep (client swapClient nls access) HeedsAnswer HeedsReply) Started w) :
    GoesOn swapClient nls access w ∧
      ∀ e w', Step (client swapClient nls access) w e w' →
        (GoesOn swapClient nls access w' ↔ Heeded HeedsAnswer HeedsReply w.state e) := by
  have hover := hands_over swapClient nls access
  have htended := reachable_tended hover Started started_tended w h
  refine ⟨tended_goes_on swapClient nls access w htended, fun e w' hs => ?_⟩
  obtain ⟨hgoes, hstuck⟩ := tended_step hover w e w' htended hs
  constructor
  · intro hgoes'
    by_contra hunheeded
    exact stuck_stays swapClient nls access w' (hstuck hunheeded) hgoes'
  · exact fun hheeded => tended_goes_on swapClient nls access w' (hgoes hheeded)

end GoingOn

abbrev sampleClient :
    Client (State ℕ ℕ (List ℕ)) (Request ℕ) (SudoMsg (List ℕ)) (ChainEnv ℕ) (ℕ × ExecuteMsg) :=
  client Swapping.sampleClient 0 ⟨3, 4, 5⟩

abbrev SampleStep :=
  HeededStep sampleClient HeedsAnswer HeedsReply

def sampleEnv : ChainEnv ℕ :=
  ⟨⟨0, fun _ => some 0, fun _ => none, fun _ => true⟩, some [⟨1, 100⟩], false⟩

def sampleBuyBack (inner : OutLocal.State (List ℕ) Swapping.sampleTask) : State ℕ ℕ (List ℕ) :=
  .buyBack ⟨1, 9⟩ Swapping.sampleTask inner

def sampleOut : TransferOut Swapping.sampleTask := TransferOut.new Swapping.sampleTask

theorem sample_opened : SampleStep ⟨.openIca ⟨1, 9⟩, [.registerIca], none, false⟩
    (.answer sampleEnv .registerIca (.openAck "")) ⟨.idle ⟨1, 9⟩, [], none, true⟩ := by
  constructor
  · exact Step.answer sampleEnv Request.registerIca [] [] (SudoMsg.openAck "") rfl rfl
  · exact ⟨rfl, rfl, by decide⟩

theorem sample_alarm : SampleStep ⟨.idle ⟨1, 9⟩, [], none, true⟩ (.alarm sampleEnv)
    ⟨sampleBuyBack (.transferOut sampleOut), [.transferOut 0 ⟨1, 100⟩], none, false⟩ :=
  ⟨Step.alarm sampleEnv rfl, trivial⟩

theorem sample_asked : (Request.transferOut 0 ⟨1, 100⟩ : Request ℕ) ≠ .registerIca := nofun

theorem sample_response :
    SampleStep ⟨sampleBuyBack (.transferOut sampleOut), [.transferOut 0 ⟨1, 100⟩], none, false⟩
      (.answer sampleEnv (.transferOut 0 ⟨1, 100⟩) (.response []))
      ⟨sampleBuyBack (.transferOutRespDelivery sampleOut []), [],
        some (.inner (sampleBuyBack (.transferOut sampleOut))), false⟩ := by
  constructor
  · exact Step.answer sampleEnv (Request.transferOut 0 ⟨1, 100⟩) [] [] (SudoMsg.response []) rfl
      sample_asked
  · trivial

def sampleSwapping : World (State ℕ ℕ (List ℕ)) (Request ℕ) :=
  ⟨sampleBuyBack .swapExactIn, [.swap [⟨1, 100⟩]], none, false⟩

theorem sample_delivery :
    SampleStep ⟨sampleBuyBack (.transferOutRespDelivery sampleOut []), [],
        some (.inner (sampleBuyBack (.transferOut sampleOut))), false⟩
      (.inner sampleEnv) sampleSwapping :=
  ⟨Step.inner sampleEnv _ rfl, trivial⟩

theorem sample_reachable : Reachable SampleStep Started sampleSwapping := by
  have hidle := run_one _ _ _ sample_opened
  have hout := Run.next _ _ _ _ _ hidle sample_alarm
  have hstored := Run.next _ _ _ _ _ hout sample_response
  exact ⟨_, _, ⟨⟨1, 9⟩, rfl⟩, Run.next _ _ _ _ _ hstored sample_delivery⟩

/-- A contract on its way from opening its account to swapping a coin. -/
theorem profit_goes_on_sample :
    GoesOn Swapping.sampleClient 0 ⟨3, 4, 5⟩ sampleSwapping ∧
      ∀ e w', Step sampleClient sampleSwapping e w' →
        (GoesOn Swapping.sampleClient 0 ⟨3, 4, 5⟩ w' ↔
          Heeded HeedsAnswer HeedsReply sampleSwapping.state e) :=
  profit_goes_on Swapping.sampleClient 0 ⟨3, 4, 5⟩ sampleSwapping sample_reachable

theorem swap_asked : (Request.swap [⟨1, 100⟩] : Request ℕ) ≠ .registerIca := nofun

/-- Nothing is left once the swap is answered with an error. -/
theorem failed_swap_stuck :
    ¬ ∀ w, Reachable (Step sampleClient) Started w →
      GoesOn Swapping.sampleClient 0 ⟨3, 4, 5⟩ w := by
  intro h
  have hfailed : Step sampleClient sampleSwapping (.answer sampleEnv (.swap [⟨1, 100⟩]) .error)
      ⟨sampleBuyBack .swapExactIn, [], none, false⟩ :=
    Step.answer sampleEnv (Request.swap [⟨1, 100⟩]) [] [] SudoMsg.error rfl swap_asked
  obtain ⟨w₀, ops, hstarted, hrun⟩ := sample_reachable
  have hsteps := run_mono (Step sampleClient) (fun _ _ _ hs => hs.1) _ _ _ hrun
  have hgoes := h _ ⟨w₀, _, hstarted, Run.next _ _ _ _ _ hsteps hfailed⟩
  exact stuck_stays Swapping.sampleClient 0 ⟨3, 4, 5⟩ _ ⟨rfl, rfl, rfl⟩ hgoes

end Nolus.ProfitProgress
