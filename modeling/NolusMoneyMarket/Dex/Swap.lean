import NolusMoneyMarket.Base.Requests
import NolusMoneyMarket.Dex.Moves

/-! # No double swap

A swap task together with the chains that answer its requests. A request leaves
the contract when a state is entered and stays unanswered until a response, an
error or a timeout comes for it; anybody may heal the contract in between. As
long as nobody heals a swap or a transfer in whose request is unanswered, the
requests take their turns, each answer reaches the state that asked, and no coin
is transferred out or swapped twice. -/

set_option autoImplicit false

namespace Nolus.Swapping
open Nolus.Fallible Nolus.Runs Nolus.Requests Nolus.SwapTasks

variable {Currency Data Msg S : Type}

def requested (messages : List (Message Currency)) : List (Request Currency) :=
  messages.filterMap Message.submitted

/-- The chain may turn down what a handler sends out, except for the call of the
contract to itself whose failure is replied. -/
def Refusable (messages : List (Message Currency)) : Prop :=
  ∃ message ∈ messages, message ≠ .forwardToInner

def outcome : Outcome DexError (HandlerResult Currency S) → Taken S (Request Currency) → Prop
  | .ok (.continue_ messages next), t =>
    t = .moved next (requested messages) ∨ t = .rejected ∧ Refusable messages
  | .ok (.finished _), t => t = .done ∨ t = .rejected
  | .error _, t => t = .rejected

def Answers : Input Data → Request Currency → Prop
  | .openIca _, request => request = .registerIca
  | .response _, request => request ≠ .registerIca
  | .error, request => request ≠ .registerIca
  | .timeout, request => request ≠ .registerIca
  | _, _ => False

def Prompts : Input Data → Prop
  | .inner => True
  | .innerContinue => True
  | .heal => True
  | .reply => True
  | .timeAlarm => True
  | _ => False

def executes : Input Data → Bool
  | .openIca _ => true
  | .response _ => true
  | _ => false

abbrev Handler (Currency Data S : Type) :=
  Env Currency → S → Input Data → Outcome DexError (HandlerResult Currency S)

def contract (handle : Handler Currency Data S) :
    Client S (Env Currency × Input Data) (Request Currency) where
  takes s input t := outcome (handle input.1 s input.2) t
  prompts input := Prompts input.2
  answers input := Answers input.2
  executes input := executes input.2

/-- Each coin is transferred out at one stage, all are swapped at another. -/
inductive Stage
  | transferOut (coinIndex : ℕ)
  | swap
deriving DecidableEq, Repr

def stage : Request Currency → Option Stage
  | .transferOut coinIndex _ => some (.transferOut coinIndex)
  | .swap _ => some .swap
  | _ => none

def height (coins : ℕ) : Stage → ℕ
  | .transferOut coinIndex => coinIndex
  | .swap => coins

/-- A handled message submits at most the request its next state awaits, and does
not lead below a floor. -/
def Advances (awaits : S → Option (Request Currency)) (rank : S → ℕ) (floor : ℕ)
    (x : Outcome DexError (HandlerResult Currency S)) : Prop :=
  ∀ messages next, x = .ok (.continue_ messages next) →
    (requested messages = [] ∨
      ∃ request, requested messages = [request] ∧ awaits next = some request) ∧
    floor ≤ rank next

abbrev Forces (Currency Data S : Type) := S → Env Currency × Input Data → Prop

structure Sound (handle : Handler Currency Data S) (awaits : S → Option (Request Currency))
    (forces : Forces Currency Data S) (rank : S → ℕ) (coins : ℕ) : Prop where
  advances : ∀ env s input, Advances awaits rank (rank s) (handle env s input)
  waits : ∀ env s input request, awaits s = some request → Prompts input →
    forces s (env, input) ∨ ∃ e, handle env s input = .error e
  awaited : ∀ s request k, awaits s = some request → stage request = some k →
    rank s = height coins k
  delivers : ∀ env s data request k, awaits s = some request → stage request = some k →
    ∃ next, handle env s (.response data) = forwardToInner next ∧ rank s < rank next

section Soundness

variable {handle : Handler Currency Data S} {awaits : S → Option (Request Currency)}
  {forces : Forces Currency Data S} {rank : S → ℕ} {coins : ℕ}

theorem moved_continues (x : Outcome DexError (HandlerResult Currency S)) (next : S)
    (submitted : List (Request Currency)) (h : outcome x (.moved next submitted)) :
    ∃ messages, x = .ok (.continue_ messages next) ∧ submitted = requested messages := by
  cases x with
  | error e => cases h
  | ok result =>
    cases result with
    | finished amountOut => rcases h with h | h <;> cases h
    | continue_ messages next' =>
      rcases h with h | ⟨h, _⟩
      · cases h
        exact ⟨messages, rfl, rfl⟩
      · cases h

theorem forwarded_moves (next : S) (t : Taken S (Request Currency))
    (h : outcome (forwardToInner next) t) : t = .moved next [] := by
  rcases h with h | ⟨_, message, hm, hne⟩
  · exact h
  · exact absurd (List.mem_singleton.1 hm) hne

theorem sound_disciplined (h : Sound handle awaits forces rank coins) :
    Disciplined (contract handle) awaits forces where
  submits s input next submitted ht := by
    obtain ⟨messages, hx, rfl⟩ := moved_continues _ next submitted ht
    exact (h.advances input.1 s input.2 messages next hx).1
  waits s input request t ha hp ht := by
    rcases h.waits input.1 s input.2 request ha hp with hforced | ⟨e, he⟩
    · exact .inr hforced
    · change outcome (handle input.1 s input.2) t at ht
      rw [he] at ht
      exact .inl ht

theorem sound_climbs (h : Sound handle awaits forces rank coins) :
    Climbs (contract handle) awaits stage rank (height coins) where
  awaited := h.awaited
  moves s input next submitted ht := by
    obtain ⟨messages, hx, _⟩ := moved_continues _ next submitted ht
    exact (h.advances input.1 s input.2 messages next hx).2
  executing s input request k t ha hk hans hex ht := by
    obtain ⟨env, input⟩ := input
    cases input with
    | openIca version =>
      obtain rfl : request = .registerIca := hans
      cases hk
    | response data =>
      obtain ⟨next, hx, hlt⟩ := h.delivers env s data request k ha hk
      change outcome (handle env s (.response data)) t at ht
      rw [hx] at ht
      exact .inr ⟨next, [], forwarded_moves next t ht, hlt⟩
    | _ => cases hex

end Soundness

namespace Local

open OutLocal

variable {task : SwapTask Currency}

def awaits [DecidableEq Currency] : State Data task → Option (Request Currency)
  | .transferOut inner => some inner.request
  | .swapExactIn => some task.swapRequest
  | .transferInInit inner => some inner.request
  | _ => none

/-- Healing acts in these states even though they await an answer. -/
def forces : State Data task → Env Currency × Input Data → Prop
  | .swapExactIn, (_, .heal) => True
  | .transferInInit _, (_, .heal) => True
  | _, _ => False

def rank : State Data task → ℕ
  | .transferOut inner => inner.coinIndex
  | .transferOutRespDelivery handler _ => handler.coinIndex + 1
  | .swapExactIn => task.coins.length
  | _ => task.coins.length + 1

theorem polls_rank (s : State Data task) (input : Input Data) (amountIn : CoinDTO Currency)
    (h : SwapMoves.Local.Polls s input amountIn) : rank s = task.coins.length + 1 := by
  cases h <;> rfl

variable [DecidableEq Currency]

theorem moves_advance (s next : State Data task) (input : Input Data)
    (messages : List (Message Currency)) (h : SwapMoves.Local.Moves s input messages next) :
    (requested messages = [] ∨
      ∃ request, requested messages = [request] ∧ awaits next = some request) ∧
    rank s ≤ rank next := by
  cases h with
  | transferOutResponse inner data => exact ⟨.inl rfl, Nat.le_succ _⟩
  | swapResponse data => exact ⟨.inl rfl, Nat.le_succ _⟩
  | transferInResponse inner data => exact ⟨.inl rfl, Nat.le_refl _⟩
  | transferOutAgain inner => exact ⟨.inr ⟨_, rfl, rfl⟩, Nat.le_refl _⟩
  | swapAgain => exact ⟨.inr ⟨_, rfl, rfl⟩, Nat.le_refl _⟩
  | transferInAgain inner => exact ⟨.inr ⟨_, rfl, rfl⟩, Nat.le_refl _⟩
  | reply => exact ⟨.inl rfl, Nat.le_refl _⟩
  | nextCoin handler => exact ⟨.inr ⟨_, rfl, rfl⟩, Nat.le_refl _⟩
  | swap handler => exact ⟨.inr ⟨_, rfl, rfl⟩, handler.index_in_range⟩
  | swapped response amountOut => exact ⟨.inr ⟨_, rfl, rfl⟩, Nat.le_refl _⟩
  | sentAgain _ _ amountIn hpolls =>
    exact ⟨.inr ⟨_, rfl, rfl⟩, Nat.le_of_eq (polls_rank s input amountIn hpolls)⟩
  | polled _ _ amountIn timeout forr hpolls =>
    exact ⟨.inl rfl, Nat.le_of_eq (polls_rank s input amountIn hpolls)⟩

theorem advances (client : SwapClient Data Msg) (env : Env Currency) (s : State Data task)
    (input : Input Data) :
    Advances awaits rank (rank s) (State.handle client env s input) :=
  fun messages next h =>
    moves_advance s next input messages (SwapMoves.Local.handle_arrives client env s input _ h)

/-- A state that awaits an answer refuses all it may be prompted with but healing. -/
theorem waits (client : SwapClient Data Msg) (env : Env Currency) (s : State Data task)
    (input : Input Data) (request : Request Currency) (ha : awaits s = some request)
    (hp : Prompts input) :
    forces s (env, input) ∨ ∃ e, State.handle client env s input = .error e := by
  cases s with
  | transferOut inner =>
    cases input with
    | openIca version => cases hp
    | response data => cases hp
    | error => cases hp
    | timeout => cases hp
    | _ => exact .inr ⟨_, rfl⟩
  | swapExactIn =>
    cases input with
    | openIca version => cases hp
    | response data => cases hp
    | error => cases hp
    | timeout => cases hp
    | heal => exact .inl trivial
    | _ => exact .inr ⟨_, rfl⟩
  | transferInInit inner =>
    cases input with
    | openIca version => cases hp
    | response data => cases hp
    | error => cases hp
    | timeout => cases hp
    | heal => exact .inl trivial
    | _ => exact .inr ⟨_, rfl⟩
  | _ => cases ha

theorem awaited (s : State Data task) (request : Request Currency) (k : Stage)
    (ha : awaits s = some request) (hk : stage request = some k) :
    rank s = height task.coins.length k := by
  cases s with
  | transferOut inner =>
    cases ha
    cases hk
    rfl
  | swapExactIn =>
    cases ha
    cases hk
    rfl
  | transferInInit inner =>
    cases ha
    cases hk
  | _ => cases ha

theorem delivers (client : SwapClient Data Msg) (env : Env Currency) (s : State Data task)
    (data : Data) (request : Request Currency) (k : Stage) (ha : awaits s = some request)
    (hk : stage request = some k) :
    ∃ next, State.handle client env s (.response data) = forwardToInner next ∧
      rank s < rank next := by
  cases s with
  | transferOut inner => exact ⟨_, rfl, Nat.lt_succ_self _⟩
  | swapExactIn => exact ⟨_, rfl, Nat.lt_succ_self _⟩
  | transferInInit inner =>
    cases ha
    cases hk
  | _ => cases ha

theorem sound (client : SwapClient Data Msg) (task : SwapTask Currency) :
    Sound (State.handle client) (@awaits _ Data task _) forces rank task.coins.length :=
  ⟨advances client, waits client, awaited, delivers client⟩

end Local

namespace Remote

open OutRemote

variable {task : SwapTask Currency}

def awaits [DecidableEq Currency] : State Data task → Option (Request Currency)
  | .openIca => some .registerIca
  | .transferOut inner => some inner.request
  | .swapExactIn => some task.swapRequest
  | _ => none

def forces : State Data task → Env Currency × Input Data → Prop
  | .swapExactIn, (_, .heal) => True
  | _, _ => False

def rank : State Data task → ℕ
  | .openIca => 0
  | .openIcaRespDelivery _ => 0
  | .transferOut inner => inner.coinIndex
  | .transferOutRespDelivery handler _ => handler.coinIndex + 1
  | .swapExactIn => task.coins.length
  | .swapExactInRespDelivery _ => task.coins.length + 1

variable [DecidableEq Currency]

theorem moves_advance (s next : State Data task) (input : Input Data)
    (messages : List (Message Currency)) (h : SwapMoves.Remote.Moves s input messages next) :
    (requested messages = [] ∨
      ∃ request, requested messages = [request] ∧ awaits next = some request) ∧
    rank s ≤ rank next := by
  cases h with
  | icaResponse version => exact ⟨.inl rfl, Nat.le_refl _⟩
  | transferOutResponse inner data => exact ⟨.inl rfl, Nat.le_succ _⟩
  | swapResponse data => exact ⟨.inl rfl, Nat.le_succ _⟩
  | transferOutAgain inner => exact ⟨.inr ⟨_, rfl, rfl⟩, Nat.le_refl _⟩
  | swapAgain => exact ⟨.inr ⟨_, rfl, rfl⟩, Nat.le_refl _⟩
  | reply => exact ⟨.inl rfl, Nat.le_refl _⟩
  | opened version => exact ⟨.inr ⟨_, rfl, rfl⟩, Nat.zero_le _⟩
  | nextCoin handler => exact ⟨.inr ⟨_, rfl, rfl⟩, Nat.le_refl _⟩
  | swap handler => exact ⟨.inr ⟨_, rfl, rfl⟩, handler.index_in_range⟩

theorem advances (client : SwapClient Data Msg) (env : Env Currency) (s : State Data task)
    (input : Input Data) :
    Advances awaits rank (rank s) (State.handle client env s input) :=
  fun messages next h =>
    moves_advance s next input messages (SwapMoves.Remote.handle_arrives client env s input _ h)

/-- A state that awaits an answer refuses all it may be prompted with but healing. -/
theorem waits (client : SwapClient Data Msg) (env : Env Currency) (s : State Data task)
    (input : Input Data) (request : Request Currency) (ha : awaits s = some request)
    (hp : Prompts input) :
    forces s (env, input) ∨ ∃ e, State.handle client env s input = .error e := by
  cases s with
  | openIca =>
    cases input with
    | openIca version => cases hp
    | response data => cases hp
    | error => cases hp
    | timeout => cases hp
    | _ => exact .inr ⟨_, rfl⟩
  | transferOut inner =>
    cases input with
    | openIca version => cases hp
    | response data => cases hp
    | error => cases hp
    | timeout => cases hp
    | _ => exact .inr ⟨_, rfl⟩
  | swapExactIn =>
    cases input with
    | openIca version => cases hp
    | response data => cases hp
    | error => cases hp
    | timeout => cases hp
    | heal => exact .inl trivial
    | _ => exact .inr ⟨_, rfl⟩
  | _ => cases ha

theorem awaited (s : State Data task) (request : Request Currency) (k : Stage)
    (ha : awaits s = some request) (hk : stage request = some k) :
    rank s = height task.coins.length k := by
  cases s with
  | openIca =>
    cases ha
    cases hk
  | transferOut inner =>
    cases ha
    cases hk
    rfl
  | swapExactIn =>
    cases ha
    cases hk
    rfl
  | _ => cases ha

theorem delivers (client : SwapClient Data Msg) (env : Env Currency) (s : State Data task)
    (data : Data) (request : Request Currency) (k : Stage) (ha : awaits s = some request)
    (hk : stage request = some k) :
    ∃ next, State.handle client env s (.response data) = forwardToInner next ∧
      rank s < rank next := by
  cases s with
  | openIca =>
    cases ha
    cases hk
  | transferOut inner => exact ⟨_, rfl, Nat.lt_succ_self _⟩
  | swapExactIn => exact ⟨_, rfl, Nat.lt_succ_self _⟩
  | _ => cases ha

theorem sound (client : SwapClient Data Msg) (task : SwapTask Currency) :
    Sound (State.handle client) (@awaits _ Data task _) forces rank task.coins.length :=
  ⟨advances client, waits client, awaited, delivers client⟩

end Remote

/-- Requests take their turns in every further step, and what a coin is sent for
has been executed or is under way at most once. -/
def TakesTurns (step : World S (Request Currency) →
      Event S (Env Currency × Input Data) (Request Currency) → World S (Request Currency) → Prop)
    (w : World S (Request Currency)) : Prop :=
  (∀ e w', step w e w' → InTurn w e) ∧
    ∀ k, ofStage stage k w.executed + ofStage stage k (w.unanswered.map Prod.snd) ≤ 1

theorem sound_takes_turns (handle : Handler Currency Data S)
    (awaits : S → Option (Request Currency)) (forces : Forces Currency Data S) (rank : S → ℕ)
    (coins : ℕ) (h : Sound handle awaits forces rank coins) (w : World S (Request Currency))
    (hw : Reachable (OrderlyStep (contract handle) forces) (Begun awaits) w) :
    TakesTurns (OrderlyStep (contract handle) forces) w := by
  have hd := sound_disciplined h
  constructor
  · intro e w' hs
    exact (orderly_step hd w e w' hs (reachable_orderly hd w hw)).2
  · exact reachable_once hd (sound_climbs h) w hw

section Claim

variable [DecidableEq Currency]

def localContract (client : SwapClient Data Msg) (task : SwapTask Currency) :
    Client (OutLocal.State Data task) (Env Currency × Input Data) (Request Currency) :=
  contract (OutLocal.State.handle client)

def remoteContract (client : SwapClient Data Msg) (task : SwapTask Currency) :
    Client (OutRemote.State Data task) (Env Currency × Input Data) (Request Currency) :=
  contract (OutRemote.State.handle client)

/-- As long as nobody heals a swap or a transfer in that awaits its answer, the
requests of a swap task take their turns. -/
theorem unhealed_takes_turns (client : SwapClient Data Msg) (task : SwapTask Currency) :
    (∀ w, Reachable (OrderlyStep (localContract client task) Local.forces)
        (Begun Local.awaits) w →
      TakesTurns (OrderlyStep (localContract client task) Local.forces) w) ∧
    (∀ w, Reachable (OrderlyStep (remoteContract client task) Remote.forces)
        (Begun Remote.awaits) w →
      TakesTurns (OrderlyStep (remoteContract client task) Remote.forces) w) := by
  constructor
  · intro w hw
    exact sound_takes_turns _ _ _ _ _ (Local.sound client task) w hw
  · intro w hw
    exact sound_takes_turns _ _ _ _ _ (Remote.sound client task) w hw

theorem healed_out_of_turn (client : SwapClient Data Msg) (task : SwapTask Currency)
    (env : Env Currency) (w w' : World (OutLocal.State Data task) (Request Currency))
    (e : Event (OutLocal.State Data task) (Env Currency × Input Data) (Request Currency))
    (hu : w.unanswered ≠ []) (hi : e.input = (env, .heal))
    (hs : Step (localContract client task) w e w') (hne : e.submitted ≠ []) : ¬ InTurn w e := by
  rintro ⟨hturn, _⟩
  obtain ⟨issued, rest, hlist⟩ := List.exists_cons_of_ne_nil hu
  have hanswered := hturn hne issued (by simp [hlist])
  cases hs with
  | answer s other before after input t hcl hun ha ht =>
    cases hi
    exact ha
  | prompt s input t hcl hp ht => cases hanswered

theorem response_step (client : SwapClient Data Msg) (task : SwapTask Currency)
    (w : World (OutLocal.State Data task) (Request Currency)) (s : OutLocal.State Data task)
    (issued : OutLocal.State Data task × Request Currency)
    (before after : List (OutLocal.State Data task × Request Currency)) (env : Env Currency)
    (data : Data) (t : Taken (OutLocal.State Data task) (Request Currency))
    (hc : w.client = some s) (hu : w.unanswered = before ++ issued :: after)
    (hr : issued.2 ≠ .registerIca) (ht : outcome (s.onResponse data) t) :
    Step (localContract client task) w ⟨(env, .response data), some issued, t.submitted⟩
      ((w.answered (before ++ after) issued.2 true).taken t) :=
  Step.answer s issued before after (env, Input.response data) t hc hu hr ht

theorem heal_step (client : SwapClient Data Msg) (task : SwapTask Currency)
    (w : World (OutLocal.State Data task) (Request Currency)) (s : OutLocal.State Data task)
    (env : Env Currency) (t : Taken (OutLocal.State Data task) (Request Currency))
    (hc : w.client = some s) (ht : outcome (s.heal env) t) :
    Step (localContract client task) w ⟨(env, .heal), none, t.submitted⟩ (w.taken t) :=
  Step.prompt s (env, Input.heal) t hc trivial ht

end Claim

def sampleTask : SwapTask ℕ where
  coins := [⟨1, 100⟩]
  outCurrency := 0
  some_coins := by decide
  few_coins := by decide

def sampleClient : SwapClient (List ℕ) ℕ where
  decodeMsgResponses := some
  parseResponse
    | [] => none
    | amount :: rest => some (amount, rest)

abbrev sampleContract := localContract sampleClient sampleTask

def sampleEnv : Env ℕ := ⟨0, fun _ => none, fun _ => none, fun _ => true⟩

def sampleSwap : OutLocal.State (List ℕ) sampleTask × Request ℕ := (.swapExactIn, .swap [⟨1, 100⟩])

theorem sample_begun : Begun Local.awaits ⟨some .swapExactIn, [sampleSwap], []⟩ :=
  ⟨.swapExactIn, _, rfl, rfl⟩

theorem sample_request : sampleSwap.2 ≠ .registerIca := by decide

/-- The response to a swap nobody has healed. -/
theorem unhealed_takes_turns_sample :
    TakesTurns (OrderlyStep sampleContract Local.forces)
      ⟨some (.swapExactInRespDelivery [90]), [], [.swap [⟨1, 100⟩]]⟩ := by
  apply (unhealed_takes_turns sampleClient sampleTask).1
  have hs : OrderlyStep sampleContract Local.forces ⟨some .swapExactIn, [sampleSwap], []⟩
      ⟨(sampleEnv, .response [90]), some sampleSwap, []⟩
      ⟨some (.swapExactInRespDelivery [90]), [], [.swap [⟨1, 100⟩]]⟩ := by
    constructor
    · exact response_step sampleClient sampleTask ⟨some .swapExactIn, [sampleSwap], []⟩
        .swapExactIn sampleSwap [] [] sampleEnv [90] (.moved (.swapExactInRespDelivery [90]) [])
        rfl rfl sample_request (.inl rfl)
    · intro s hs hf
      cases hs
      exact absurd hf id
  exact ⟨_, _, sample_begun, run_one _ _ _ hs⟩

/-- A swap healed before its response has come is executed twice. -/
theorem healed_swap_executed_twice :
    (¬ ∀ w, Reachable (Step sampleContract) (Begun Local.awaits) w →
      TakesTurns (Step sampleContract) w) ∧
    ∃ w, Reachable (Step sampleContract) (Begun Local.awaits) w ∧
      ofStage stage .swap w.executed = 2 := by
  have hhealed := heal_step sampleClient sampleTask ⟨some .swapExactIn, [sampleSwap], []⟩
    .swapExactIn sampleEnv (.moved .swapExactIn [.swap [⟨1, 100⟩]]) rfl (.inl rfl)
  have hfirst := response_step sampleClient sampleTask
    ⟨some .swapExactIn, [sampleSwap, sampleSwap], []⟩ .swapExactIn sampleSwap [] [sampleSwap]
    sampleEnv [90] (.moved (.swapExactInRespDelivery [90]) []) rfl rfl sample_request (.inl rfl)
  have hsecond := response_step sampleClient sampleTask
    ⟨some (.swapExactInRespDelivery [90]), [sampleSwap], [.swap [⟨1, 100⟩]]⟩
    (.swapExactInRespDelivery [90]) sampleSwap [] [] sampleEnv [80] .rejected rfl rfl
    sample_request rfl
  constructor
  · intro h
    have hturn := (h _ ⟨_, _, sample_begun, Run.start _⟩).1 _ _ hhealed
    have hanswered := hturn.1 (List.cons_ne_nil _ _) sampleSwap (by simp)
    cases hanswered
  · have htwice := Run.next _ _ _ _ _ (run_one _ _ _ hhealed) hfirst
    have hrun := Run.next _ _ _ _ _ htwice hsecond
    exact ⟨_, ⟨_, _, sample_begun, hrun⟩, rfl⟩

end Nolus.Swapping
