import NolusMoneyMarket.Base.Fallible

/-! # Swap tasks

A swap task names the coins to swap and the currency to swap them into. Its
states transfer the coins out one by one, swap those of another currency in one
transaction and transfer the outcome in. Here are the requests these states
submit, how a swap response is decoded and what a handled message leads to. -/

set_option autoImplicit false

namespace Nolus.SwapTasks
open Nolus.Fallible

variable {Currency Data Msg S : Type}

def amountBits : ℕ := 128
def timeBits : ℕ := 64

structure CoinDTO (Currency : Type) where
  currency : Currency
  amount : ℕ
deriving DecidableEq, Repr

structure SwapTask (Currency : Type) where
  coins : List (CoinDTO Currency)
  outCurrency : Currency
  some_coins : coins ≠ []
  few_coins : coins.length ≤ 2 ^ 8

/-- A transfer out is told apart by the index of its coin. -/
inductive Request (Currency : Type)
  | registerIca
  | transferOut (coinIndex : ℕ) (coin : CoinDTO Currency)
  | swap (coins : List (CoinDTO Currency))
  | transferIn (coin : CoinDTO Currency)
deriving DecidableEq, Repr

inductive Message (Currency : Type)
  | request (request : Request Currency)
  | forwardToInner
  | setupAlarm (forr : ℕ)
deriving DecidableEq, Repr

def Message.submitted : Message Currency → Option (Request Currency)
  | .request submitted => some submitted
  | _ => none

inductive DexError
  | platform
  | swap
  | oracleSwap
  | unsupportedOperation (operation : String)
deriving DecidableEq, Repr

/-- The chain as a handler sees it: the block time, the balance of the contract
in the currency of a coin, and what building a request or an account fails with. -/
structure Env (Currency : Type) where
  now : ℕ
  balance : Currency → Option ℕ
  unbuildable : Request Currency → Option DexError
  parseRegisterResponse : String → Bool

inductive HandlerResult (Currency S : Type)
  | continue_ (messages : List (Message Currency)) (next : S)
  | finished (amountOut : CoinDTO Currency)
deriving DecidableEq, Repr

def err (operation : String) : Outcome DexError (HandlerResult Currency S) :=
  failing (.unsupportedOperation operation)

def resContinue (messages : List (Message Currency)) (next : S) :
    Outcome DexError (HandlerResult Currency S) :=
  pure (.continue_ messages next)

def ibcTimeout : ℕ := 100 * 24 * 3600 * 10 ^ 9
def pollingInterval : ℕ := 5 * 10 ^ 9
def rightAfterNow : ℕ := 1

def submit (env : Env Currency) (request : Request Currency) :
    Outcome DexError (List (Message Currency)) :=
  match env.unbuildable request with
  | some reason => failing reason
  | none => pure [.request request]

def submitTransfer (env : Env Currency) (request : Request Currency) :
    Outcome DexError (List (Message Currency)) := do
  let _expires ← nativeAdd timeBits env.now ibcTimeout
  submit env request

theorem submit_ok (env : Env Currency) (request : Request Currency)
    (messages : List (Message Currency)) :
    submit env request = .ok messages ↔
      env.unbuildable request = none ∧ messages = [.request request] := by
  unfold submit
  cases env.unbuildable request with
  | some reason => simp
  | none => simpa using eq_comm

theorem submitTransfer_ok (env : Env Currency) (request : Request Currency)
    (messages : List (Message Currency)) :
    submitTransfer env request = .ok messages ↔ env.now + ibcTimeout < 2 ^ timeBits ∧
      env.unbuildable request = none ∧ messages = [.request request] := by
  simp only [submitTransfer, bind_ok, nativeAdd_ok, submit_ok]
  constructor
  · rintro ⟨_, ⟨hfits, -⟩, hsent⟩
    exact ⟨hfits, hsent⟩
  · rintro ⟨hfits, hsent⟩
    exact ⟨_, ⟨hfits, rfl⟩, hsent⟩

def enterNext (messages : Outcome DexError (List (Message Currency))) (next : S) :
    Outcome DexError (HandlerResult Currency S) := do
  let messages ← messages
  resContinue messages next

def forwardToInner (next : S) : Outcome DexError (HandlerResult Currency S) :=
  resContinue [.forwardToInner] next

def setupAlarm (env : Env Currency) (delay : ℕ) (next : S) :
    Outcome DexError (HandlerResult Currency S) := do
  let forr ← nativeAdd timeBits env.now delay
  resContinue [.setupAlarm forr] next

theorem forwardToInner_ok (next : S) (result : HandlerResult Currency S) :
    forwardToInner next = .ok result ↔ result = .continue_ [.forwardToInner] next := by
  simpa [forwardToInner, resContinue] using eq_comm

theorem setupAlarm_ok (env : Env Currency) (delay : ℕ) (next : S)
    (result : HandlerResult Currency S) :
    setupAlarm env delay next = .ok result ↔ env.now + delay < 2 ^ timeBits ∧
      result = .continue_ [.setupAlarm (env.now + delay)] next := by
  simp only [setupAlarm, resContinue, bind_ok, nativeAdd_ok, pure_ok]
  constructor
  · rintro ⟨_, ⟨hfits, rfl⟩, rfl⟩
    exact ⟨hfits, rfl⟩
  · rintro ⟨hfits, rfl⟩
    exact ⟨_, ⟨hfits, rfl⟩, rfl⟩

theorem enter_submit_ok (env : Env Currency) (request : Request Currency) (next : S)
    (result : HandlerResult Currency S) :
    enterNext (submit env request) next = .ok result ↔
      env.unbuildable request = none ∧ result = .continue_ [.request request] next := by
  simp only [enterNext, resContinue, bind_ok, submit_ok, pure_ok]
  constructor
  · rintro ⟨_, ⟨hbuilt, rfl⟩, rfl⟩
    exact ⟨hbuilt, rfl⟩
  · rintro ⟨hbuilt, rfl⟩
    exact ⟨_, ⟨hbuilt, rfl⟩, rfl⟩

theorem enter_transfer_ok (env : Env Currency) (request : Request Currency) (next : S)
    (result : HandlerResult Currency S) :
    enterNext (submitTransfer env request) next = .ok result ↔
      (env.now + ibcTimeout < 2 ^ timeBits ∧ env.unbuildable request = none) ∧
      result = .continue_ [.request request] next := by
  simp only [enterNext, resContinue, bind_ok, submitTransfer_ok, pure_ok]
  constructor
  · rintro ⟨_, ⟨hfits, hbuilt, rfl⟩, rfl⟩
    exact ⟨⟨hfits, hbuilt⟩, rfl⟩
  · rintro ⟨⟨hfits, hbuilt⟩, rfl⟩
    exact ⟨_, ⟨hfits, hbuilt, rfl⟩, rfl⟩

def checkReceived (env : Env Currency) (payment : CoinDTO Currency) : Outcome DexError Bool := do
  let balance ← okOr (env.balance payment.currency) .platform
  pure (decide (payment.amount ≤ balance))

structure SwapClient (Data Msg : Type) where
  decodeMsgResponses : Data → Option (List Msg)
  parseResponse : List Msg → Option (ℕ × List Msg)

section Filter

variable [DecidableEq Currency]

def SwapTask.passed (task : SwapTask Currency) : List (CoinDTO Currency) :=
  task.coins.filter (fun coin => coin.currency ≠ task.outCurrency)

def visitResponses (client : SwapClient Data Msg) (outCurrency : Currency) :
    List (CoinDTO Currency) → List Msg → ℕ → ℕ → Outcome DexError (ℕ × ℕ)
  | [], _, filtered, swapped => pure (filtered, swapped)
  | coin :: coins, responses, filtered, swapped =>
    if coin.currency = outCurrency then do
      let filtered ← nativeAdd amountBits filtered coin.amount
      visitResponses client outCurrency coins responses filtered swapped
    else do
      let parsed ← okOr (client.parseResponse responses) .swap
      let swapped ← nativeAdd amountBits swapped parsed.1
      visitResponses client outCurrency coins parsed.2 filtered swapped

def decodeResponse (client : SwapClient Data Msg) (task : SwapTask Currency) (data : Data) :
    Outcome DexError (CoinDTO Currency) := do
  let responses ← okOr (client.decodeMsgResponses data) .platform
  let amounts ← visitResponses client task.outCurrency task.coins responses 0 0
  let amount ← nativeAdd amountBits amounts.1 amounts.2
  pure ⟨task.outCurrency, amount⟩

end Filter

structure TransferOut (task : SwapTask Currency) where
  coinIndex : ℕ
  lastCoinIndex : ℕ
  in_range : coinIndex ≤ lastCoinIndex
  last : lastCoinIndex + 1 = task.coins.length
deriving DecidableEq, Repr

namespace TransferOut

variable {task : SwapTask Currency}

def new (task : SwapTask Currency) : TransferOut task where
  coinIndex := 0
  lastCoinIndex := task.coins.length - 1
  in_range := Nat.zero_le _
  last := Nat.sub_add_cancel (List.length_pos_iff.2 task.some_coins)

def lastCoin (self : TransferOut task) : Prop := self.coinIndex = self.lastCoinIndex

instance (self : TransferOut task) : Decidable self.lastCoin :=
  inferInstanceAs (Decidable (_ = _))

def next (self : TransferOut task) (h : ¬ self.lastCoin) : TransferOut task :=
  { self with coinIndex := self.coinIndex + 1
              in_range := Nat.lt_of_le_of_ne self.in_range h }

theorem index_in_range (self : TransferOut task) : self.coinIndex < task.coins.length := by
  have hle := self.in_range
  have hlast := self.last
  omega

def coin (self : TransferOut task) : CoinDTO Currency :=
  task.coins.get ⟨self.coinIndex, self.index_in_range⟩

def request (self : TransferOut task) : Request Currency :=
  .transferOut self.coinIndex self.coin

def enter (env : Env Currency) (self : TransferOut task) (into : TransferOut task → S) :
    Outcome DexError (HandlerResult Currency S) :=
  enterNext (submitTransfer env self.request) (into self)

end TransferOut

section Swap

variable [DecidableEq Currency]

def SwapTask.swapRequest (task : SwapTask Currency) : Request Currency := .swap task.passed

def SwapTask.enterSwap (task : SwapTask Currency) (env : Env Currency) (into : S) :
    Outcome DexError (HandlerResult Currency S) :=
  enterNext (submit env task.swapRequest) into

def TransferOut.onResponse {task : SwapTask Currency} (env : Env Currency)
    (self : TransferOut task) (into : TransferOut task → S) (swapExactIn : S) :
    Outcome DexError (HandlerResult Currency S) :=
  if h : self.lastCoin then task.enterSwap env swapExactIn
  else (self.next h).enter env into

end Swap

structure TransferInInit (Currency : Type) where
  amountIn : CoinDTO Currency
deriving DecidableEq, Repr

structure TransferInFinish (Currency : Type) where
  amountIn : CoinDTO Currency
  timeout : ℕ
deriving DecidableEq, Repr

def TransferInInit.request (self : TransferInInit Currency) : Request Currency :=
  .transferIn self.amountIn

def TransferInInit.enter (env : Env Currency) (self : TransferInInit Currency)
    (into : TransferInInit Currency → S) : Outcome DexError (HandlerResult Currency S) :=
  enterNext (submitTransfer env self.request) (into self)

def TransferInFinish.tryAgain (env : Env Currency) (self : TransferInFinish Currency)
    (intoInit : TransferInInit Currency → S) (into : TransferInFinish Currency → S) :
    Outcome DexError (HandlerResult Currency S) :=
  if self.timeout ≤ env.now then TransferInInit.enter env ⟨self.amountIn⟩ intoInit
  else setupAlarm env pollingInterval (into self)

def TransferInFinish.tryComplete (env : Env Currency) (self : TransferInFinish Currency)
    (intoInit : TransferInInit Currency → S) (into : TransferInFinish Currency → S) :
    Outcome DexError (HandlerResult Currency S) := do
  let received ← checkReceived env self.amountIn
  if received then pure (.finished self.amountIn)
  else self.tryAgain env intoInit into

def TransferInInit.onResponse (env : Env Currency) (self : TransferInInit Currency)
    (intoInit : TransferInInit Currency → S) (intoFinish : TransferInFinish Currency → S) :
    Outcome DexError (HandlerResult Currency S) := do
  let timeout ← nativeAdd timeBits env.now ibcTimeout
  TransferInFinish.tryComplete env ⟨self.amountIn, timeout⟩ intoInit intoFinish

inductive Input (Data : Type)
  | openIca (counterpartyVersion : String)
  | response (data : Data)
  | error
  | timeout
  | inner
  | innerContinue
  | heal
  | reply
  | timeAlarm
deriving DecidableEq, Repr

end Nolus.SwapTasks
