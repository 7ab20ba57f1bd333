import NolusMoneyMarket.Dex.Task

/-! # The coins of a swap task

A swap task calls a visitor back with each of its coins until the visitor stops.
The coins are counted this way, one of them is picked to be transferred out,
those of another currency are put into the swap transaction, and its responses
are attributed to them. -/

set_option autoImplicit false

namespace Nolus.SwapCoins
open Nolus.Fallible Nolus.SwapTasks

variable {Currency Data Msg M σ ε : Type}

inductive IterNext
  | stop
  | continue_
deriving DecidableEq, Repr

inductive IterState
  | complete
  | incomplete
deriving DecidableEq, Repr

abbrev CoinVisitor (Currency σ ε : Type) :=
  σ → CoinDTO Currency → Outcome ε (σ × IterNext)

def onCoins (visit : CoinVisitor Currency σ ε) :
    List (CoinDTO Currency) → σ → Outcome ε (σ × IterState)
  | [], visitor => pure (visitor, .complete)
  | coin :: coins, visitor => do
    let visited ← visit visitor coin
    match visited.2 with
    | .continue_ => onCoins visit coins visited.1
    | .stop => pure (visited.1, if coins = [] then .complete else .incomplete)

def continuing (visit : σ → CoinDTO Currency → Outcome ε σ) : CoinVisitor Currency σ ε :=
  fun visitor coin => do
    let visitor ← visit visitor coin
    pure (visitor, .continue_)

def coinsNbBits : ℕ := 8

section Counter

inductive TooManyCoins
  | tooManyCoins
deriving DecidableEq, Repr

def Counter.visit (lastIndex : Option ℕ) (_coin : CoinDTO Currency) :
    Outcome TooManyCoins (Option ℕ) :=
  match lastIndex with
  | none => pure (some 0)
  | some lastIndex => do
    let next ← okOr (checkedAdd coinsNbBits lastIndex 1) .tooManyCoins
    pure (some next)

def lastCoinIndex (coins : List (CoinDTO Currency)) : Outcome DexError ℕ :=
  match onCoins (continuing Counter.visit) coins none with
  | .ok counted => expect counted.1 (.assertion "The swap task did not provide any coins!")
  | .error _ => panicking (.assertion "Functionality doesn't support this many coins!")

end Counter

section AtIndex

def CoinsIndexVisitor.visit (visit : σ → CoinDTO Currency → Outcome ε σ) :
    CoinVisitor Currency (ℕ × σ) ε :=
  fun visitor coin =>
    if visitor.1 = 0 then do
      let inner ← visit visitor.2 coin
      pure ((visitor.1, inner), .stop)
    else do
      let left ← nativeSub visitor.1 1
      pure ((left, visitor.2), .continue_)

def visitAtIndex (coins : List (CoinDTO Currency)) (coinIndex : ℕ)
    (visit : σ → CoinDTO Currency → Outcome ε σ) (visitor : σ) :
    Outcome ε (σ × IterState) := do
  let visited ← onCoins (CoinsIndexVisitor.visit visit) coins (coinIndex, visitor)
  pure (visited.1.2, visited.2)

def SendWorker.visit (send : CoinDTO Currency → Outcome DexError M) (sent : List M)
    (coin : CoinDTO Currency) : Outcome DexError (List M) := do
  let message ← send coin
  pure (sent ++ [message])

def transferOutEnterState {task : SwapTask Currency} (env : Env Currency)
    (send : CoinDTO Currency → Outcome DexError M) (self : TransferOut task) :
    Outcome DexError (List M) := do
  let _expires ← nativeAdd timeBits env.now ibcTimeout
  let visited ← visitAtIndex task.coins self.coinIndex (SendWorker.visit send) []
  pure visited.1

end AtIndex

section Filter

def SwapWorker.visit (swapExactIn : CoinDTO Currency → Currency → Outcome DexError M)
    (outCurrency : Currency) (trx : List M) (coin : CoinDTO Currency) :
    Outcome DexError (List M) := do
  let message ← swapExactIn coin outCurrency
  pure (trx ++ [message])

structure ExactInResponse (Msg : Type) where
  responses : List Msg
  amount : ℕ

def ExactInResponse.visit (client : SwapClient Data Msg) (visitor : ExactInResponse Msg)
    (_coin : CoinDTO Currency) : Outcome DexError (ExactInResponse Msg) := do
  let parsed ← okOr (client.parseResponse visitor.responses) .swap
  let amount ← nativeAdd amountBits visitor.amount parsed.1
  pure ⟨parsed.2, amount⟩

variable [DecidableEq Currency]

structure CurrencyFilter (σ : Type) where
  inner : σ
  filtered : ℕ
  passAny : Bool

def CurrencyFilter.visit (visit : CoinVisitor Currency σ ε) (filter : Currency) :
    CoinVisitor Currency (CurrencyFilter σ) ε :=
  fun visitor coin =>
    if coin.currency = filter then do
      let filtered ← nativeAdd amountBits visitor.filtered coin.amount
      pure ({ visitor with filtered }, .continue_)
    else do
      let visited ← visit visitor.inner coin
      pure (⟨visited.1, visitor.filtered, true⟩, visited.2)

def swapExactInEnterState (task : SwapTask Currency)
    (swapExactIn : CoinDTO Currency → Currency → Outcome DexError M) :
    Outcome DexError (List M) := do
  let visited ← onCoins
    (CurrencyFilter.visit (continuing (SwapWorker.visit swapExactIn task.outCurrency))
      task.outCurrency)
    task.coins ⟨[], 0, false⟩
  pure visited.1.inner

def decodeResponseVisiting (client : SwapClient Data Msg) (task : SwapTask Currency)
    (data : Data) : Outcome DexError (CoinDTO Currency) := do
  let responses ← okOr (client.decodeMsgResponses data) .platform
  let visited ← onCoins
    (CurrencyFilter.visit (continuing (ExactInResponse.visit client)) task.outCurrency)
    task.coins ⟨⟨responses, 0⟩, 0, false⟩
  let amount ← nativeAdd amountBits visited.1.filtered visited.1.inner.amount
  pure ⟨task.outCurrency, amount⟩

end Filter

section Clients

def nextParsed (parse : Msg → Option ℕ) : List Msg → Option (ℕ × List Msg)
  | [] => none
  | response :: rest => (parse response).map fun amount => (amount, rest)

def Osmosis.parse (decodeMsgResponse : Msg → Option String) (parseAmount : String → Option ℕ)
    (response : Msg) : Option ℕ :=
  (decodeMsgResponse response).bind parseAmount

def Astroport.parse (decodeMsgResponse : Msg → Option Data) (fromJson : Data → Option ℕ)
    (response : Msg) : Option ℕ :=
  (decodeMsgResponse response).bind fromJson

def exactAmountIn (decodeMsgResponses : Data → Option (List Msg)) (parse : Msg → Option ℕ) :
    SwapClient Data Msg :=
  ⟨decodeMsgResponses, nextParsed parse⟩

end Clients

/-! ## Counting -/

theorem counted_from (coins : List (CoinDTO Currency)) (k : ℕ) :
    onCoins (continuing Counter.visit) coins (some k) =
      if k + coins.length < 2 ^ coinsNbBits ∨ coins = [] then
        .ok (some (k + coins.length), .complete)
      else failing .tooManyCoins := by
  induction coins generalizing k with
  | nil => simp [onCoins, pure, Except.pure]
  | cons coin coins ih =>
    by_cases hk : k + 1 < 2 ^ coinsNbBits
    · have hnext : onCoins (continuing Counter.visit) (coin :: coins) (some k) =
          onCoins (continuing Counter.visit) coins (some (k + 1)) := by
        simp [onCoins, continuing, Counter.visit, checkedAdd, hk, okOr, bind, Except.bind,
          pure, Except.pure]
      have hfits : (k + 1 + coins.length < 2 ^ coinsNbBits ∨ coins = []) ↔
          (k + (coin :: coins).length < 2 ^ coinsNbBits ∨ coin :: coins = []) := by
        cases coins with
        | nil => simpa using hk
        | cons c cs =>
          simp only [List.length_cons, reduceCtorEq, or_false]
          omega
      have hcount : k + 1 + coins.length = k + (coin :: coins).length := by
        simp only [List.length_cons]
        omega
      rw [hnext, ih, if_congr hfits rfl rfl, hcount]
    · have hfew : ¬ (k + (coin :: coins).length < 2 ^ coinsNbBits ∨ coin :: coins = []) := by
        simp only [List.length_cons, reduceCtorEq, or_false]
        omega
      rw [if_neg hfew]
      simp [onCoins, continuing, Counter.visit, checkedAdd, hk, okOr, failing, bind, Except.bind]

/-- Counted are tasks of one to 256 coins, all others panic. -/
theorem last_coin_index (coins : List (CoinDTO Currency)) (k : ℕ) :
    lastCoinIndex coins = .ok k ↔ k + 1 = coins.length ∧ coins.length ≤ 2 ^ coinsNbBits := by
  cases coins with
  | nil => simp [lastCoinIndex, onCoins, pure, Except.pure]
  | cons coin coins =>
    have hfirst : onCoins (continuing Counter.visit) (coin :: coins) none =
        onCoins (continuing Counter.visit) coins (some 0) := rfl
    have hfits : (0 + coins.length < 2 ^ coinsNbBits ∨ coins = []) ↔
        coins.length + 1 ≤ 2 ^ coinsNbBits := by
      cases coins with
      | nil => simp [coinsNbBits]
      | cons c cs =>
        simp only [List.length_cons, reduceCtorEq, or_false]
        omega
    unfold lastCoinIndex
    rw [hfirst, counted_from, if_congr hfits rfl rfl]
    split_ifs with hfew
    · simp only [expect_ok, Option.some.injEq, List.length_cons]
      omega
    · simp [failing, hfew]

/-! ## Picking one -/

theorem picked_at (visit : σ → CoinDTO Currency → Outcome ε σ) (coins : List (CoinDTO Currency))
    (coinIndex : ℕ) (h : coinIndex < coins.length) (visitor : σ) :
    onCoins (CoinsIndexVisitor.visit visit) coins (coinIndex, visitor) = (do
      let inner ← visit visitor (coins.get ⟨coinIndex, h⟩)
      pure ((0, inner), if coinIndex + 1 = coins.length then .complete else .incomplete)) := by
  induction coins generalizing coinIndex with
  | nil => cases h
  | cons coin coins ih =>
    cases coinIndex with
    | zero =>
      simp only [onCoins, CoinsIndexVisitor.visit, if_pos, List.get_eq_getElem,
        List.getElem_cons_zero]
      cases visit visitor coin with
      | error e => rfl
      | ok inner => cases coins <;> rfl
    | succ coinIndex =>
      have hleft : CoinsIndexVisitor.visit visit (coinIndex + 1, visitor) coin =
          .ok ((coinIndex, visitor), .continue_) := rfl
      have hrest := ih coinIndex (Nat.lt_of_succ_lt_succ h)
      simp only [onCoins, hleft, List.length_cons, Nat.add_right_cancel_iff]
      exact hrest

theorem visit_at_index (visit : σ → CoinDTO Currency → Outcome ε σ)
    (coins : List (CoinDTO Currency)) (coinIndex : ℕ) (h : coinIndex < coins.length)
    (visitor : σ) :
    visitAtIndex coins coinIndex visit visitor = (do
      let visitor ← visit visitor (coins.get ⟨coinIndex, h⟩)
      pure (visitor, if coinIndex + 1 = coins.length then .complete else .incomplete)) := by
  unfold visitAtIndex
  rw [picked_at visit coins coinIndex h visitor]
  cases visit visitor (coins.get ⟨coinIndex, h⟩) <;> rfl

theorem transfer_out_entered {task : SwapTask Currency} (env : Env Currency)
    (send : CoinDTO Currency → Outcome DexError M) (self : TransferOut task) (sent : List M) :
    transferOutEnterState env send self = .ok sent ↔
      env.now + ibcTimeout < 2 ^ timeBits ∧
        ∃ message, send self.coin = .ok message ∧ sent = [message] := by
  simp only [transferOutEnterState, visit_at_index _ _ _ self.index_in_range, SendWorker.visit,
    bind_ok, pure_ok, nativeAdd_ok]
  constructor
  · rintro ⟨_, ⟨hfits, -⟩, _, ⟨_, ⟨message, hm, rfl⟩, rfl⟩, rfl⟩
    exact ⟨hfits, message, hm, rfl⟩
  · rintro ⟨hfits, message, hm, rfl⟩
    exact ⟨_, ⟨hfits, rfl⟩, _, ⟨_, ⟨message, hm, rfl⟩, rfl⟩, rfl⟩

/-! ## Filtering -/

theorem swapped_messages (swapExactIn : CoinDTO Currency → Currency → Outcome DexError M)
    (outCurrency : Currency) (coins : List (CoinDTO Currency)) (trx trx' : List M) :
    coins.foldlM (SwapWorker.visit swapExactIn outCurrency) trx = .ok trx' ↔
      ∃ messages, trx' = trx ++ messages ∧
        List.Forall₂ (fun coin message => swapExactIn coin outCurrency = .ok message)
          coins messages := by
  induction coins generalizing trx with
  | nil =>
    simp only [List.foldlM_nil, pure_ok, List.forall₂_nil_left_iff]
    constructor
    · rintro rfl
      exact ⟨[], by simp, rfl⟩
    · rintro ⟨messages, rfl, rfl⟩
      simp
  | cons coin coins ih =>
    simp only [List.foldlM_cons, bind_ok, SwapWorker.visit, pure_ok]
    constructor
    · rintro ⟨_, ⟨message, hm, rfl⟩, hrest⟩
      obtain ⟨messages, rfl, hall⟩ := (ih _).1 hrest
      exact ⟨message :: messages, by simp, .cons hm hall⟩
    · rintro ⟨messages, rfl, hall⟩
      obtain ⟨message, rest, hm, hrest, rfl⟩ := List.forall₂_cons_left_iff.1 hall
      exact ⟨_, ⟨message, hm, rfl⟩, (ih _).2 ⟨rest, by simp, hrest⟩⟩

section Filter

variable [DecidableEq Currency]

def passedOf (outCurrency : Currency) (coins : List (CoinDTO Currency)) :
    List (CoinDTO Currency) :=
  coins.filter fun coin => coin.currency ≠ outCurrency

def filteredSum (outCurrency : Currency) (coins : List (CoinDTO Currency)) : ℕ :=
  ((coins.filter fun coin => coin.currency = outCurrency).map CoinDTO.amount).sum

theorem task_passed (task : SwapTask Currency) :
    passedOf task.outCurrency task.coins = task.passed := rfl

theorem passed_filtered (outCurrency : Currency) (coin : CoinDTO Currency)
    (coins : List (CoinDTO Currency)) (h : coin.currency = outCurrency) :
    passedOf outCurrency (coin :: coins) = passedOf outCurrency coins ∧
      filteredSum outCurrency (coin :: coins) = coin.amount + filteredSum outCurrency coins := by
  simp [passedOf, filteredSum, h]

theorem passed_through (outCurrency : Currency) (coin : CoinDTO Currency)
    (coins : List (CoinDTO Currency)) (h : coin.currency ≠ outCurrency) :
    passedOf outCurrency (coin :: coins) = coin :: passedOf outCurrency coins ∧
      filteredSum outCurrency (coin :: coins) = filteredSum outCurrency coins := by
  simp [passedOf, filteredSum, h]

/-- The inner visitor visits the coins of another currency in their order, the amounts of the
others are summed up. -/
theorem filter_visits (visit : σ → CoinDTO Currency → Outcome ε σ) (outCurrency : Currency)
    (coins : List (CoinDTO Currency)) (visitor : CurrencyFilter σ)
    (h : visitor.filtered < 2 ^ amountBits) (visited : CurrencyFilter σ × IterState) :
    onCoins (CurrencyFilter.visit (continuing visit) outCurrency) coins visitor = .ok visited ↔
      visitor.filtered + filteredSum outCurrency coins < 2 ^ amountBits ∧
      (passedOf outCurrency coins).foldlM visit visitor.inner = .ok visited.1.inner ∧
      visited.1.filtered = visitor.filtered + filteredSum outCurrency coins ∧
      visited.1.passAny = (visitor.passAny || decide (passedOf outCurrency coins ≠ [])) ∧
      visited.2 = .complete := by
  induction coins generalizing visitor with
  | nil =>
    obtain ⟨⟨inner, filtered, passAny⟩, state⟩ := visited
    obtain ⟨inner', filtered', passAny'⟩ := visitor
    simp only at h
    simp [onCoins, passedOf, filteredSum, h, pure, Except.pure, eq_comm, and_assoc]
  | cons coin coins ih =>
    by_cases hc : coin.currency = outCurrency
    · obtain ⟨hpassed, hsum⟩ := passed_filtered outCurrency coin coins hc
      rw [hpassed, hsum, ← Nat.add_assoc]
      by_cases hfits : visitor.filtered + coin.amount < 2 ^ amountBits
      · have hnext : onCoins (CurrencyFilter.visit (continuing visit) outCurrency)
            (coin :: coins) visitor =
              onCoins (CurrencyFilter.visit (continuing visit) outCurrency) coins
                { visitor with filtered := visitor.filtered + coin.amount } := by
          simp [onCoins, CurrencyFilter.visit, hc, nativeAdd, hfits, bind, Except.bind, pure,
            Except.pure]
        rw [hnext, ih _ hfits]
      · have hpanics : onCoins (CurrencyFilter.visit (continuing visit) outCurrency)
            (coin :: coins) visitor ≠ .ok visited := by
          simp [onCoins, CurrencyFilter.visit, hc, nativeAdd, hfits, panicking, bind,
            Except.bind]
        simp only [hpanics, false_iff]
        rintro ⟨hlt, -⟩
        omega
    · obtain ⟨hpassed, hsum⟩ := passed_through outCurrency coin coins hc
      rw [hpassed, hsum, List.foldlM_cons]
      cases hv : visit visitor.inner coin with
      | error e =>
        simp [onCoins, CurrencyFilter.visit, continuing, hc, hv, bind, Except.bind]
      | ok inner =>
        have hnext : onCoins (CurrencyFilter.visit (continuing visit) outCurrency)
            (coin :: coins) visitor =
              onCoins (CurrencyFilter.visit (continuing visit) outCurrency) coins
                ⟨inner, visitor.filtered, true⟩ := by
          simp [onCoins, CurrencyFilter.visit, continuing, hc, hv, bind, Except.bind, pure,
            Except.pure]
        rw [hnext, ih ⟨inner, visitor.filtered, true⟩ h]
        simp [bind, Except.bind]

theorem swap_exact_in_entered (task : SwapTask Currency)
    (swapExactIn : CoinDTO Currency → Currency → Outcome DexError M) (trx : List M) :
    swapExactInEnterState task swapExactIn = .ok trx ↔
      filteredSum task.outCurrency task.coins < 2 ^ amountBits ∧
        List.Forall₂ (fun coin message => swapExactIn coin task.outCurrency = .ok message)
          task.passed trx := by
  have hempty : (0 : ℕ) < 2 ^ amountBits := by decide
  simp only [swapExactInEnterState, bind_ok, filter_visits _ _ _ ⟨[], 0, false⟩ hempty, pure_ok,
    Nat.zero_add, task_passed, swapped_messages, List.nil_append]
  constructor
  · rintro ⟨visited, ⟨hfits, ⟨messages, hinner, hall⟩, -⟩, rfl⟩
    rw [hinner]
    exact ⟨hfits, hall⟩
  · rintro ⟨hfits, hall⟩
    exact ⟨(⟨trx, _, _⟩, .complete), ⟨hfits, ⟨trx, rfl, hall⟩, rfl, rfl, rfl⟩, rfl⟩

/-- An environment in which a request can be built if the visitors build its messages. -/
structure Builds (env : Env Currency) (task : SwapTask Currency)
    (send : CoinDTO Currency → Outcome DexError M)
    (swapExactIn : CoinDTO Currency → Currency → Outcome DexError M) : Prop where
  transferOut : ∀ coinIndex coin, env.unbuildable (.transferOut coinIndex coin) = none ↔
    ∃ message, send coin = .ok message
  swap : env.unbuildable task.swapRequest = none ↔
    ∃ trx, swapExactInEnterState task swapExactIn = .ok trx

theorem transfer_out_submitted {env : Env Currency} {task : SwapTask Currency}
    {send : CoinDTO Currency → Outcome DexError M}
    {swapExactIn : CoinDTO Currency → Currency → Outcome DexError M}
    (h : Builds env task send swapExactIn) (inner : TransferOut task) :
    submitTransfer env inner.request = .ok [.request inner.request] ↔
      ∃ sent, transferOutEnterState env send inner = .ok sent := by
  simp only [submitTransfer_ok, TransferOut.request, h.transferOut, transfer_out_entered]
  constructor
  · rintro ⟨hfits, ⟨message, hm⟩, -⟩
    exact ⟨[message], hfits, message, hm, rfl⟩
  · rintro ⟨_, hfits, message, hm, -⟩
    exact ⟨hfits, ⟨message, hm⟩, trivial⟩

theorem swap_submitted {env : Env Currency} {task : SwapTask Currency}
    {send : CoinDTO Currency → Outcome DexError M}
    {swapExactIn : CoinDTO Currency → Currency → Outcome DexError M}
    (h : Builds env task send swapExactIn) :
    submit env task.swapRequest = .ok [.request task.swapRequest] ↔
      ∃ trx, swapExactInEnterState task swapExactIn = .ok trx := by
  rw [submit_ok, h.swap]
  exact and_iff_left rfl

end Filter

/-! ## Parsing -/

def Parses (parse : Msg → Option ℕ) (count : ℕ) (responses : List Msg) (amounts : List ℕ) :
    Prop :=
  amounts.length = count ∧
    List.Forall₂ (fun response amount => parse response = some amount)
      (responses.take count) amounts

theorem next_parsed (parse : Msg → Option ℕ) (responses : List Msg) (parsed : ℕ × List Msg) :
    nextParsed parse responses = some parsed ↔
      ∃ response, responses = response :: parsed.2 ∧ parse response = some parsed.1 := by
  cases responses with
  | nil => simp [nextParsed]
  | cons response rest =>
    obtain ⟨amount, left⟩ := parsed
    simp only [nextParsed, Option.map_eq_some_iff, Prod.mk.injEq, List.cons.injEq]
    constructor
    · rintro ⟨_, hp, rfl, rfl⟩
      exact ⟨response, ⟨rfl, rfl⟩, hp⟩
    · rintro ⟨_, ⟨rfl, rfl⟩, hp⟩
      exact ⟨amount, hp, rfl, rfl⟩

theorem parses_one_more (parse : Msg → Option ℕ) (count : ℕ) (response : Msg)
    (responses : List Msg) (amounts : List ℕ) :
    Parses parse (count + 1) (response :: responses) amounts ↔
      ∃ amount rest, parse response = some amount ∧ Parses parse count responses rest ∧
        amounts = amount :: rest := by
  constructor
  · rintro ⟨hlength, hall⟩
    rw [List.take_succ_cons] at hall
    obtain ⟨amount, rest, hp, hrest, rfl⟩ := List.forall₂_cons_left_iff.1 hall
    exact ⟨amount, rest, hp, ⟨Nat.succ.inj hlength, hrest⟩, rfl⟩
  · rintro ⟨amount, rest, hp, ⟨hlength, hall⟩, rfl⟩
    exact ⟨congrArg Nat.succ hlength, .cons hp hall⟩

theorem parses_enough (parse : Msg → Option ℕ) (count : ℕ) (responses : List Msg)
    (amounts : List ℕ) (h : Parses parse count responses amounts) :
    count ≤ responses.length := by
  have hlength := h.2.length_eq
  rw [h.1, List.length_take] at hlength
  omega

/-- Each coin takes the next response. -/
theorem attributed_responses (decodeMsgResponses : Data → Option (List Msg))
    (parse : Msg → Option ℕ) (coins : List (CoinDTO Currency)) (responses : List Msg)
    (amount : ℕ) (h : amount < 2 ^ amountBits) (visited : ExactInResponse Msg) :
    coins.foldlM (ExactInResponse.visit (exactAmountIn decodeMsgResponses parse))
        ⟨responses, amount⟩ = .ok visited ↔
      ∃ amounts, Parses parse coins.length responses amounts ∧
        amount + amounts.sum < 2 ^ amountBits ∧
        visited = ⟨responses.drop coins.length, amount + amounts.sum⟩ := by
  induction coins generalizing responses amount with
  | nil =>
    simp only [List.foldlM_nil, pure_ok, List.length_nil, List.drop_zero]
    constructor
    · rintro rfl
      exact ⟨[], ⟨rfl, .nil⟩, h, rfl⟩
    · rintro ⟨amounts, ⟨hlength, -⟩, -, rfl⟩
      obtain rfl := List.length_eq_zero_iff.1 hlength
      rfl
  | cons coin coins ih =>
    simp only [List.foldlM_cons, bind_ok, ExactInResponse.visit, okOr_ok, nativeAdd_ok, pure_ok,
      exactAmountIn, next_parsed, List.length_cons]
    constructor
    · rintro ⟨_, ⟨⟨first, left⟩, ⟨response, rfl, hp⟩, total, ⟨hfits, rfl⟩, rfl⟩, hrest⟩
      obtain ⟨amounts, hparses, hlt, rfl⟩ := (ih left _ hfits).1 hrest
      refine ⟨first :: amounts, (parses_one_more _ _ _ _ _).2 ⟨first, amounts, hp, hparses, rfl⟩,
        ?_, ?_⟩
      · rwa [List.sum_cons, ← Nat.add_assoc]
      · rw [List.sum_cons, ← Nat.add_assoc, List.drop_succ_cons]
    · rintro ⟨amounts, hparses, hlt, rfl⟩
      cases responses with
      | nil => exact absurd (parses_enough _ _ _ _ hparses) (by simp)
      | cons response left =>
        obtain ⟨first, rest, hp, hrest, rfl⟩ := (parses_one_more _ _ _ _ _).1 hparses
        rw [List.sum_cons, ← Nat.add_assoc] at hlt
        have hfits : amount + first < 2 ^ amountBits := by omega
        refine ⟨⟨left, amount + first⟩,
          ⟨(first, left), ⟨response, rfl, hp⟩, _, ⟨hfits, rfl⟩, rfl⟩, ?_⟩
        refine (ih left _ hfits).2 ⟨rest, hrest, hlt, ?_⟩
        rw [List.sum_cons, ← Nat.add_assoc, List.drop_succ_cons]

section Decode

variable [DecidableEq Currency]

theorem visited_responses (client : SwapClient Data Msg) (outCurrency : Currency)
    (coins : List (CoinDTO Currency)) (responses : List Msg) (filtered swapped : ℕ)
    (passAny : Bool) :
    (do
      let visited ← onCoins
        (CurrencyFilter.visit (continuing (ExactInResponse.visit client)) outCurrency) coins
        ⟨⟨responses, swapped⟩, filtered, passAny⟩
      pure (visited.1.filtered, visited.1.inner.amount)) =
      visitResponses client outCurrency coins responses filtered swapped := by
  induction coins generalizing responses filtered swapped passAny with
  | nil => rfl
  | cons coin coins ih =>
    by_cases hc : coin.currency = outCurrency
    · simp only [onCoins, CurrencyFilter.visit, visitResponses, hc, if_pos]
      cases hsum : (nativeAdd amountBits filtered coin.amount : Outcome DexError ℕ) with
      | error e => rfl
      | ok sum => exact ih responses sum swapped passAny
    · simp only [onCoins, CurrencyFilter.visit, visitResponses, hc, if_false, continuing,
        ExactInResponse.visit]
      cases hparsed : (okOr (client.parseResponse responses) .swap : Outcome DexError _) with
      | error e => rfl
      | ok parsed =>
        cases hsum : (nativeAdd amountBits swapped parsed.1 : Outcome DexError ℕ) with
        | error e =>
          simp only [hsum, bind, Except.bind]
        | ok sum =>
          simp only [hsum, bind, Except.bind, pure, Except.pure]
          exact ih parsed.2 filtered sum true

theorem decode_visiting (client : SwapClient Data Msg) (task : SwapTask Currency) (data : Data) :
    decodeResponseVisiting client task data = decodeResponse client task data := by
  unfold decodeResponseVisiting decodeResponse
  cases (okOr (client.decodeMsgResponses data) .platform : Outcome DexError (List Msg)) with
  | error e => rfl
  | ok responses =>
    have hvisited := visited_responses client task.outCurrency task.coins responses 0 0 false
    simp only [bind, Except.bind] at hvisited ⊢
    rw [← hvisited]
    split <;> rfl

theorem visited_sum (decodeMsgResponses : Data → Option (List Msg)) (parse : Msg → Option ℕ)
    (outCurrency : Currency) (coins : List (CoinDTO Currency)) (responses : List Msg)
    (amounts : List ℕ) (filtered swapped : ℕ)
    (h : Parses parse (passedOf outCurrency coins).length responses amounts) :
    Evaluates
      (visitResponses (exactAmountIn decodeMsgResponses parse) outCurrency coins responses
        filtered swapped)
      (filtered + filteredSum outCurrency coins, swapped + amounts.sum) := by
  induction coins generalizing responses amounts filtered swapped with
  | nil =>
    obtain rfl := List.length_eq_zero_iff.1 h.1
    exact evaluates_pure _
  | cons coin coins ih =>
    unfold visitResponses
    split_ifs with hc
    · obtain ⟨hpassed, hsum⟩ := passed_filtered outCurrency coin coins hc
      rw [hpassed] at h
      rw [hsum, ← Nat.add_assoc]
      exact evaluates_bind _ _ _ _ (nativeAdd_evaluates _ _ _) (ih responses amounts _ _ h)
    · obtain ⟨hpassed, hsum⟩ := passed_through outCurrency coin coins hc
      rw [hpassed] at h
      rw [hsum]
      cases responses with
      | nil => exact absurd (parses_enough _ _ _ _ h) (by simp)
      | cons response responses =>
        obtain ⟨amount, rest, hp, hrest, rfl⟩ := (parses_one_more _ _ _ _ _).1 h
        have hparsed : (exactAmountIn decodeMsgResponses parse).parseResponse
            (response :: responses) = some (amount, responses) :=
          (next_parsed parse (response :: responses) (amount, responses)).2 ⟨response, rfl, hp⟩
        rw [hparsed, List.sum_cons, ← Nat.add_assoc]
        refine evaluates_bind _ _ _ _ (okOr_evaluates _ _) ?_
        exact evaluates_bind _ _ _ _ (nativeAdd_evaluates _ _ _) (ih responses rest _ _ hrest)

/-- What is decoded is the sum of the amounts there already are and of those parsed from the
responses, one for each coin of another currency. -/
theorem decoded_sum (decodeMsgResponses : Data → Option (List Msg)) (parse : Msg → Option ℕ)
    (task : SwapTask Currency) (data : Data) (decoded : CoinDTO Currency) :
    decodeResponseVisiting (exactAmountIn decodeMsgResponses parse) task data = .ok decoded ↔
      ∃ responses amounts, decodeMsgResponses data = some responses ∧
        Parses parse task.passed.length responses amounts ∧
        filteredSum task.outCurrency task.coins + amounts.sum < 2 ^ amountBits ∧
        decoded = ⟨task.outCurrency, filteredSum task.outCurrency task.coins + amounts.sum⟩ := by
  have hempty : (0 : ℕ) < 2 ^ amountBits := by decide
  unfold decodeResponseVisiting
  simp only [bind_ok, okOr_ok, nativeAdd_ok, pure_ok, filter_visits _ _ _ ⟨_, 0, false⟩ hempty,
    Nat.zero_add, task_passed, attributed_responses _ _ _ _ _ hempty]
  constructor
  · rintro ⟨responses, hdecoded, ⟨⟨inner, filtered, passAny⟩, state⟩,
      ⟨-, ⟨amounts, hparses, -, hinner⟩, hfiltered, -⟩, amount, ⟨hfits, rfl⟩, rfl⟩
    simp only at hinner hfiltered hfits
    subst hinner hfiltered
    exact ⟨responses, amounts, hdecoded, hparses, hfits, rfl⟩
  · rintro ⟨responses, amounts, hdecoded, hparses, hfits, rfl⟩
    refine ⟨responses, hdecoded,
      (⟨⟨responses.drop task.passed.length, amounts.sum⟩, filteredSum task.outCurrency task.coins,
        decide (task.passed ≠ [])⟩, .complete),
      ⟨by omega, ⟨amounts, hparses, by omega, rfl⟩, rfl, ?_, rfl⟩, _, ⟨hfits, rfl⟩, rfl⟩
    exact (Bool.false_or _).symm

theorem decode_fails (decodeMsgResponses : Data → Option (List Msg)) (parse : Msg → Option ℕ)
    (task : SwapTask Currency) (data : Data) (responses : List Msg)
    (hd : decodeMsgResponses data = some responses)
    (h : ∀ amounts, ¬ Parses parse task.passed.length responses amounts)
    (decoded : CoinDTO Currency) :
    decodeResponseVisiting (exactAmountIn decodeMsgResponses parse) task data ≠ .ok decoded := by
  intro hok
  obtain ⟨other, amounts, hother, hparses, -⟩ := (decoded_sum _ _ _ _ _).1 hok
  obtain rfl := Option.some.inj (hd.symm.trans hother)
  exact h amounts hparses

theorem decode_evaluates (decodeMsgResponses : Data → Option (List Msg)) (parse : Msg → Option ℕ)
    (task : SwapTask Currency) (data : Data) (responses : List Msg) (amounts : List ℕ)
    (hd : decodeMsgResponses data = some responses)
    (h : Parses parse task.passed.length responses amounts) :
    Evaluates (decodeResponseVisiting (exactAmountIn decodeMsgResponses parse) task data)
      ⟨task.outCurrency, filteredSum task.outCurrency task.coins + amounts.sum⟩ := by
  rw [decode_visiting]
  have hresponses : (exactAmountIn decodeMsgResponses parse).decodeMsgResponses data =
      some responses := hd
  have hvisited := visited_sum decodeMsgResponses parse task.outCurrency task.coins responses
    amounts 0 0 h
  rw [Nat.zero_add, Nat.zero_add] at hvisited
  unfold decodeResponse
  rw [hresponses]
  refine evaluates_bind _ _ _ _ (okOr_evaluates _ _) (evaluates_bind _ _ _ _ hvisited ?_)
  exact evaluates_bind _ _ _ _ (nativeAdd_evaluates _ _ _) (evaluates_pure _)

end Decode

end Nolus.SwapCoins
