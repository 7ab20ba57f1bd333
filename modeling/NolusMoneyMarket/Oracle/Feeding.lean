import NolusMoneyMarket.Base.Runs
import NolusMoneyMarket.MarketPrice.Retention
import NolusMoneyMarket.Oracle.PricePaths

/-! # Feeding of prices

The oracle takes prices from its feeders only, and for the pairs of its swap
tree only. Feeders come and go, and the tree and the configuration of the
prices change. The observations stay: a price is still made of what a contract
has fed before it was removed from the feeders. -/

set_option autoImplicit false

namespace Nolus.OracleFeeding
open Nolus.Fallible Nolus.Prices Nolus.PriceAccuracy Nolus.Trees Nolus.SwapPairs
open Nolus.BasePrices Nolus.PricesFed Nolus.PricePaths Nolus.FeedAverage Nolus.Runs
open Nolus.PriceFeeding (Config Observation VisitOrder PriceFeedsError countUniqueFeeders)
open Nolus.FeedRetention (calcPriceOf addObservation retain)
open Nolus.PriceAlarming (BasePrice)

variable {Addr : Type} {base : ℕ}

/-- A price of a message. Its deserialization lets only such prices through. -/
structure PriceDTO (inPool : ℕ → ℕ → Bool) where
  base : ℕ
  quote : ℕ
  amount : ℕ
  amountQuote : ℕ
  held : Held ⟨amount, amountQuote⟩
  identity : base = quote → amount = amountQuote
  pooled : inPool base quote = true

inductive Error (inPool : ℕ → ℕ → Bool)
  | feederAlreadyRegistered
  | unknownFeeder
  | unsupportedDenomPairs (price : PriceDTO inPool)
  | currency (cause : CurrencyError)
  | pairs (cause : PairsError)
  | brokenSwapTree (cause : PairsError)

structure Oracle (Addr : Type) (base : ℕ) where
  feeders : Finset Addr
  config : Config
  pairs : SupportedPairs base
  observations : ℕ → ℕ → List (Observation Addr)

def Supports (pairs : SupportedPairs base) (c quote : ℕ) : Prop :=
  ∃ leg ∈ pairs.legs, leg.from_ = c ∧ leg.to_.target = quote

section

variable [DecidableEq Addr]

/-! ## The feeders -/

def tryRegister (inPool : ℕ → ℕ → Bool) (self : Finset Addr) (feeder : Addr) :
    Outcome (Error inPool) (Finset Addr) :=
  if feeder ∈ self then failing .feederAlreadyRegistered else pure (insert feeder self)

def tryRemove (inPool : ℕ → ℕ → Bool) (self : Finset Addr) (feeder : Addr) :
    Outcome (Error inPool) (Finset Addr) :=
  if feeder ∈ self then pure (self.erase feeder) else failing .unknownFeeder

/-! ## The prices -/

def Oracle.priceOfFeed (self : Oracle Addr base) (order : VisitOrder Addr)
    (at_ amountC quoteC : ℕ) : Outcome PriceFeedsError Price :=
  calcPriceOf order (self.observations amountC quoteC) self.config at_ self.feeders.card

def collectPrices (inPool : ℕ → ℕ → Bool) (querier : PriceQuerier) :
    LegCmd → List SwapLeg → Outcome PairsError (List BasePrice)
  | _, [] => pure []
  | cmd, leg :: legs => do
    let (cmd, price) ← visitAnyOnCurrencies inPool leg.from_ leg.to_.target (cmd.on querier)
    let prices ← collectPrices inPool querier cmd legs
    pure (price.toList ++ prices)

def Oracle.tryQueryPrices (self : Oracle Addr base) (inPool : ℕ → ℕ → Bool)
    (order : VisitOrder Addr) (at_ : ℕ) : Outcome PairsError (List BasePrice) := do
  let legs ← self.pairs.swapPairsDf
  collectPrices inPool (fun c quote => maybePrice (self.priceOfFeed order at_ c quote))
    (LegCmd.new base) legs

def Oracle.tryQueryBasePrice (self : Oracle Addr base) (inPool : ℕ → ℕ → Bool)
    (order : VisitOrder Addr) (at_ currency : ℕ) : Outcome PairsError BasePrice := do
  let leafToBase ← self.pairs.loadPath currency
  match leafToBase with
  | [] => panicking (.assertion
      "a non-empty chain of currencies to calculate price for the first one")
  | c :: leafToBase => do
    let price ← mapError .priceFeedsError
      (doCollect inPool (self.priceOfFeed order at_) c Price.identity leafToBase)
    pure ⟨c, price⟩

def Oracle.validateSwapTree (self : Oracle Addr base) (inPool : ℕ → ℕ → Bool)
    (order : VisitOrder Addr) (now : ℕ) : Outcome (Error inPool) Unit := do
  let _ ← mapError .brokenSwapTree (self.tryQueryPrices inPool order now)
  pure ()

/-! ## The messages -/

variable {inPool : ℕ → ℕ → Bool}

def Oracle.addObservation (self : Oracle Addr base) (from_ : Addr) (at_ validSince : ℕ)
    (price : PriceDTO inPool) : Outcome (Error inPool) (Oracle Addr base) :=
  if inPool price.base price.quote then
    match h : (Price.new price.amount price.amountQuote : Outcome (Error inPool) Price) with
    | .ok reduced =>
      let observation : Observation Addr := ⟨from_, at_, reduced,
        (new_held _ _ _ price.held.amount_pos price.held.amount_fits price.held.quote_fits h).2
          price.held.quote_pos⟩
      pure { self with observations := fun c quote =>
        if c = price.base ∧ quote = price.quote then
          FeedRetention.addObservation (self.observations c quote) observation validSince
        else self.observations c quote }
    | .error fault => .error fault
  else failing (.currency (.notInPoolWith price.base price.quote))

def Oracle.feed (self : Oracle Addr base) (at_ : ℕ) (sender : Addr)
    (prices : List (PriceDTO inPool)) : Outcome (Error inPool) (Oracle Addr base) :=
  prices.foldlM (fun self price => do
    let validSince ← self.config.feedValidSince at_
    self.addObservation sender at_ validSince price) self

def supportedBy (legs : List SwapLeg) (price : PriceDTO inPool) : Bool :=
  legs.any fun leg => leg.from_ = price.base && leg.to_.target = price.quote

def Oracle.tryFeedPrices (self : Oracle Addr base) (blockTime : ℕ) (sender : Addr)
    (prices : List (PriceDTO inPool)) : Outcome (Error inPool) (Oracle Addr base) := do
  let legs ← self.pairs.swapPairsDf
  match prices.find? fun price => !supportedBy legs price with
  | some unsupported => failing (.unsupportedDenomPairs unsupported)
  | none => self.feed blockTime sender prices

variable (inPool) in
inductive Event (Addr : Type)
  | updateConfig (config : Config)
  | registerFeeder (feeder : Addr)
  | removeFeeder (feeder : Addr)
  | swapTree (tree : PairsTree)
  | feedPrices (sender : Addr) (prices : List (PriceDTO inPool))

def Oracle.handle (order : VisitOrder Addr) (stable : ℕ) (self : Oracle Addr base) (now : ℕ) :
    Event inPool Addr → Outcome (Error inPool) (Oracle Addr base)
  | .updateConfig config => pure { self with config := config }
  | .registerFeeder feeder => do
    let feeders ← tryRegister inPool self.feeders feeder
    pure { self with feeders := feeders }
  | .removeFeeder feeder => do
    let feeders ← tryRemove inPool self.feeders feeder
    pure { self with feeders := feeders }
  | .swapTree tree => do
    let pairs ← mapError .pairs (SupportedPairs.new base stable tree)
    let updated := { self with pairs := pairs }
    updated.validateSwapTree inPool order now
    pure updated
  | .feedPrices sender prices =>
    if sender ∈ self.feeders then self.tryFeedPrices now sender prices
    else failing .unknownFeeder

variable (inPool) in
def instantiate (order : VisitOrder Addr) (stable : ℕ) (config : Config) (tree : PairsTree)
    (now : ℕ) : Outcome (Error inPool) (Oracle Addr base) := do
  let pairs ← mapError .pairs (SupportedPairs.new base stable tree)
  let instantiated : Oracle Addr base := ⟨∅, config, pairs, fun _ _ => []⟩
  instantiated.validateSwapTree inPool order now
  pure instantiated

structure Chain (Addr : Type) (base : ℕ) where
  oracle : Oracle Addr base
  time : ℕ

/-- A block does not come before the previous one, and a failed message is rolled back. -/
def Step (order : VisitOrder Addr) (stable : ℕ) (chain : Chain Addr base)
    (label : ℕ × Event inPool Addr) (next : Chain Addr base) : Prop :=
  chain.time ≤ label.1 ∧ chain.oracle.handle order stable label.1 label.2 = .ok next.oracle ∧
    next.time = label.1

variable (inPool) in
def Instantiated (order : VisitOrder Addr) (stable : ℕ) (chain : Chain Addr base) : Prop :=
  ∃ config tree, instantiate inPool order stable config tree chain.time = .ok chain.oracle

/-! ## What a message adds -/

structure Observed (sender : Addr) (at_ : ℕ) (prices : List (PriceDTO inPool)) (c quote : ℕ)
    (o : Observation Addr) : Prop where
  feeder : o.feeder = sender
  time : o.time = at_
  price : ∃ price ∈ prices, price.base = c ∧ price.quote = quote ∧
    (Price.new price.amount price.amountQuote : Outcome (Error inPool) Price) = .ok o.price

structure Makes (sender : Addr) (at_ : ℕ) (price : PriceDTO inPool) (o : Observation Addr) :
    Prop where
  feeder : o.feeder = sender
  time : o.time = at_
  price : (Price.new price.amount price.amountQuote : Outcome (Error inPool) Price) = .ok o.price

def pricesOf (c quote : ℕ) (prices : List (PriceDTO inPool)) : List (PriceDTO inPool) :=
  prices.filter fun price => price.base = c ∧ price.quote = quote

/-- The observations of all the prices of a pair come behind those of it that are retained. -/
def TakenIn (sender : Addr) (at_ validSince : ℕ) (prices : List (PriceDTO inPool)) (c quote : ℕ)
    (old new : List (Observation Addr)) : Prop :=
  ∃ fresh, List.Forall₂ (Makes sender at_) (pricesOf c quote prices) fresh ∧
    new = (if pricesOf c quote prices = [] then old else retain validSince old) ++ fresh

omit [DecidableEq Addr] in
theorem mem_retain (validSince : ℕ) (items : List (Observation Addr)) (o : Observation Addr)
    (h : o ∈ retain validSince items) : o ∈ items := by
  rw [FeedRetention.retain_eq] at h
  exact (List.dropWhile_sublist _).subset h

def SameBut (self next : Oracle Addr base) : Prop :=
  next.feeders = self.feeders ∧ next.config = self.config ∧ next.pairs = self.pairs

omit [DecidableEq Addr] in
theorem addObservation_ok (self next : Oracle Addr base) (from_ : Addr) (at_ validSince : ℕ)
    (price : PriceDTO inPool)
    (h : self.addObservation from_ at_ validSince price = .ok next) :
    SameBut self next ∧ ∀ c quote, ∀ o ∈ next.observations c quote,
      o ∈ self.observations c quote ∨ Observed from_ at_ [price] c quote o := by
  unfold Oracle.addObservation at h
  split_ifs at h
  · split at h
    case h_2 => cases h
    case h_1 reduced hreduced =>
      obtain rfl := (pure_ok _ _).1 h
      refine ⟨⟨rfl, rfl, rfl⟩, ?_⟩
      intro c quote o ho
      simp only at ho
      split_ifs at ho with hpair
      · rcases List.mem_append.1 ho with hold | hnew
        · exact .inl (mem_retain _ _ _ hold)
        · obtain rfl := List.mem_singleton.1 hnew
          exact .inr ⟨rfl, rfl, price, List.mem_singleton_self _, hpair.1.symm, hpair.2.symm,
            hreduced⟩
      · exact .inl ho
  · exact absurd h (failing_ok _ _)

omit [DecidableEq Addr] in
theorem addObservation_made (self next : Oracle Addr base) (from_ : Addr) (at_ validSince : ℕ)
    (price : PriceDTO inPool)
    (h : self.addObservation from_ at_ validSince price = .ok next) :
    ∃ o, Makes from_ at_ price o ∧ ∀ c quote, next.observations c quote =
      if price.base = c ∧ price.quote = quote then
        retain validSince (self.observations c quote) ++ [o]
      else self.observations c quote := by
  unfold Oracle.addObservation at h
  split_ifs at h
  · split at h
    case h_2 => cases h
    case h_1 reduced hreduced =>
      obtain rfl := (pure_ok _ _).1 h
      have hheld := (new_held _ _ _ price.held.amount_pos price.held.amount_fits
        price.held.quote_fits hreduced).2 price.held.quote_pos
      refine ⟨⟨from_, at_, reduced, hheld⟩, ⟨rfl, rfl, hreduced⟩, fun c quote => ?_⟩
      simp only [eq_comm (a := c), eq_comm (a := quote)]
      rfl
  · exact absurd h (failing_ok _ _)

omit [DecidableEq Addr] in
theorem addObservation_fits (self : Oracle Addr base) (from_ : Addr) (at_ validSince : ℕ)
    (price : PriceDTO inPool) :
    ∃ next, self.addObservation from_ at_ validSince price = .ok next := by
  obtain ⟨reduced, hreduced⟩ :=
    @new_fits (Error inPool) price.amount price.amountQuote price.held.quote_pos
  unfold Oracle.addObservation
  rw [if_pos price.pooled]
  split
  · exact ⟨_, rfl⟩
  · next fault hfault =>
    rw [hreduced] at hfault
    cases hfault

omit [DecidableEq Addr] in
theorem feed_ok (self next : Oracle Addr base) (at_ : ℕ) (sender : Addr)
    (prices : List (PriceDTO inPool)) (h : self.feed at_ sender prices = .ok next) :
    SameBut self next ∧ ∀ c quote, ∀ o ∈ next.observations c quote,
      o ∈ self.observations c quote ∨ Observed sender at_ prices c quote o := by
  induction prices generalizing self with
  | nil =>
    obtain rfl := (pure_ok _ _).1 h
    exact ⟨⟨rfl, rfl, rfl⟩, fun _ _ _ ho => .inl ho⟩
  | cons price prices ih =>
    rw [Oracle.feed, List.foldlM_cons] at h
    simp only [bind_ok] at h
    obtain ⟨first, ⟨validSince, -, hfirst⟩, hrest⟩ := h
    obtain ⟨⟨hfeeders, hconfig, hpairs⟩, hadded⟩ := addObservation_ok _ _ _ _ _ _ hfirst
    obtain ⟨⟨hfeeders', hconfig', hpairs'⟩, hadded'⟩ := ih first hrest
    refine ⟨⟨hfeeders'.trans hfeeders, hconfig'.trans hconfig, hpairs'.trans hpairs⟩, ?_⟩
    intro c quote o ho
    rcases hadded' c quote o ho with hbefore | ⟨hfeeder, htime, price', hin, hprice⟩
    · rcases hadded c quote o hbefore with hold | ⟨hfeeder, htime, price', hin, hprice⟩
      · exact .inl hold
      · obtain rfl := List.mem_singleton.1 hin
        exact .inr ⟨hfeeder, htime, price', List.mem_cons_self, hprice⟩
    · exact .inr ⟨hfeeder, htime, price', List.mem_cons_of_mem _ hin, hprice⟩

omit [DecidableEq Addr] in
theorem feed_taken (self next : Oracle Addr base) (at_ : ℕ) (sender : Addr)
    (prices : List (PriceDTO inPool)) (hpast : 0 < at_)
    (h : self.feed at_ sender prices = .ok next) (c quote : ℕ) :
    TakenIn sender at_ (FeedRetention.horizon self.config at_) prices c quote
      (self.observations c quote) (next.observations c quote) := by
  induction prices generalizing self with
  | nil =>
    obtain rfl := (pure_ok _ _).1 h
    exact ⟨[], .nil, by simp [pricesOf]⟩
  | cons price prices ih =>
    rw [Oracle.feed, List.foldlM_cons] at h
    simp only [bind_ok] at h
    obtain ⟨first, ⟨validSince, hsince, hfirst⟩, hrest⟩ := h
    obtain rfl : FeedRetention.horizon self.config at_ = validSince :=
      Except.ok.inj ((PriceFeeding.feedValidSince_eq (ε := Error inPool) _ _).symm.trans hsince)
    obtain ⟨⟨-, hconfig, -⟩, -⟩ := addObservation_ok _ _ _ _ _ _ hfirst
    obtain ⟨o, hmade, hadded⟩ := addObservation_made _ _ _ _ _ _ hfirst
    obtain ⟨fresh, hfresh, hnext⟩ := ih first hrest
    rw [hconfig] at hnext
    by_cases hpair : price.base = c ∧ price.quote = quote
    · have hvalid : FeedRetention.horizon self.config at_ < o.time := by
        rw [hmade.time]
        exact FeedRetention.valid_before self.config at_ hpast
      have hpairs : pricesOf c quote (price :: prices) = price :: pricesOf c quote prices := by
        simp [pricesOf, hpair]
      have hkept := FeedRetention.retain_again _ (self.observations c quote) o hvalid
      refine ⟨o :: fresh, ?_, ?_⟩
      · rw [hpairs]
        exact .cons hmade hfresh
      · rw [hnext, hadded c quote, if_pos hpair, hpairs, if_neg (List.cons_ne_nil _ _)]
        rw [hkept, ite_self, List.append_assoc, List.singleton_append]
    · have hpairs : pricesOf c quote (price :: prices) = pricesOf c quote prices := by
        simp [pricesOf, hpair]
      refine ⟨fresh, ?_, ?_⟩
      · rw [hpairs]
        exact hfresh
      · rw [hnext, hadded c quote, if_neg hpair, hpairs]

omit [DecidableEq Addr] in
theorem feed_fits (self : Oracle Addr base) (at_ : ℕ) (sender : Addr)
    (prices : List (PriceDTO inPool)) : ∃ next, self.feed at_ sender prices = .ok next := by
  induction prices generalizing self with
  | nil => exact ⟨self, rfl⟩
  | cons price prices ih =>
    obtain ⟨first, hfirst⟩ :=
      addObservation_fits self sender at_ (at_ - self.config.feedValidity) price
    obtain ⟨next, hnext⟩ := ih first
    refine ⟨next, ?_⟩
    rw [Oracle.feed, List.foldlM_cons]
    simp only [bind_ok]
    exact ⟨first, ⟨_, PriceFeeding.feedValidSince_eq _ _, hfirst⟩, hnext⟩

theorem supportedBy_legs (pairs : SupportedPairs base) (price : PriceDTO inPool) :
    supportedBy pairs.legs price = true ↔ Supports pairs price.base price.quote := by
  simp [supportedBy, Supports]

omit [DecidableEq Addr] in
theorem tryFeedPrices_ok (self next : Oracle Addr base) (blockTime : ℕ) (sender : Addr)
    (prices : List (PriceDTO inPool)) :
    self.tryFeedPrices blockTime sender prices = .ok next ↔
      (∀ price ∈ prices, Supports self.pairs price.base price.quote) ∧
        self.feed blockTime sender prices = .ok next := by
  rw [Oracle.tryFeedPrices, swapPairsDf_ok]
  have hfound : (prices.find? fun price => !supportedBy self.pairs.legs price) = none ↔
      ∀ price ∈ prices, Supports self.pairs price.base price.quote := by
    rw [List.find?_eq_none]
    simp only [Bool.not_eq_true, Bool.not_eq_false', supportedBy_legs]
  rw [← hfound]
  simp only [bind, Except.bind]
  cases prices.find? fun price => !supportedBy self.pairs.legs price with
  | none => simp
  | some unsupported => simp

/-- A message of prices is handled when it is of a feeder and of supported pairs. -/
theorem handle_feedPrices (order : VisitOrder Addr) (stable : ℕ) (self next : Oracle Addr base)
    (now : ℕ) (sender : Addr) (prices : List (PriceDTO inPool)) :
    self.handle order stable now (.feedPrices sender prices) = .ok next ↔
      (sender ∈ self.feeders ∧ ∀ price ∈ prices, Supports self.pairs price.base price.quote) ∧
        self.feed now sender prices = .ok next := by
  rw [and_assoc, ← tryFeedPrices_ok, Oracle.handle]
  split_ifs with hfeeder
  · exact (and_iff_right hfeeder).symm
  · exact iff_of_false (failing_ok _ _) fun h => hfeeder h.1

/-! ## What a step does to the observations -/

structure Fed (chain : Chain Addr base) (label : ℕ × Event inPool Addr) (c quote : ℕ)
    (o : Observation Addr) : Prop where
  feeder : o.feeder ∈ chain.oracle.feeders
  supported : Supports chain.oracle.pairs c quote
  message : ∃ prices, label = (o.time, .feedPrices o.feeder prices) ∧
    Observed o.feeder o.time prices c quote o

variable (order : VisitOrder Addr) (stable : ℕ)

theorem step_observations (chain next : Chain Addr base) (label : ℕ × Event inPool Addr)
    (h : Step order stable chain label next) (c quote : ℕ) (o : Observation Addr)
    (ho : o ∈ next.oracle.observations c quote) :
    o ∈ chain.oracle.observations c quote ∨ Fed chain label c quote o := by
  obtain ⟨now, event⟩ := label
  obtain ⟨-, hhandled, -⟩ := h
  cases event with
  | updateConfig config =>
    rw [← (pure_ok _ _).1 hhandled] at ho
    exact .inl ho
  | registerFeeder feeder =>
    obtain ⟨feeders, -, hnext⟩ := (bind_ok _ _ _).1 hhandled
    rw [← (pure_ok _ _).1 hnext] at ho
    exact .inl ho
  | removeFeeder feeder =>
    obtain ⟨feeders, -, hnext⟩ := (bind_ok _ _ _).1 hhandled
    rw [← (pure_ok _ _).1 hnext] at ho
    exact .inl ho
  | swapTree tree =>
    obtain ⟨pairs, -, hvalidated⟩ := (bind_ok _ _ _).1 hhandled
    obtain ⟨_, -, hnext⟩ := (bind_ok _ _ _).1 hvalidated
    rw [← (pure_ok _ _).1 hnext] at ho
    exact .inl ho
  | feedPrices sender prices =>
    obtain ⟨⟨hfeeder, hsupported⟩, hfed⟩ := (handle_feedPrices _ _ _ _ _ _ _).1 hhandled
    obtain ⟨-, hadded⟩ := feed_ok _ _ _ _ _ hfed
    rcases hadded c quote o ho with hold | hobserved
    · exact .inl hold
    · obtain ⟨rfl, rfl, price, hin, rfl, rfl, hprice⟩ := hobserved
      exact .inr ⟨hfeeder, hsupported price hin, prices, rfl, rfl, rfl, price, hin, rfl, rfl,
        hprice⟩

/-! ## What a price is made of -/

def valid (config : Config) (at_ : ℕ) (items : List (Observation Addr)) :
    List (Observation Addr) :=
  items.filter fun o => o.validSince (FeedPrice.cutOff config at_)

theorem calcPriceOf_ok (items : List (Observation Addr)) (config : Config)
    (at_ totalFeeders : ℕ) (price : Price)
    (h : calcPriceOf order items config at_ totalFeeders = .ok price) :
    ∃ needed, (config.feedersNeeded totalFeeders : Outcome PriceFeedsError ℕ) = .ok needed ∧
      needed ≤ countUniqueFeeders (valid config at_ items) ∧
      (PriceFeeding.reduceSamples order config.discountFactor config.samplesNumber.toNat
        (FeedPrice.startBuilder (valid config at_ items) config at_) none :
          Outcome PriceFeedsError _) = .ok (some price) := by
  rw [calcPriceOf, PriceFeeding.feedValidSince_eq] at h
  simp only [bind_ok] at h
  obtain ⟨_, hsince, needed, hneeded, hprice⟩ := h
  obtain rfl := Except.ok.inj hsince
  refine ⟨needed, hneeded, ?_⟩
  split_ifs at hprice with hquorum
  · simp only [bind_ok, okOr_ok] at hprice
    obtain ⟨_, hreduced, rfl⟩ := hprice
    exact ⟨hquorum, hreduced⟩
  · exact absurd hprice (failing_ok _ _)

theorem calcPriceOf_range (items : List (Observation Addr)) (config : Config)
    (at_ totalFeeders : ℕ) (price : Price)
    (h : calcPriceOf order items config at_ totalFeeders = .ok price) (lo hi : ℚ) (h0 : 0 ≤ hi)
    (hbounds : ∀ o ∈ valid config at_ items, Between lo hi o.price) :
    Between (lowest config.samplesNumber.toNat lo) (highest config.samplesNumber.toNat hi)
      price := by
  obtain ⟨_, -, -, hreduced⟩ := calcPriceOf_ok order items config at_ totalFeeders price h
  have haveraged := reduce_bounds order _ lo hi config.discountFactor config.samplesNumber.toNat 0
    _ none (some price) h0 config.discount_held.2 hbounds
    (FeedPrice.startBuilder_within _ config at_ lo hi) (fun _ hp => by cases hp) hreduced
  rw [Nat.zero_add] at haveraged
  exact (haveraged price rfl).2.2

theorem calcPriceOf_nonempty (items : List (Observation Addr)) (config : Config)
    (at_ totalFeeders : ℕ) (price : Price)
    (h : calcPriceOf order items config at_ totalFeeders = .ok price) :
    valid config at_ items ≠ [] := by
  intro hnil
  have hn : config.samplesNumber.toNat ≤ 2 ^ 16 := config.samplesNumber.toNat_lt.le
  apply FeedPrice.averaged_nonempty config.samplesNumber.toNat price hn
  apply calcPriceOf_range order items config at_ totalFeeders price h 1 0 le_rfl
  rw [hnil]
  simp

/-! ## Along a run -/

/-- A step of the run feeds the observation, of a contract that is a feeder and for a pair that is
in the tree by then. -/
def FedAlong (start : Chain Addr base) (events : List (ℕ × Event inPool Addr)) (c quote : ℕ)
    (o : Observation Addr) : Prop :=
  ∃ before label after mid, events = before ++ label :: after ∧
    Run (Step order stable) start before mid ∧ Fed mid label c quote o

theorem stored_fed (start chain : Chain Addr base) (events : List (ℕ × Event inPool Addr))
    (h0 : Instantiated inPool order stable start)
    (hr : Run (Step order stable) start events chain) (c quote : ℕ) (o : Observation Addr)
    (ho : o ∈ chain.oracle.observations c quote) :
    FedAlong order stable start events c quote o := by
  have htraced := run_traced
    (fun (chain : Chain Addr base) o => o ∈ chain.oracle.observations c quote)
    (fun chain (label : ℕ × Event inPool Addr) o => Fed chain label c quote o)
    (fun chain label next o h ho => step_observations order stable chain next label h c quote o ho)
    start chain events hr o ho
  rcases htraced with hstart | hfed
  · obtain ⟨config, tree, hnew⟩ := h0
    obtain ⟨pairs, -, hvalidated⟩ := (bind_ok _ _ _).1 hnew
    obtain ⟨_, -, hinstantiated⟩ := (bind_ok _ _ _).1 hvalidated
    rw [← (pure_ok _ _).1 hinstantiated] at hstart
    cases hstart
  · exact hfed

/-! ## A sample -/

def neighbours (c quote : ℕ) : Bool := c = quote || c = quote + 1

def samplePrice : PriceDTO neighbours where
  base := 1
  quote := 0
  amount := 4
  amountQuote := 8
  held := ⟨⟨by decide, by decide, by decide⟩, by decide⟩
  identity := by decide
  pooled := rfl

def sampleStart : Chain ℕ 0 := ⟨⟨∅, FeedPrice.sampleConfig, path3, fun _ _ => []⟩, 0⟩

def sampleRegistered : Chain ℕ 0 := ⟨{ sampleStart.oracle with feeders := {7} }, 10⟩

theorem sample_held : Held ⟨1, 2⟩ := ⟨⟨by decide, by decide, by decide⟩, by decide⟩

def sampleObservation : Observation ℕ := ⟨7, 98, ⟨1, 2⟩, sample_held⟩

def sampleFed : Chain ℕ 0 :=
  ⟨{ sampleRegistered.oracle with
    observations := fun c quote => if c = 1 ∧ quote = 0 then [sampleObservation] else [] }, 98⟩

def sampleBoth : Chain ℕ 0 := ⟨{ sampleFed.oracle with feeders := insert 8 {7} }, 98⟩

def sampleRemoved : Chain ℕ 0 :=
  ⟨{ sampleBoth.oracle with feeders := (insert 8 {7} : Finset ℕ).erase 7 }, 99⟩

def sampleEvents : List (ℕ × Event neighbours ℕ) :=
  [(10, .registerFeeder 7), (98, .feedPrices 7 [samplePrice]), (98, .registerFeeder 8),
    (99, .removeFeeder 7)]

theorem sample_instantiated : Instantiated neighbours FeedPrice.asInserted 1 sampleStart := by
  refine ⟨FeedPrice.sampleConfig, path3.tree, ?_⟩
  rw [instantiate, (new_ok 1 path3).2 (by decide)]
  rfl

theorem sample_run :
    Run (Step FeedPrice.asInserted 1) sampleStart sampleEvents sampleRemoved := by
  have hregistered : Step FeedPrice.asInserted 1 sampleStart
      (10, (.registerFeeder 7 : Event neighbours ℕ)) sampleRegistered := ⟨by decide, rfl, rfl⟩
  have hfed : Step FeedPrice.asInserted 1 sampleRegistered
      (98, (.feedPrices 7 [samplePrice] : Event neighbours ℕ)) sampleFed := ⟨by decide, rfl, rfl⟩
  have hboth : Step FeedPrice.asInserted 1 sampleFed
      (98, (.registerFeeder 8 : Event neighbours ℕ)) sampleBoth := ⟨by decide, rfl, rfl⟩
  have hremoved : Step FeedPrice.asInserted 1 sampleBoth
      (99, (.removeFeeder 7 : Event neighbours ℕ)) sampleRemoved := ⟨by decide, rfl, rfl⟩
  exact Run.next _ _ _ [_, _, _] _ (Run.next _ _ _ [_, _] _ (Run.next _ _ _ [_] _
    (run_one _ _ _ hregistered) hfed) hboth) hremoved

theorem sample_price :
    sampleRemoved.oracle.priceOfFeed FeedPrice.asInserted 100 1 0 = .ok ⟨1, 2⟩ := rfl

/-- A feed has a price only by the observations, each within the validity, of as many contracts
as the configuration asks for, one at least. Every one of them was a feeder as it fed the price,
and the pair was in the tree by then. -/
theorem priced_by_feeders (start chain : Chain Addr base)
    (events : List (ℕ × Event inPool Addr)) (h0 : Instantiated inPool order stable start)
    (hr : Run (Step order stable) start events chain) (at_ c quote : ℕ) (price : Price)
    (hprice : chain.oracle.priceOfFeed order at_ c quote = .ok price) :
    ∃ feeders : Finset Addr, feeders.Nonempty ∧
      (∃ needed, (chain.oracle.config.feedersNeeded chain.oracle.feeders.card :
        Outcome PriceFeedsError ℕ) = .ok needed ∧ needed ≤ feeders.card) ∧
      ∀ feeder ∈ feeders, ∃ o, o.feeder = feeder ∧
        at_ - chain.oracle.config.feedValidity < o.time ∧
        FedAlong order stable start events c quote o := by
  obtain ⟨needed, hneeded, hquorum, -⟩ := calcPriceOf_ok order _ _ _ _ price hprice
  have hsome := calcPriceOf_nonempty order _ _ _ _ price hprice
  set items := valid chain.oracle.config at_ (chain.oracle.observations c quote) with hitems
  refine ⟨(items.map fun o => o.feeder).toFinset, ?_, ⟨needed, hneeded, ?_⟩, ?_⟩
  · obtain ⟨o, ho⟩ := List.exists_mem_of_ne_nil items hsome
    exact ⟨o.feeder, List.mem_toFinset.2 (List.mem_map_of_mem ho)⟩
  · rw [List.card_toFinset]
    exact hquorum
  · intro feeder hfeeder
    obtain ⟨o, ho, rfl⟩ := List.mem_map.1 (List.mem_toFinset.1 hfeeder)
    obtain ⟨hstored, hvalid⟩ := List.mem_filter.1 ho
    exact ⟨o, rfl, of_decide_eq_true hvalid,
      stored_fed order stable start chain events h0 hr c quote o hstored⟩

theorem priced_by_feeders_sample :
    ∃ feeders : Finset ℕ, feeders.Nonempty ∧
      (∃ needed, (FeedPrice.sampleConfig.feedersNeeded 1 : Outcome PriceFeedsError ℕ) =
        .ok needed ∧ needed ≤ feeders.card) ∧
      ∀ feeder ∈ feeders, ∃ o, o.feeder = feeder ∧ 40 < o.time ∧
        FedAlong FeedPrice.asInserted 1 sampleStart sampleEvents 1 0 o :=
  priced_by_feeders FeedPrice.asInserted 1 sampleStart sampleRemoved sampleEvents
    sample_instantiated sample_run 100 1 0 ⟨1, 2⟩ sample_price

/-- Only what feeders have fed within the validity moves a price. -/
theorem price_within_fed (start chain : Chain Addr base)
    (events : List (ℕ × Event inPool Addr)) (h0 : Instantiated inPool order stable start)
    (hr : Run (Step order stable) start events chain) (at_ c quote : ℕ) (price : Price)
    (hprice : chain.oracle.priceOfFeed order at_ c quote = .ok price) (lo hi : ℚ) (hhi : 0 ≤ hi)
    (hfed : ∀ o, FedAlong order stable start events c quote o →
      at_ - chain.oracle.config.feedValidity < o.time → Between lo hi o.price) :
    Between (lowest chain.oracle.config.samplesNumber.toNat lo)
      (highest chain.oracle.config.samplesNumber.toNat hi) price := by
  apply calcPriceOf_range order _ _ _ _ price hprice lo hi hhi
  intro o ho
  obtain ⟨hstored, hvalid⟩ := List.mem_filter.1 ho
  exact hfed o (stored_fed order stable start chain events h0 hr c quote o hstored)
    (of_decide_eq_true hvalid)

theorem sample_observed (o : Observation ℕ)
    (h : FedAlong FeedPrice.asInserted 1 sampleStart sampleEvents 1 0 o) : Between 2 2 o.price := by
  obtain ⟨before, label, after, mid, hevents, -, hfed⟩ := h
  obtain ⟨prices, rfl, -, -, price, hin, -, -, hprice⟩ := hfed.message
  have hlabel : (o.time, Event.feedPrices o.feeder prices) ∈ sampleEvents := by
    rw [hevents]
    exact List.mem_append_right _ List.mem_cons_self
  simp only [sampleEvents, List.mem_cons, Prod.mk.injEq, reduceCtorEq, and_false, false_or,
    List.not_mem_nil, or_false, Event.feedPrices.injEq] at hlabel
  obtain ⟨-, -, rfl⟩ := hlabel
  obtain rfl := List.mem_singleton.1 hin
  obtain hvalue : (⟨1, 2⟩ : Price) = o.price := Except.ok.inj hprice
  rw [← hvalue]
  constructor <;> norm_num [value]

theorem price_within_fed_sample :
    Between (lowest 12 2) (highest 12 2) ⟨1, 2⟩ :=
  price_within_fed FeedPrice.asInserted 1 sampleStart sampleRemoved sampleEvents
    sample_instantiated sample_run 100 1 0 ⟨1, 2⟩ sample_price 2 2 (by norm_num)
    fun o ho _ => sample_observed o ho

/-! ## The pools of the tree -/

theorem collectPrices_pooled (querier : PriceQuerier) (cmd : LegCmd) (legs : List SwapLeg)
    (prices : List BasePrice) (h : collectPrices inPool querier cmd legs = .ok prices) :
    ∀ leg ∈ legs, inPool leg.from_ leg.to_.target = true := by
  induction legs generalizing cmd prices with
  | nil => simp
  | cons leg legs ih =>
    simp only [collectPrices, bind_ok] at h
    obtain ⟨⟨cmd', _⟩, hvisited, rest, hrest, -⟩ := h
    intro leg' hleg'
    rcases List.mem_cons.1 hleg' with rfl | hin
    · rw [visitAnyOnCurrencies] at hvisited
      split_ifs at hvisited with hpool
      · exact hpool
      · exact absurd hvisited (failing_ok _ _)
    · exact ih cmd' rest hrest leg' hin

def Pooled (inPool : ℕ → ℕ → Bool) (pairs : SupportedPairs base) : Prop :=
  ∀ leg ∈ pairs.legs, inPool leg.from_ leg.to_.target = true

theorem validateSwapTree_pooled (self : Oracle Addr base) (now : ℕ)
    (h : self.validateSwapTree inPool order now = .ok ()) : Pooled inPool self.pairs := by
  simp only [Oracle.validateSwapTree, bind_ok, mapError_ok, Oracle.tryQueryPrices] at h
  obtain ⟨prices, ⟨legs, hlegs, hcollected⟩, -⟩ := h
  rw [swapPairsDf_ok] at hlegs
  obtain rfl := Except.ok.inj hlegs
  exact collectPrices_pooled _ _ _ prices hcollected

theorem step_pooled (chain next : Chain Addr base) (label : ℕ × Event inPool Addr)
    (h : Step order stable chain label next) (hp : Pooled inPool chain.oracle.pairs) :
    Pooled inPool next.oracle.pairs := by
  obtain ⟨now, event⟩ := label
  obtain ⟨-, hhandled, -⟩ := h
  cases event with
  | updateConfig config =>
    rw [← (pure_ok _ _).1 hhandled]
    exact hp
  | registerFeeder feeder =>
    obtain ⟨feeders, -, hnext⟩ := (bind_ok _ _ _).1 hhandled
    rw [← (pure_ok _ _).1 hnext]
    exact hp
  | removeFeeder feeder =>
    obtain ⟨feeders, -, hnext⟩ := (bind_ok _ _ _).1 hhandled
    rw [← (pure_ok _ _).1 hnext]
    exact hp
  | swapTree tree =>
    obtain ⟨pairs, -, hvalidated⟩ := (bind_ok _ _ _).1 hhandled
    obtain ⟨hvalid, hnext⟩ := (then_ok _ _ _).1 hvalidated
    rw [← (pure_ok _ _).1 hnext]
    exact validateSwapTree_pooled order _ now hvalid
  | feedPrices sender prices =>
    obtain ⟨-, hfed⟩ := (handle_feedPrices _ _ _ _ _ _ _).1 hhandled
    rw [(feed_ok _ _ _ _ _ hfed).1.2.2]
    exact hp

theorem reachable_pooled (chain : Chain Addr base)
    (h : Reachable (fun (chain : Chain Addr base) (label : ℕ × Event inPool Addr) next =>
      Step order stable chain label next) (Instantiated inPool order stable) chain) :
    Pooled inPool chain.oracle.pairs := by
  refine reachable_induction _ (fun chain => Pooled inPool chain.oracle.pairs) ?_
    (fun chain label next => step_pooled order stable chain next label) chain h
  rintro start ⟨config, tree, hnew⟩
  obtain ⟨pairs, -, hvalidated⟩ := (bind_ok _ _ _).1 hnew
  obtain ⟨hvalid, hinstantiated⟩ := (then_ok _ _ _).1 hvalidated
  rw [← (pure_ok _ _).1 hinstantiated]
  exact validateSwapTree_pooled order _ _ hvalid

theorem pathOf_supported (pairs : SupportedPairs base) (node : NodeRef pairs.tree) :
    (pathOf pairs node).IsChain (Supports pairs) := by
  induction node using node_induction pairs.tree with
  | h0 => exact List.isChain_singleton _
  | hstep node parent hpar ih =>
    rw [pathOf_step pairs node parent hpar]
    have hleg := leg_some pairs node parent hpar
    exact List.isChain_cons_cons.2 ⟨⟨_, (mem_legs pairs _).2 ⟨node, hleg⟩, rfl, rfl⟩, ih⟩

omit [DecidableEq Addr] in
theorem doCollect_pooled (priceOfFeed : ℕ → ℕ → Outcome PriceFeedsError Price) (c : ℕ)
    (acc : Price) (path : List ℕ)
    (h : (c :: path).IsChain fun c quote => inPool c quote = true) :
    doCollect inPool priceOfFeed c acc path =
      doCollect (fun _ _ => true) priceOfFeed c acc path := by
  induction path generalizing c acc with
  | nil => rfl
  | cons next path ih =>
    obtain ⟨hpool, hrest⟩ := List.isChain_cons_cons.1 h
    simp only [doCollect, hpool]
    refine bind_congr fun _ => bind_congr fun nextPrice => bind_congr fun totalPrice => ?_
    exact ih next totalPrice hrest

theorem query_pooled (self : Oracle Addr base) (hpooled : Pooled inPool self.pairs)
    (at_ currency : ℕ) :
    self.tryQueryBasePrice inPool order at_ currency =
      self.tryQueryBasePrice (fun _ _ => true) order at_ currency := by
  have hpath : ∀ path, self.pairs.loadPath currency = .ok path →
      path.IsChain fun c quote => inPool c quote = true := by
    intro path hloaded
    simp only [SupportedPairs.loadPath, SupportedPairs.internalLoadPath, bind_ok, okOr_ok,
      pure_ok] at hloaded
    obtain ⟨_, ⟨_, -, node, -, rfl⟩, rfl⟩ := hloaded
    apply (pathOf_supported self.pairs node).imp
    rintro c quote ⟨leg, hleg, rfl, rfl⟩
    exact hpooled leg hleg
  simp only [Oracle.tryQueryBasePrice]
  cases hloaded : self.pairs.loadPath currency with
  | error fault => rfl
  | ok path =>
    cases path with
    | nil => rfl
    | cons c path =>
      simp only [bind, Except.bind]
      rw [doCollect_pooled _ c _ path (hpath _ hloaded)]

/-- In every state of an oracle a message of prices goes through just when it is of a feeder and
its prices are of pairs in the tree, all of them are then taken in, and no query of a base price
comes upon currencies that are in no pool. -/
theorem oracle_unbroken (chain : Chain Addr base)
    (h : Reachable (fun (chain : Chain Addr base) (label : ℕ × Event inPool Addr) next =>
      Step order stable chain label next) (Instantiated inPool order stable) chain) :
    (∀ now sender (prices : List (PriceDTO inPool)), chain.time ≤ now →
      ((∃ next, Step order stable chain (now, .feedPrices sender prices) next) ↔
        sender ∈ chain.oracle.feeders ∧
          ∀ price ∈ prices, Supports chain.oracle.pairs price.base price.quote)) ∧
      (∀ now sender (prices : List (PriceDTO inPool)) next, 0 < now →
        Step order stable chain (now, .feedPrices sender prices) next →
        SameBut chain.oracle next.oracle ∧
        ∀ c quote, TakenIn sender now (FeedRetention.horizon chain.oracle.config now) prices c quote
          (chain.oracle.observations c quote) (next.oracle.observations c quote)) ∧
      ∀ at_ currency, chain.oracle.tryQueryBasePrice inPool order at_ currency =
        chain.oracle.tryQueryBasePrice (fun _ _ => true) order at_ currency := by
  refine ⟨?_, ?_, query_pooled order chain.oracle (reachable_pooled order stable chain h)⟩
  · intro now sender prices hnow
    constructor
    · rintro ⟨next, -, hhandled, -⟩
      exact ((handle_feedPrices _ _ _ _ _ _ _).1 hhandled).1
    · intro hgoes
      obtain ⟨next, hnext⟩ := feed_fits chain.oracle now sender prices
      exact ⟨⟨next, now⟩, hnow, (handle_feedPrices _ _ _ _ _ _ _).2 ⟨hgoes, hnext⟩, rfl⟩
  · rintro now sender prices next hpast ⟨-, hhandled, -⟩
    obtain ⟨-, hfed⟩ := (handle_feedPrices _ _ _ _ _ _ _).1 hhandled
    exact ⟨(feed_ok _ _ _ _ _ hfed).1, feed_taken _ _ _ _ _ hpast hfed⟩

theorem oracle_unbroken_sample :
    (∀ now sender (prices : List (PriceDTO neighbours)), 99 ≤ now →
      ((∃ next, Step FeedPrice.asInserted 1 sampleRemoved (now, .feedPrices sender prices) next) ↔
        sender ∈ sampleRemoved.oracle.feeders ∧
          ∀ price ∈ prices, Supports path3 price.base price.quote)) ∧
      (∀ now sender (prices : List (PriceDTO neighbours)) next, 0 < now →
        Step FeedPrice.asInserted 1 sampleRemoved (now, .feedPrices sender prices) next →
        SameBut sampleRemoved.oracle next.oracle ∧
        ∀ c quote, TakenIn sender now (FeedRetention.horizon FeedPrice.sampleConfig now) prices c
          quote (sampleRemoved.oracle.observations c quote) (next.oracle.observations c quote)) ∧
      ∀ at_ currency,
        sampleRemoved.oracle.tryQueryBasePrice neighbours FeedPrice.asInserted at_ currency =
          sampleRemoved.oracle.tryQueryBasePrice (fun _ _ => true) FeedPrice.asInserted at_
            currency :=
  oracle_unbroken FeedPrice.asInserted 1 sampleRemoved
    ⟨sampleStart, sampleEvents, sample_instantiated, sample_run⟩

end

end Nolus.OracleFeeding
