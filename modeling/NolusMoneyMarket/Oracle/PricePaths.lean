import NolusMoneyMarket.MarketPrice.FeedPrice
import NolusMoneyMarket.MarketPrice.Feeds
import NolusMoneyMarket.Oracle.PricesWalk

/-! # The two price paths of the oracle

The base prices of all currencies are products from the base currency on, and
that of a single currency is a product from the currency on. Both are over
the same prices of feeds. They exist together, and are equal when no product
drops bits. -/

set_option autoImplicit false

namespace Nolus.PricePaths
open Nolus.Fallible Nolus.Prices Nolus.PriceAccuracy Nolus.PriceProducts Nolus.Trees
open Nolus.SwapPairs Nolus.BasePrices Nolus.PricesWalk Nolus.PricesFed
open Nolus.PriceFeeding (PriceFeedsError Observations)
open Nolus.PriceAlarming (BasePrice)

variable {Addr : Type} [DecidableEq Addr] {base : ℕ}

/-- A feed without a price is not an error. -/
def maybePrice : Outcome PriceFeedsError Price → Outcome PairsError (Option Price)
  | .ok price => pure (some price)
  | .error (.error .noPrice) => pure none
  | .error (.error reason) => failing (.priceFeedsError reason)
  | .error (.panic cause) => panicking cause

def fedPrices (feeds : PriceFeeds Addr) (at_ totalFeeders : ℕ) : PriceQuerier :=
  fun amountC quoteC => maybePrice (feeds.priceOfFeed amountC quoteC at_ totalFeeders)

def calcAllPrices (feeds : PriceFeeds Addr) (inPool : ℕ → ℕ → Bool) (pairs : SupportedPairs base)
    (at_ totalFeeders : ℕ) : Outcome PairsError (List PriceResult) := do
  let legs ← pairs.swapPairsDf
  allPricesIter inPool (fedPrices feeds at_ totalFeeders) base legs

def calcBasePrice (feeds : PriceFeeds Addr) (inPool : ℕ → ℕ → Bool) (pairs : SupportedPairs base)
    (currency at_ totalFeeders : ℕ) : Outcome PairsError BasePrice := do
  let leafToBase ← pairs.loadPath currency
  mapError .priceFeedsError (feeds.price inPool at_ totalFeeders leafToBase)

/-! ## Products from the base currency on -/

def productFromBase : List Price → Outcome PairsError Price
  | [] => pure Price.identity
  | price :: prices => do
    let parentPrice ← productFromBase prices
    price.mul parentPrice

def KeepsFromBase : List Price → Prop
  | [] => True
  | price :: prices => KeepsFromBase prices ∧
    ∀ parentPrice, productFromBase prices = .ok parentPrice → KeepsBits price parentPrice

theorem productFromBase_exact (r : Price) (prices : List Price)
    (hprices : ∀ p ∈ prices, Nat.Coprime p.amount p.amountQuote) (hkeep : KeepsFromBase prices)
    (h : productFromBase prices = .ok r) : Reduced r ∧ value r = exactProduct prices := by
  induction prices generalizing r with
  | nil =>
    obtain rfl := (pure_ok _ _).1 h
    exact ⟨identity_reduced, by simp [exactProduct, identity_value]⟩
  | cons p prices ih =>
    obtain ⟨q, hq, hr⟩ := (bind_ok _ _ _).1 h
    obtain ⟨hreduced, hval⟩ := ih q (fun p hp => hprices p (List.mem_cons_of_mem _ hp)) hkeep.1 hq
    obtain ⟨⟨hpos, hpos'⟩, _⟩ := mul_positive p q r hr
    have hp : Canonical p := ⟨hpos, hpos', hprices p List.mem_cons_self⟩
    obtain ⟨r', hr', hval'⟩ := @mul_exact PairsError p q hp (reduced_canonical q hreduced)
      (hkeep.2 q hq)
    rw [hr] at hr'
    obtain rfl := Except.ok.inj hr'
    refine ⟨mul_reduced p q r hr, ?_⟩
    rw [hval', hval, exactProduct, exactProduct, List.map_cons, List.prod_cons]

/-! ## Both paths go along the legs of the currency -/

section

variable (feeds : PriceFeeds Addr) (inPool : ℕ → ℕ → Bool) (pairs : SupportedPairs base)
  (at_ totalFeeders : ℕ)

def feedOf : ℕ → ℕ → Outcome PriceFeedsError Price :=
  fun c quote => feeds.priceOfFeed c quote at_ totalFeeders

theorem legPrice_feed (leg : SwapLeg) :
    legPrice inPool (fedPrices feeds at_ totalFeeders) leg =
      pairPrice inPool (feedOf feeds at_ totalFeeders) leg.from_ leg.to_.target := by
  unfold legPrice pairPrice fedPrices feedOf maybePrice
  split_ifs with hpool
  · cases feeds.priceOfFeed leg.from_ leg.to_.target at_ totalFeeders with
    | ok p => rfl
    | error fault =>
      cases fault with
      | panic cause => rfl
      | error reason => cases reason <;> rfl
  · rfl

def pathOf (node : NodeRef pairs.tree) : List ℕ :=
  (node :: pairs.tree.parentsIter node).map pairs.currencyOf

theorem loadPath_node (node : NodeRef pairs.tree) :
    pairs.loadPath (pairs.currencyOf node) = .ok (pathOf pairs node) :=
  (bind_ok _ _ _).2 ⟨_, internalLoadPath_ok pairs node, rfl⟩

theorem pathOf_step (node parent : NodeRef pairs.tree)
    (h : pairs.tree.parentOf node = some parent) :
    pathOf pairs node = pairs.currencyOf node :: pathOf pairs parent := by
  rw [pathOf, parentsIter_cons pairs.tree node parent h]
  rfl

theorem pathPrices_step (node parent : NodeRef pairs.tree)
    (h : pairs.tree.parentOf node = some parent) :
    ∃ leg ∈ pairs.legs, leg.from_ = pairs.currencyOf node ∧
      leg.to_.target = pairs.currencyOf parent ∧ ∀ prices,
        (pathPrices inPool (feedOf feeds at_ totalFeeders) (pathOf pairs node) = some prices ↔
          ∃ p rest, legPrice inPool (fedPrices feeds at_ totalFeeders) leg = some p ∧
            pathPrices inPool (feedOf feeds at_ totalFeeders) (pathOf pairs parent) = some rest ∧
            prices = p :: rest) := by
  have hleg := leg_some pairs node parent h
  refine ⟨_, (mem_legs pairs _).2 ⟨node, hleg⟩, rfl, rfl, ?_⟩
  intro prices
  rw [legPrice_feed, pathOf_step pairs node parent h]
  exact pathPrices_cons _ _ _ _ _ _

/-- A currency is fully priced when there is a price for each pair on its path. -/
theorem priced_path (node : NodeRef pairs.tree) :
    Priced pairs.legs (legPrice inPool (fedPrices feeds at_ totalFeeders)) base
        (pairs.currencyOf node) ↔
      ∃ prices, pathPrices inPool (feedOf feeds at_ totalFeeders) (pathOf pairs node) =
        some prices := by
  induction node using node_induction pairs.tree with
  | h0 =>
    rw [currencyOf_root]
    constructor
    · intro _
      exact ⟨[], rfl⟩
    · intro _
      exact .base
  | hstep node parent hpar ih =>
    obtain ⟨leg, hin, hfrom, htarget, hsteps⟩ :=
      pathPrices_step feeds inPool pairs at_ totalFeeders node parent hpar
    rw [← hfrom]
    rw [← htarget] at ih
    constructor
    · intro hpriced
      obtain ⟨⟨p, hp⟩, hparent⟩ := priced_leg pairs _ leg hin hpriced
      obtain ⟨rest, hrest⟩ := ih.1 hparent
      exact ⟨p :: rest, (hsteps _).2 ⟨p, rest, hp, hrest, rfl⟩⟩
    · rintro ⟨prices, hprices⟩
      obtain ⟨p, rest, hp, hrest, _⟩ := (hsteps prices).1 hprices
      exact .leg leg p hin hp (ih.2 ⟨rest, hrest⟩)

/-- Its base price is the product of these prices. -/
theorem baseOf_path (node : NodeRef pairs.tree) (r : Price)
    (h : BaseOf pairs.legs (legPrice inPool (fedPrices feeds at_ totalFeeders)) base
      (pairs.currencyOf node) r) :
    ∃ prices, pathPrices inPool (feedOf feeds at_ totalFeeders) (pathOf pairs node) =
      some prices ∧ productFromBase prices = .ok r := by
  induction node using node_induction pairs.tree generalizing r with
  | h0 =>
    rw [currencyOf_root] at h
    obtain rfl := baseOf_base pairs _ base r h rfl
    exact ⟨[], rfl, rfl⟩
  | hstep node parent hpar ih =>
    obtain ⟨leg, hin, hfrom, htarget, hsteps⟩ :=
      pathPrices_step feeds inPool pairs at_ totalFeeders node parent hpar
    rw [← hfrom] at h
    obtain ⟨p, q, hp, hq, hmul⟩ := baseOf_leg pairs _ leg r hin h
    rw [htarget] at hq
    obtain ⟨rest, hrest, hproduct⟩ := ih q hq
    refine ⟨p :: rest, (hsteps _).2 ⟨p, rest, hp, hrest, rfl⟩, ?_⟩
    exact (bind_ok _ _ _).2 ⟨q, hproduct, hmul⟩

theorem calcBasePrice_path (node : NodeRef pairs.tree) (prices : List Price)
    (h : pathPrices inPool (feedOf feeds at_ totalFeeders) (pathOf pairs node) = some prices) :
    calcBasePrice feeds inPool pairs (pairs.currencyOf node) at_ totalFeeders =
      mapError Error.priceFeedsError (do
        let price ← productFromLeaf Price.identity prices
        pure ⟨pairs.currencyOf node, price⟩) := by
  have hcollect := doCollect_priced inPool (feedOf feeds at_ totalFeeders)
    (pairs.currencyOf node) Price.identity _ prices h
  rw [calcBasePrice, loadPath_node]
  show mapError Error.priceFeedsError (PriceFeeds.price feeds inPool at_ totalFeeders
    (pairs.currencyOf node :: _)) = _
  rw [PriceFeeds.price, ← hcollect]
  rfl

theorem calcBasePrice_ok (node : NodeRef pairs.tree) (b : BasePrice)
    (h : calcBasePrice feeds inPool pairs (pairs.currencyOf node) at_ totalFeeders = .ok b) :
    ∃ prices, pathPrices inPool (feedOf feeds at_ totalFeeders) (pathOf pairs node) =
      some prices ∧ productFromLeaf Price.identity prices = .ok b.price ∧
      b.currency = pairs.currencyOf node := by
  have hrun := h
  rw [calcBasePrice, loadPath_node] at hrun
  obtain ⟨_, hpath, hrun⟩ := (bind_ok _ _ _).1 hrun
  obtain rfl := Except.ok.inj hpath
  rw [mapError_ok] at hrun
  obtain ⟨r, hr, hb⟩ := (bind_ok _ _ _).1 hrun
  obtain ⟨prices, hprices⟩ := doCollect_ok _ _ _ _ _ _ hr
  rw [doCollect_priced _ _ _ _ _ _ hprices] at hr
  obtain rfl := (pure_ok _ _).1 hb
  exact ⟨prices, hprices, hr, rfl⟩

theorem calcBasePrice_returns (node : NodeRef pairs.tree) (prices : List Price)
    (h : pathPrices inPool (feedOf feeds at_ totalFeeders) (pathOf pairs node) = some prices)
    (hcalc : ∀ cause, calcBasePrice feeds inPool pairs (pairs.currencyOf node) at_ totalFeeders ≠
      .error (.panic cause)) :
    ∃ b, calcBasePrice feeds inPool pairs (pairs.currencyOf node) at_ totalFeeders = .ok b := by
  rw [calcBasePrice_path feeds inPool pairs at_ totalFeeders node prices h] at hcalc ⊢
  cases hproduct : productFromLeaf Price.identity prices with
  | ok r => exact ⟨⟨pairs.currencyOf node, r⟩, rfl⟩
  | error fault =>
    obtain ⟨cause, rfl⟩ := productFromLeaf_panics Price.identity prices fault hproduct
    rw [hproduct] at hcalc
    exact absurd rfl (hcalc cause)

theorem pathPrices_coprime (path : List ℕ) (prices : List Price)
    (h : pathPrices inPool (feedOf feeds at_ totalFeeders) path = some prices) :
    ∀ p ∈ prices, Nat.Coprime p.amount p.amountQuote := by
  induction path generalizing prices with
  | nil =>
    obtain rfl := Option.some.inj h
    simp
  | cons c path ih =>
    cases path with
    | nil =>
      obtain rfl := Option.some.inj h
      simp
    | cons quote path =>
      obtain ⟨p, rest, hp, hrest, rfl⟩ := (pathPrices_cons _ _ _ _ _ _).1 h
      have hfeed := ((pairPrice_some _ _ _ _ _).1 hp).2
      intro q hq
      rcases List.mem_cons.1 hq with rfl | hq
      · exact calcPrice_coprime _ _ _ _ _ q hfeed
      · exact ih rest hrest q hq

/-- Where no product drops bits, both ends of a path lead to the same reduced price. -/
theorem products_agree (path : List ℕ) (feedPrices : List Price) (fromLeaf fromBase : Price)
    (hprices : pathPrices inPool (feedOf feeds at_ totalFeeders) path = some feedPrices)
    (hleaf : productFromLeaf Price.identity feedPrices = .ok fromLeaf)
    (hbase : productFromBase feedPrices = .ok fromBase)
    (hkeepBase : KeepsFromBase feedPrices)
    (hkeepLeaf : KeepsFromLeaf Price.identity feedPrices) : fromLeaf = fromBase := by
  have hcoprime := pathPrices_coprime feeds inPool _ _ path feedPrices hprices
  obtain ⟨hreducedBase, hvalBase⟩ := productFromBase_exact _ feedPrices hcoprime hkeepBase hbase
  have hreducedLeaf := productFromLeaf_reduced _ _ feedPrices hleaf
  have hvalLeaf :=
    productFromLeaf_exact _ _ feedPrices identity_reduced hcoprime hkeepLeaf hleaf
  apply canonical_ext _ _ (reduced_canonical _ hreducedLeaf) (reduced_canonical _ hreducedBase)
  rw [hvalLeaf, hvalBase, identity_value, one_mul]

theorem target_node (c : ℕ) (h : c ∈ (targets pairs.tree).tail) :
    ∃ node, pairs.currencyOf node = c := by
  rw [← legs_targets] at h
  obtain ⟨leg, hleg, rfl⟩ := List.mem_map.1 h
  obtain ⟨node, hnode⟩ := (mem_legs pairs leg).1 hleg
  obtain ⟨_, _, hfrom, _⟩ := leg_of pairs node leg hnode
  exact ⟨node, hfrom.symm⟩

/-- Without a panic the two prices of a currency exist together. They are the products of the
same prices of feeds from either end of the path, and are equal when no product drops bits. -/
theorem price_paths_agree (hpre : pairs.tree.InPreorder) (items : List PriceResult)
    (hitems : calcAllPrices feeds inPool pairs at_ totalFeeders = .ok items)
    (c : ℕ) (hc : c ∈ (targets pairs.tree).tail)
    (hcalc : ∀ cause, calcBasePrice feeds inPool pairs c at_ totalFeeders ≠
      .error (.panic cause)) :
    ((∃ b, calcBasePrice feeds inPool pairs c at_ totalFeeders = .ok b) ↔
      ∃ b ∈ prices items, b.currency = c) ∧
    ∀ b b', calcBasePrice feeds inPool pairs c at_ totalFeeders = .ok b →
      b' ∈ prices items → b'.currency = c →
        ∃ path feedPrices, pairs.loadPath c = .ok path ∧
          pathPrices inPool (feedOf feeds at_ totalFeeders) path = some feedPrices ∧
          productFromBase feedPrices = .ok b'.price ∧
          productFromLeaf Price.identity feedPrices = .ok b.price ∧
          (KeepsFromBase feedPrices → KeepsFromLeaf Price.identity feedPrices → b = b') := by
  obtain ⟨node, rfl⟩ := target_node pairs c hc
  obtain ⟨legs, hlegs, hiter⟩ := (bind_ok _ _ _).1 hitems
  rw [swapPairsDf_ok] at hlegs
  obtain rfl := Except.ok.inj hlegs
  have hall := all_prices pairs inPool _ hpre items hiter
  have hpath := priced_path feeds inPool pairs at_ totalFeeders node
  constructor
  · constructor
    · rintro ⟨b, hb⟩
      obtain ⟨feedPrices, hprices, _⟩ := calcBasePrice_ok feeds inPool pairs _ _ node b hb
      exact List.mem_map.1 (hall.complete _ hc (hpath.2 ⟨feedPrices, hprices⟩))
    · rintro ⟨b, hb, hcurrency⟩
      have hpriced := baseOf_priced _ _ _ _ _ (hall.sound b hb)
      rw [hcurrency] at hpriced
      obtain ⟨feedPrices, hprices⟩ := hpath.1 hpriced
      exact calcBasePrice_returns feeds inPool pairs _ _ node feedPrices hprices hcalc
  · intro b b' hb hb' hcurrency'
    obtain ⟨feedPrices, hprices, hleaf, hcurrency⟩ :=
      calcBasePrice_ok feeds inPool pairs _ _ node b hb
    have hbased := hall.sound b' hb'
    rw [hcurrency'] at hbased
    obtain ⟨feedPrices', hprices', hbase⟩ :=
      baseOf_path feeds inPool pairs _ _ node b'.price hbased
    rw [hprices] at hprices'
    obtain rfl := Option.some.inj hprices'
    refine ⟨_, feedPrices, loadPath_node pairs node, hprices, hbase, hleaf, ?_⟩
    intro hkeepBase hkeepLeaf
    have hprice := products_agree feeds inPool at_ totalFeeders _ feedPrices b.price b'.price
      hprices hleaf hbase hkeepBase hkeepLeaf
    cases b
    cases b'
    simp only at hprice hcurrency hcurrency'
    rw [hprice, hcurrency, hcurrency']

end

def path3 : SupportedPairs 0 where
  tree := .ofPreorder [⟨0, ⟨0, 0⟩⟩, ⟨0, ⟨11, 1⟩⟩, ⟨1, ⟨12, 2⟩⟩, ⟨2, ⟨13, 3⟩⟩]
    ⟨_, .grow _ _ 2 (.grow _ _ 1 (.grow _ _ 0 .root (by decide)) (by decide)) (by decide)⟩
  rooted := rfl
  unique := by decide
  fits := by decide

theorem path3_inPreorder : path3.tree.InPreorder :=
  ⟨_, .grow _ _ 2 (.grow _ _ 1 (.grow _ _ 0 .root (by decide)) (by decide)) (by decide)⟩

def observedOnce (price : Price) (held : Held price) : Observations ℕ where
  items := [⟨1, 98, price, held⟩]
  ordered := by simp
  fits := by simp [PriceFeeding.usizeBits]

def unobserved : Observations ℕ where
  items := []
  ordered := by simp
  fits := by simp [PriceFeeding.usizeBits]

def fewFeeds : PriceFeeds ℕ where
  observations c quote :=
    match c, quote with
    | 1, 0 => observedOnce ⟨1, 2⟩ ⟨⟨by decide, by decide, by decide⟩, by decide⟩
    | 2, 1 => observedOnce ⟨4, 3⟩ ⟨⟨by decide, by decide, by decide⟩, by decide⟩
    | _, _ => unobserved
  config := FeedPrice.sampleConfig
  order := FeedPrice.asInserted

def fewPrices : List PriceResult := [.ok ⟨1, ⟨1, 2⟩⟩, .ok ⟨2, ⟨2, 3⟩⟩]

theorem few_keeps_fromBase : KeepsFromBase [⟨4, 3⟩, ⟨1, 2⟩] := by
  refine ⟨⟨trivial, ?_⟩, ?_⟩
  · intro parentPrice h
    obtain rfl := Except.ok.inj h
    decide
  · intro parentPrice h
    have hparent : productFromBase [⟨1, 2⟩] = .ok ⟨1, 2⟩ := rfl
    obtain rfl := Except.ok.inj (hparent.symm.trans h)
    decide

theorem few_keeps_fromLeaf : KeepsFromLeaf Price.identity [⟨4, 3⟩, ⟨1, 2⟩] := by
  refine ⟨by decide, ?_⟩
  intro total h
  have htotal : (Price.identity.mul ⟨4, 3⟩ : Outcome PriceFeedsError Price) = .ok ⟨4, 3⟩ := rfl
  obtain rfl := Except.ok.inj (htotal.symm.trans h)
  exact ⟨by decide, fun _ _ => trivial⟩

/-- No product over the two prices of feeds drops bits, so the two prices of currency 2 are
equal. -/
theorem few_prices_agree :
    (∃ b, calcBasePrice fewFeeds (fun _ _ => true) path3 2 100 1 = .ok b) ∧
      ∀ b b', calcBasePrice fewFeeds (fun _ _ => true) path3 2 100 1 = .ok b →
        b' ∈ prices fewPrices → b'.currency = 2 → b = b' := by
  have hitems : calcAllPrices fewFeeds (fun _ _ => true) path3 100 1 = .ok fewPrices := rfl
  have hprice : calcBasePrice fewFeeds (fun _ _ => true) path3 2 100 1 = .ok ⟨2, ⟨2, 3⟩⟩ := rfl
  have hcalc : ∀ cause, calcBasePrice fewFeeds (fun _ _ => true) path3 2 100 1 ≠
      .error (.panic cause) := by
    intro cause h
    rw [hprice] at h
    cases h
  obtain ⟨hexist, hboth⟩ := price_paths_agree fewFeeds (fun _ _ => true) path3 100 1
    path3_inPreorder fewPrices hitems 2 (by decide) hcalc
  refine ⟨hexist.2 ⟨⟨2, ⟨2, 3⟩⟩, by decide, rfl⟩, ?_⟩
  intro b b' hb hb' hcurrency
  obtain ⟨path, feedPrices, hpath, hprices, -, -, hequal⟩ := hboth b b' hb hb' hcurrency
  have hload : path3.loadPath 2 = .ok [2, 1, 0] := rfl
  obtain rfl := Except.ok.inj (hload.symm.trans hpath)
  have hfed : pathPrices (fun _ _ => true) (feedOf fewFeeds 100 1) [2, 1, 0] =
      some [⟨4, 3⟩, ⟨1, 2⟩] := rfl
  obtain rfl := Option.some.inj (hfed.symm.trans hprices)
  exact hequal few_keeps_fromBase few_keeps_fromLeaf

def wideFeeds : PriceFeeds ℕ where
  observations c quote :=
    match c, quote with
    | 1, 0 => observedOnce ⟨10 ^ 20 + 7, 10 ^ 20 + 3⟩ ⟨⟨by decide, by decide, by decide⟩, by decide⟩
    | 2, 1 => observedOnce ⟨10 ^ 20 + 3, 10 ^ 20 + 7⟩ ⟨⟨by decide, by decide, by decide⟩, by decide⟩
    | 3, 2 => observedOnce ⟨10 ^ 20 + 1, 10 ^ 20 + 9⟩ ⟨⟨by decide, by decide, by decide⟩, by decide⟩
    | _, _ => unobserved
  config := FeedPrice.sampleConfig
  order := FeedPrice.asInserted

def widePrices : List PriceResult :=
  [.ok ⟨1, ⟨10 ^ 20 + 7, 10 ^ 20 + 3⟩⟩, .ok ⟨2, Price.identity⟩,
    .ok ⟨3, ⟨10 ^ 20 + 1, 10 ^ 20 + 9⟩⟩]

def steepFeeds : PriceFeeds ℕ where
  observations c quote :=
    match c, quote with
    | 1, 0 => observedOnce ⟨2 ^ 127, 1⟩ ⟨⟨by decide, by decide, by decide⟩, by decide⟩
    | 2, 1 => observedOnce ⟨2 ^ 127, 1⟩ ⟨⟨by decide, by decide, by decide⟩, by decide⟩
    | _, _ => unobserved
  config := FeedPrice.sampleConfig
  order := FeedPrice.asInserted

/-- Over three wide prices the product from the currency on drops bits, and the one from the
base currency does not. The base currency is calculated and never yielded. A product out of
range on one path aborts the prices of all currencies. -/
theorem price_paths_differ :
    (path3.tree.InPreorder ∧
      calcAllPrices wideFeeds (fun _ _ => true) path3 100 1 = .ok widePrices ∧
      calcBasePrice wideFeeds (fun _ _ => true) path3 3 100 1 =
        .ok ⟨3, ⟨211758236813575084790374031219403749837,
          211758236813575084807314690164489756620⟩⟩) ∧
    (calcBasePrice wideFeeds (fun _ _ => true) path3 0 100 1 = .ok ⟨0, Price.identity⟩ ∧
      ¬ ∃ b ∈ prices widePrices, b.currency = 0) ∧
    calcAllPrices steepFeeds (fun _ _ => true) path3 100 1 =
      .error (.panic (.assertion "price overflow during multiplication")) ∧
    calcBasePrice steepFeeds (fun _ _ => true) path3 1 100 1 = .ok ⟨1, ⟨2 ^ 127, 1⟩⟩ := by
  refine ⟨⟨path3_inPreorder, rfl, rfl⟩, ⟨rfl, by decide⟩, rfl, rfl⟩

end Nolus.PricePaths
