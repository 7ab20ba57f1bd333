import NolusMoneyMarket.Finance.Product
import NolusMoneyMarket.MarketPrice.Alarms
import NolusMoneyMarket.MarketPrice.Average

/-! # Prices over a path of currencies

The price of a currency in the base one is collected along the path between
them, from the currency on. The prices of feeds are in canonical form, so the
product over a path that drops no bits is the exact one. -/

set_option autoImplicit false

namespace Nolus.PricesFed
open Nolus.Fallible Nolus.Prices Nolus.PriceAccuracy Nolus.PriceProducts Nolus.PriceFeeding
open Nolus.FeedAverage
open Nolus.PriceAlarming (BasePrice)

variable {Addr : Type} [DecidableEq Addr]

structure PriceFeeds (Addr : Type) where
  observations : ℕ → ℕ → Observations Addr
  config : Config
  order : VisitOrder Addr

def PriceFeeds.priceOfFeed (self : PriceFeeds Addr) (amountC quoteC at_ totalFeeders : ℕ) :
    Outcome PriceFeedsError Price :=
  calcPrice self.order (self.observations amountC quoteC) self.config at_ totalFeeders

/-- The currencies next to each other on the path are in a pool, or the contract is broken. -/
def doCollect (inPool : ℕ → ℕ → Bool) (priceOfFeed : ℕ → ℕ → Outcome PriceFeedsError Price)
    (currentC : ℕ) (price : Price) : List ℕ → Outcome PriceFeedsError Price
  | [] => price.mul Price.identity
  | nextCurrency :: leafToBase => do
    ensure (inPool currentC nextCurrency)
      (.panic (.assertion "Found an unknown currency in the pairs group"))
    let nextPrice ← priceOfFeed currentC nextCurrency
    let totalPrice ← price.mul nextPrice
    doCollect inPool priceOfFeed nextCurrency totalPrice leafToBase

def PriceFeeds.price (self : PriceFeeds Addr) (inPool : ℕ → ℕ → Bool) (at_ totalFeeders : ℕ) :
    List ℕ → Outcome PriceFeedsError BasePrice
  | [] => panicking (.assertion
      "a non-empty chain of currencies to calculate price for the first one")
  | c :: leafToBase => do
    let price ← doCollect inPool (fun c q => self.priceOfFeed c q at_ totalFeeders) c
      Price.identity leafToBase
    pure ⟨c, price⟩

/-! ## The prices along a path -/

section

variable (inPool : ℕ → ℕ → Bool) (priceOfFeed : ℕ → ℕ → Outcome PriceFeedsError Price)

def pairPrice (c quote : ℕ) : Option Price :=
  if inPool c quote then (priceOfFeed c quote).toOption else none

def pathPrices : List ℕ → Option (List Price)
  | c :: quote :: path => do
    let price ← pairPrice inPool priceOfFeed c quote
    let prices ← pathPrices (quote :: path)
    some (price :: prices)
  | _ => some []

def productFromLeaf (acc : Price) : List Price → Outcome PriceFeedsError Price
  | [] => acc.mul Price.identity
  | price :: prices => do
    let total ← acc.mul price
    productFromLeaf total prices

theorem pairPrice_some (c quote : ℕ) (p : Price) :
    pairPrice inPool priceOfFeed c quote = some p ↔
      inPool c quote = true ∧ priceOfFeed c quote = .ok p := by
  unfold pairPrice
  split_ifs with hpool
  · cases hfeed : priceOfFeed c quote with
    | ok q => simp [Except.toOption, hpool]
    | error fault => simp [Except.toOption]
  · simp [hpool]

theorem pathPrices_cons (c quote : ℕ) (path : List ℕ) (prices : List Price) :
    pathPrices inPool priceOfFeed (c :: quote :: path) = some prices ↔
      ∃ p rest, pairPrice inPool priceOfFeed c quote = some p ∧
        pathPrices inPool priceOfFeed (quote :: path) = some rest ∧ prices = p :: rest := by
  simp only [pathPrices, Option.bind_eq_bind, Option.bind_eq_some_iff, Option.some.injEq]
  constructor
  · rintro ⟨p, hp, rest, hrest, rfl⟩
    exact ⟨p, rest, hp, hrest, rfl⟩
  · rintro ⟨p, rest, hp, hrest, rfl⟩
    exact ⟨p, hp, rest, hrest, rfl⟩

theorem doCollect_priced (c : ℕ) (acc : Price) (path : List ℕ) (prices : List Price)
    (h : pathPrices inPool priceOfFeed (c :: path) = some prices) :
    doCollect inPool priceOfFeed c acc path = productFromLeaf acc prices := by
  induction path generalizing c acc prices with
  | nil =>
    obtain rfl := Option.some.inj h
    rfl
  | cons quote path ih =>
    obtain ⟨p, rest, hp, hrest, rfl⟩ := (pathPrices_cons _ _ _ _ _ _).1 h
    obtain ⟨hpool, hfeed⟩ := (pairPrice_some _ _ _ _ _).1 hp
    have htail := fun total => ih quote total rest hrest
    simp only [doCollect, productFromLeaf, ensure, hpool, hfeed, htail]
    rfl

theorem doCollect_ok (c : ℕ) (acc r : Price) (path : List ℕ)
    (h : doCollect inPool priceOfFeed c acc path = .ok r) :
    ∃ prices, pathPrices inPool priceOfFeed (c :: path) = some prices := by
  induction path generalizing c acc with
  | nil => exact ⟨[], rfl⟩
  | cons quote path ih =>
    simp only [doCollect, bind_ok, ensure_ok] at h
    obtain ⟨_, hpool, p, hfeed, total, _, hrest⟩ := h
    obtain ⟨prices, hprices⟩ := ih quote total hrest
    have hp := (pairPrice_some inPool priceOfFeed c quote p).2 ⟨hpool, hfeed⟩
    exact ⟨p :: prices, (pathPrices_cons _ _ _ _ _ _).2 ⟨p, prices, hp, hprices, rfl⟩⟩

theorem productFromLeaf_panics (acc : Price) (prices : List Price) :
    FaultsIn Panics (productFromLeaf acc prices) := by
  induction prices generalizing acc with
  | nil => exact mul_panics acc _
  | cons p prices ih => exact faultsIn_bind _ _ _ (mul_panics acc p) fun total _ => ih total

end

/-! ## Exact products -/

def KeepsFromLeaf (acc : Price) : List Price → Prop
  | [] => True
  | price :: prices => KeepsBits acc price ∧
    ∀ total, (acc.mul price : Outcome PriceFeedsError Price) = .ok total →
      KeepsFromLeaf total prices

def exactProduct (prices : List Price) : ℚ := (prices.map value).prod

theorem productFromLeaf_reduced (acc r : Price) (prices : List Price)
    (h : productFromLeaf acc prices = .ok r) : Reduced r := by
  induction prices generalizing acc with
  | nil => exact mul_reduced acc _ r h
  | cons p prices ih =>
    obtain ⟨total, _, hrest⟩ := (bind_ok _ _ _).1 h
    exact ih total hrest

theorem productFromLeaf_exact (acc r : Price) (prices : List Price) (hacc : Reduced acc)
    (hprices : ∀ p ∈ prices, Nat.Coprime p.amount p.amountQuote) (hkeep : KeepsFromLeaf acc prices)
    (h : productFromLeaf acc prices = .ok r) : value r = value acc * exactProduct prices := by
  induction prices generalizing acc with
  | nil =>
    obtain ⟨r', hr', hval⟩ := @mul_exact PriceFeedsError acc Price.identity
      (reduced_canonical acc hacc) (reduced_canonical _ identity_reduced) (identity_keeps acc hacc)
    rw [productFromLeaf, hr'] at h
    obtain rfl := Except.ok.inj h
    rw [hval, identity_value]
    simp [exactProduct]
  | cons p prices ih =>
    obtain ⟨total, htotal, hrest⟩ := (bind_ok _ _ _).1 h
    obtain ⟨_, hpos, hpos'⟩ := mul_positive acc p total htotal
    have hp : Canonical p := ⟨hpos, hpos', hprices p List.mem_cons_self⟩
    obtain ⟨r', hr', hval⟩ := @mul_exact PriceFeedsError acc p (reduced_canonical acc hacc) hp
      hkeep.1
    rw [htotal] at hr'
    obtain rfl := Except.ok.inj hr'
    rw [ih total (mul_reduced acc p total htotal)
      (fun q hq => hprices q (List.mem_cons_of_mem _ hq)) (hkeep.2 total htotal) hrest, hval,
      exactProduct, exactProduct, List.map_cons, List.prod_cons, mul_assoc]

/-! ## The prices of feeds are in canonical form -/

def Coprime (price : Option Price) : Prop :=
  ∀ p ∈ price, Nat.Coprime p.amount p.amountQuote

theorem coprime_some (p : Price) (h : Nat.Coprime p.amount p.amountQuote) : Coprime (some p) := by
  intro q hq
  obtain rfl := Option.some.inj hq
  exact h

theorem periodSample_coprime (n : ℕ) (last s : Sample) (values : List Price)
    (hlast : Coprime last.price)
    (h : (periodSample n last values : Outcome PriceFeedsError Sample) = .ok s) :
    Coprime s.price := by
  unfold periodSample at h
  split_ifs at h with hn
  · cases values with
    | nil => exact absurd h (panicking_ok _ _)
    | cons first rest =>
      obtain ⟨avg, havg, hs⟩ := (bind_ok _ _ _).1 h
      obtain rfl := (pure_ok _ _).1 hs
      obtain ⟨sum, _, hmul⟩ := (bind_ok _ _ _).1 havg
      exact coprime_some avg (lossyMul_reduced sum avg _ hmul).coprime
  · obtain rfl := (pure_ok _ _).1 h
    exact hlast

theorem discounted_coprime (d : ℕ) (acc sample res : Option Price) (hs : Coprime sample)
    (h : (discounted d acc sample : Outcome PriceFeedsError _) = .ok res) : Coprime res := by
  unfold discounted at h
  split at h
  · obtain rfl := (pure_ok _ _).1 h
    exact hs
  · exact absurd h (panicking_ok _ _)
  · simp only [bind_ok] at h
    obtain ⟨recent, _, rest, _, previous, _, price, hadd, hres⟩ := h
    obtain rfl := (pure_ok _ _).1 hres
    exact coprime_some price (add_coprime recent previous price hadd)

theorem reduce_coprime (order : VisitOrder Addr) (d n : ℕ) (b : SampleBuilder Addr)
    (acc res : Option Price) (hb : Coprime b.lastSample.price) (ha : Coprime acc)
    (h : (reduceSamples order d n b acc : Outcome PriceFeedsError _) = .ok res) : Coprime res := by
  induction n generalizing b acc with
  | zero =>
    obtain rfl := (pure_ok _ _).1 h
    exact ha
  | succ n ih =>
    simp only [reduceSamples, bind_ok] at h
    obtain ⟨⟨s, b'⟩, hnext, acc', hstep, hrest⟩ := h
    obtain ⟨e, he, _⟩ := (bind_ok _ _ _).1 hnext
    rw [next_eq order b e he] at hnext
    simp only [bind_ok, pure_ok, Prod.mk.injEq] at hnext
    obtain ⟨s', hs, rfl, rfl⟩ := hnext
    have hsample := periodSample_coprime _ b.lastSample s' _ hb hs
    exact ih _ acc' hsample (discounted_coprime d acc _ acc' hsample hstep) hrest

theorem calcPrice_coprime (order : VisitOrder Addr) (observations : Observations Addr)
    (config : Config) (at_ totalFeeders : ℕ) (p : Price)
    (h : calcPrice order observations config at_ totalFeeders = .ok p) :
    Nat.Coprime p.amount p.amountQuote := by
  simp only [calcPrice, bind_ok] at h
  obtain ⟨validSince, _, needed, _, hprice⟩ := h
  split_ifs at hprice with hcount
  · obtain ⟨price, hreduce, hsome⟩ := (bind_ok _ _ _).1 hprice
    have hnone : Coprime (none : Option Price) := by
      intro q hq
      cases hq
    have hres := reduce_coprime order _ _ _ none price hnone hnone hreduce
    exact hres p ((okOr_ok _ _ _).1 hsome)
  · exact absurd hprice (failing_ok _ _)

end Nolus.PricesFed
