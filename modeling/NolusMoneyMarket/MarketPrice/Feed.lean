import Mathlib.Data.List.AList
import NolusMoneyMarket.Finance.Accuracy

/-! # Price feeds

A feed keeps the observations of the feeders in the order of their time. Its
price is an exponential moving average over samples. A sample is the average
of the last prices of the feeders observed within a period; a period without
observations repeats the sample of the previous one. -/

set_option autoImplicit false

namespace Nolus.PriceFeeding
open Nolus.Fallible Nolus.Fraction Nolus.Prices Nolus.PriceAccuracy

inductive PriceFeedsError
  | noPrice
  | configuration (text : String)
deriving DecidableEq, Repr

/-! ## Configuration -/

structure Config where
  minFeeders : ℕ
  samplePeriod : ℕ
  samplesNumber : UInt16
  feedValidity : ℕ
  discountFactor : ℕ
  feeders_held : 0 < minFeeders ∧ minFeeders ≤ hundred
  period_pos : 0 < samplePeriod
  samples_pos : samplesNumber ≠ 0
  validity_eq : feedValidity = samplePeriod * samplesNumber.toNat
  validity_fits : feedValidity < 2 ^ timeBits
  discount_held : 0 < discountFactor ∧ discountFactor ≤ hundred

def Config.newPrivate (minFeeders samplePeriod : ℕ) (samplesNumber : UInt16)
    (discountFactor : ℕ) : Outcome PriceFeedsError Config :=
  if hv : samplePeriod * samplesNumber.toNat < 2 ^ timeBits then
    if hf : minFeeders = 0 ∨ hundred < minFeeders then
      failing (.configuration
        "The minumum feeders should be greater than 0 and less or equal to 100%")
    else if hp : samplePeriod = 0 then
      failing (.configuration "The sample period should be longer than zero")
    else if hs : samplesNumber = 0 then
      failing (.configuration "The price feeds validity should be longer than zero")
    else if hd : discountFactor = 0 ∨ hundred < discountFactor then
      failing (.configuration
        "The discounting factor should be greater than 0 and less or equal to 100%")
    else pure
      { minFeeders := minFeeders, samplePeriod := samplePeriod, samplesNumber := samplesNumber
        feedValidity := samplePeriod * samplesNumber.toNat, discountFactor := discountFactor
        feeders_held := by omega, period_pos := by omega, samples_pos := hs
        validity_eq := rfl, validity_fits := hv, discount_held := by omega }
  else failing (.configuration "Overflow multiplying sample period by samples number")

/-- The checks let through just what there are configurations of. -/
theorem Config.newPrivate_ok (minFeeders samplePeriod : ℕ) (samplesNumber : UInt16)
    (discountFactor : ℕ) (config : Config) :
    Config.newPrivate minFeeders samplePeriod samplesNumber discountFactor = .ok config ↔
      config.minFeeders = minFeeders ∧ config.samplePeriod = samplePeriod ∧
        config.samplesNumber = samplesNumber ∧ config.discountFactor = discountFactor := by
  constructor
  · intro h
    unfold Config.newPrivate at h
    split_ifs at h
    · exact absurd h (failing_ok _ _)
    · exact absurd h (failing_ok _ _)
    · exact absurd h (failing_ok _ _)
    · exact absurd h (failing_ok _ _)
    · obtain rfl := (pure_ok _ _).1 h
      exact ⟨rfl, rfl, rfl, rfl⟩
    · exact absurd h (failing_ok _ _)
  · rintro ⟨rfl, rfl, rfl, rfl⟩
    have hfeeders : ¬ (config.minFeeders = 0 ∨ hundred < config.minFeeders) := by
      have := config.feeders_held
      omega
    have hdiscount : ¬ (config.discountFactor = 0 ∨ hundred < config.discountFactor) := by
      have := config.discount_held
      omega
    have hfits := config.validity_fits
    rw [config.validity_eq] at hfits
    rw [Config.newPrivate, dif_pos hfits, dif_neg hfeeders, dif_neg config.period_pos.ne',
      dif_neg config.samples_pos, dif_neg hdiscount]
    obtain ⟨_, _, _, _, _, _, _, _, rfl, _, _⟩ := config
    rfl

def usizeBits : ℕ := 32

variable {ε Addr : Type}

def Config.feedersNeeded (self : Config) (total : ℕ) : Outcome ε ℕ := do
  let res ← safeMul amountBits total (percent self.minFeeders)
  if res < 2 ^ usizeBits then pure res
  else panicking (.overflow "usize overflow on percent calculation")

def Config.feedValidSince (self : Config) (now : ℕ) : Outcome ε ℕ := do
  let earliest ← nativeAdd timeBits 0 self.feedValidity
  if earliest ≤ now then nativeSub now self.feedValidity else pure 0

/-! ## Observations -/

structure Observation (Addr : Type) where
  feeder : Addr
  time : ℕ
  price : Price
  held : Held price

def Observation.validSince (self : Observation Addr) (since : ℕ) : Bool := since < self.time

/-- The observations of a feed: the time flows monotonically forward. -/
structure Observations (Addr : Type) where
  items : List (Observation Addr)
  ordered : items.Pairwise fun earlier later => earlier.time ≤ later.time
  fits : items.length < 2 ^ usizeBits

/-! ## Samples -/

structure Sample where
  price : Option Price
deriving DecidableEq

abbrev SamplePrices (Addr : Type) := AList fun _ : Addr => Price

/-- The values of a hash map are visited in an order that is not specified. -/
structure VisitOrder (Addr : Type) where
  visit : ℕ → List (Sigma fun _ : Addr => Price) → List (Sigma fun _ : Addr => Price)
  perm : ∀ start entries, (visit start entries).Perm entries

structure SampleBuilder (Addr : Type) where
  observations : List (Observation Addr)
  sampleStart : ℕ
  sampleSpan : ℕ
  consumed : Option (Observation Addr)
  samplePrices : SamplePrices Addr
  lastSample : Sample

def SampleBuilder.from_ (observations : List (Observation Addr)) (startFrom sampleSpan : ℕ) :
    SampleBuilder Addr :=
  ⟨observations, startFrom, sampleSpan, none, ∅, ⟨none⟩⟩

def SampleBuilder.sampleEnd (self : SampleBuilder Addr) : Outcome ε ℕ :=
  nativeAdd timeBits self.sampleStart self.sampleSpan

def SampleBuilder.pipeline (self : SampleBuilder Addr) : List (Observation Addr) :=
  self.consumed.toList ++ self.observations

def average (pricesNumber : ℕ) (first : Price) (values : List Price) : Outcome ε Price := do
  let sum ← values.foldlM Price.add first
  sum.lossyMul ⟨1, pricesNumber⟩

def periodSample (pricesNumber : ℕ) (lastSample : Sample) (values : List Price) :
    Outcome ε Sample :=
  if 0 < pricesNumber then
    match values with
    | [] => panicking (.assertion "should have been checked that there is at least one member")
    | first :: rest => do
      let avg ← average pricesNumber first rest
      pure ⟨some avg⟩
  else pure lastSample

def SampleBuilder.endOfPeriod (order : VisitOrder Addr) (self : SampleBuilder Addr) :
    Outcome ε (SampleBuilder Addr) := do
  let values := (order.visit self.sampleStart self.samplePrices.entries).map fun e => e.2
  let lastSample ← periodSample self.samplePrices.entries.length self.lastSample values
  let sampleStart ← self.sampleEnd
  pure { self with samplePrices := ∅, sampleStart := sampleStart, lastSample := lastSample }

variable [DecidableEq Addr]

/-- Takes the observations up to the end of the period, the first later one is
consumed for the next period. -/
def collect (sampleEnd : ℕ) : List (Observation Addr) → SamplePrices Addr →
    Option (Observation Addr) × List (Observation Addr) × SamplePrices Addr
  | [], prices => (none, [], prices)
  | o :: rest, prices =>
    if o.validSince sampleEnd then (some o, rest, prices)
    else collect sampleEnd rest (prices.insert o.feeder o.price)

def SampleBuilder.next (order : VisitOrder Addr) (self : SampleBuilder Addr) :
    Outcome ε (Sample × SampleBuilder Addr) := do
  let sampleEnd ← self.sampleEnd
  let (consumed, observations, samplePrices) := collect sampleEnd self.pipeline self.samplePrices
  let builder ← SampleBuilder.endOfPeriod order
    { self with consumed := consumed, observations := observations, samplePrices := samplePrices }
  pure (builder.lastSample, builder)

/-! ## The price of a feed -/

/-- Skips the samples until the first with a price, and averages the next ones
with the discounting factor. -/
def discounted (discountFactor : ℕ) : Option Price → Option Price → Outcome ε (Option Price)
  | none, samplePrice => pure samplePrice
  | some _, none => panicking (.assertion "sample prices should keep being present")
  | some acc, some samplePrice => do
    let recent ← samplePrice.lossyMul (percent discountFactor)
    let rest ← nativeSub hundred discountFactor
    let previous ← acc.lossyMul (percent rest)
    let price ← recent.add previous
    pure (some price)

def reduceSamples (order : VisitOrder Addr) (discountFactor : ℕ) :
    ℕ → SampleBuilder Addr → Option Price → Outcome ε (Option Price)
  | 0, _, acc => pure acc
  | n + 1, builder, acc => do
    let (sample, builder) ← builder.next order
    let acc ← discounted discountFactor acc sample.price
    reduceSamples order discountFactor n builder acc

def validObservations (observations : Observations Addr) (since : ℕ) :
    List (Observation Addr) :=
  observations.items.filter fun o => o.validSince since

def countUniqueFeeders (observations : List (Observation Addr)) : ℕ :=
  (observations.map fun o => o.feeder).dedup.length

def calcPrice (order : VisitOrder Addr) (observations : Observations Addr) (config : Config)
    (at_ totalFeeders : ℕ) : Outcome PriceFeedsError Price := do
  let validSince ← config.feedValidSince at_
  let valid := validObservations observations validSince
  let needed ← config.feedersNeeded totalFeeders
  if needed ≤ countUniqueFeeders valid then do
    let price ← reduceSamples order config.discountFactor config.samplesNumber.toNat
      (SampleBuilder.from_ valid validSince config.samplePeriod) none
    okOr price .noPrice
  else failing .noPrice

/-! ## What the operations do -/

theorem feedersNeeded_fits (config : Config) (total : ℕ) (h : total < 2 ^ usizeBits) :
    ∃ n, (config.feedersNeeded total : Outcome ε ℕ) = .ok n := by
  have hle : (percent config.minFeeders).part total ≤ total :=
    part_le _ _ config.feeders_held.2
  have hw : (percent config.minFeeders).part total < 2 ^ usizeBits := by omega
  have hm := @safeMul_fits ε amountBits total (percent config.minFeeders)
    (percent_total_pos _) (lt_trans hw (by norm_num [usizeBits, amountBits]))
  use (percent config.minFeeders).part total
  apply (bind_ok _ _ _).2
  refine ⟨_, hm, ?_⟩
  rw [if_pos hw]
  rfl

theorem feedValidSince_eq (config : Config) (now : ℕ) :
    (config.feedValidSince now : Outcome ε ℕ) = .ok (now - config.feedValidity) := by
  have hf := config.validity_fits
  apply (bind_ok _ _ _).2
  refine ⟨config.feedValidity, (nativeAdd_ok _ _ _ _).2 ⟨by omega, by omega⟩, ?_⟩
  split_ifs with hle
  · rw [nativeSub, if_pos hle]
  · rw [Nat.sub_eq_zero_of_le (by omega)]
    rfl

theorem periods_fit (config : Config) (now : ℕ) (h : now < 2 ^ timeBits) :
    now - config.feedValidity + config.samplesNumber.toNat * config.samplePeriod <
      2 ^ timeBits := by
  have hv := config.validity_eq
  have hf := config.validity_fits
  rw [Nat.mul_comm] at hv
  omega

theorem collect_pending (sampleEnd : ℕ) (observations : List (Observation Addr))
    (prices : SamplePrices Addr) (o : Observation Addr)
    (h : o ∈ (collect sampleEnd observations prices).1.toList ++
      (collect sampleEnd observations prices).2.1) : o ∈ observations := by
  induction observations generalizing prices with
  | nil => simp [collect] at h
  | cons first rest ih =>
    unfold collect at h
    split_ifs at h with hv
    · simpa using h
    · exact List.mem_cons_of_mem _ (ih _ h)

theorem collect_prices (sampleEnd : ℕ) (observations : List (Observation Addr))
    (prices : SamplePrices Addr) (e : Sigma fun _ : Addr => Price)
    (h : e ∈ (collect sampleEnd observations prices).2.2.entries) :
    e ∈ prices.entries ∨ ∃ o ∈ observations, e = ⟨o.feeder, o.price⟩ := by
  induction observations generalizing prices with
  | nil => exact .inl h
  | cons first rest ih =>
    unfold collect at h
    split_ifs at h with hv
    · exact .inl h
    · rcases ih _ h with hin | ⟨o, ho, he⟩
      · rw [AList.entries_insert] at hin
        rcases List.mem_cons.1 hin with he | hk
        · exact .inr ⟨first, List.mem_cons_self, he⟩
        · exact .inl ((List.kerase_sublist _ _).subset hk)
      · exact .inr ⟨o, List.mem_cons_of_mem _ ho, he⟩

theorem samplePrices_bound (prices : SamplePrices Addr) (observations : List (Observation Addr))
    (h : ∀ e ∈ prices.entries, ∃ o ∈ observations, e = ⟨o.feeder, o.price⟩) :
    prices.entries.length ≤ countUniqueFeeders observations := by
  have hnodup : prices.keys.Nodup := prices.nodupKeys
  have hsub : prices.keys ⊆ (observations.map fun o => o.feeder).dedup := by
    intro k hk
    obtain ⟨e, he, rfl⟩ := List.mem_map.1 hk
    obtain ⟨o, ho, rfl⟩ := h e he
    exact List.mem_dedup.2 (List.mem_map_of_mem ho)
  have hlen := (List.subperm_of_subset hnodup hsub).length_le
  have hk : prices.keys.length = prices.entries.length := List.length_map _
  rw [hk] at hlen
  exact hlen

end Nolus.PriceFeeding
