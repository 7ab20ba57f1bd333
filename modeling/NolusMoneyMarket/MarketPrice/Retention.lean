import NolusMoneyMarket.Base.Windows
import NolusMoneyMarket.MarketPrice.FeedPrice

/-! # Sampling and retention of observations

The sampler takes the observations of a period off the front and consumes one
of the next, hence a sample is made of the window of its period. An add drops
the expired observations from the front of those stored. The time flows
monotonically forward and so does the start of the validity, therefore what is
dropped is not missed by any later price. -/

set_option autoImplicit false

namespace Nolus.FeedRetention
open Nolus.Fallible Nolus.Fraction Nolus.Prices Nolus.PriceFeeding Nolus.FeedAverage Nolus.Windows

variable {ε Addr : Type}

abbrev timeOf (o : Observation Addr) : ℕ := o.time

section Sampling

variable [DecidableEq Addr]

def lastPrices (observations : List (Observation Addr)) : SamplePrices Addr :=
  observations.foldl (fun prices o => prices.insert o.feeder o.price) ∅

def averageOr (previous : Sample) : List Price → Outcome ε Sample
  | [] => pure previous
  | first :: rest => do
    let avg ← average (rest.length + 1) first rest
    pure ⟨some avg⟩

/-- The average of the last prices of the feeders observed, or the previous sample. -/
def sampleOf (order : VisitOrder Addr) (start : ℕ) (observations : List (Observation Addr))
    (previous : Sample) : Outcome ε Sample :=
  averageOr previous ((order.visit start (lastPrices observations).entries).map fun e => e.2)

def windowSamples (order : VisitOrder Addr) (observations : List (Observation Addr))
    (start span : ℕ) : ℕ → ℕ → Sample → Outcome ε (List Sample)
  | _, 0, _ => pure []
  | k, n + 1, previous => do
    let sample ← sampleOf order (start + k * span) (window timeOf start span k observations) previous
    let samples ← windowSamples order observations start span (k + 1) n sample
    pure (sample :: samples)

def takeSamples (order : VisitOrder Addr) : ℕ → SampleBuilder Addr → Outcome ε (List Sample)
  | 0, _ => pure []
  | n + 1, builder => do
    let (sample, builder) ← builder.next order
    let samples ← takeSamples order n builder
    pure (sample :: samples)

theorem lastPrices_lookup (observations : List (Observation Addr)) (feeder : Addr) :
    (lastPrices observations).lookup feeder =
      ((observations.filter fun o => o.feeder = feeder).getLast?).map fun o => o.price := by
  induction observations using List.reverseRecOn with
  | nil => rfl
  | append_singleton observations o ih =>
    have hfold : lastPrices (observations ++ [o]) =
        (lastPrices observations).insert o.feeder o.price := by
      simp [lastPrices]
    rw [hfold, List.filter_append]
    by_cases hfeeder : o.feeder = feeder
    · subst hfeeder
      simp
    · simp [AList.lookup_insert_ne (Ne.symm hfeeder), ih, hfeeder]

theorem lastPrices_empty (observations : List (Observation Addr)) :
    (lastPrices observations).entries = [] ↔ observations = [] := by
  cases observations using List.reverseRecOn with
  | nil => simp [lastPrices]
  | append_singleton observations o =>
    have hfold : lastPrices (observations ++ [o]) =
        (lastPrices observations).insert o.feeder o.price := by
      simp [lastPrices]
    rw [hfold, AList.entries_insert]
    simp

theorem sampleOf_values (order : VisitOrder Addr) (start : ℕ)
    (observations : List (Observation Addr)) (previous : Sample) :
    ∃ values : List Price,
      values.Perm ((lastPrices observations).entries.map fun e => e.2) ∧
      (values = [] ↔ observations = []) ∧
      (sampleOf order start observations previous : Outcome ε _) = averageOr previous values := by
  have hperm := (order.perm start (lastPrices observations).entries).map fun e => e.2
  refine ⟨_, hperm, ?_, rfl⟩
  rw [← lastPrices_empty observations]
  constructor
  · intro hnil
    rw [hnil] at hperm
    simpa using hperm.symm.eq_nil
  · intro hnil
    rw [hnil] at hperm ⊢
    exact hperm.eq_nil

/-! ## Samples of windows -/

theorem collect_split (sampleEnd : ℕ) (observations : List (Observation Addr))
    (prices : SamplePrices Addr) :
    collect sampleEnd observations prices =
      ((observations.dropWhile fun o => timeOf o ≤ sampleEnd).head?,
        (observations.dropWhile fun o => timeOf o ≤ sampleEnd).tail,
        (observations.takeWhile fun o => timeOf o ≤ sampleEnd).foldl
          (fun prices o => prices.insert o.feeder o.price) prices) := by
  induction observations generalizing prices with
  | nil => rfl
  | cons first rest ih =>
    unfold collect
    by_cases hle : first.time ≤ sampleEnd
    · have hnot : ¬ first.validSince sampleEnd := by simpa [Observation.validSince] using hle
      simp [hnot, hle, timeOf, ih]
    · have hvalid : first.validSince sampleEnd := by
        simpa [Observation.validSince] using hle
      simp [hvalid, hle, timeOf]

theorem periodSample_values (previous : Sample) (values : List Price) :
    (periodSample values.length previous values : Outcome ε Sample) =
      averageOr previous values := by
  cases values with
  | nil => rfl
  | cons first rest => simp [periodSample, averageOr]

/-- The builder is about to sample the window of a number. -/
structure About (observations : List (Observation Addr)) (start span k : ℕ) (previous : Sample)
    (builder : SampleBuilder Addr) : Prop where
  pipeline : builder.pipeline = since timeOf (start + k * span) observations
  sampleStart : builder.sampleStart = start + k * span
  sampleSpan : builder.sampleSpan = span
  cleared : builder.samplePrices = ∅
  lastSample : builder.lastSample = previous

omit [DecidableEq Addr] in
theorem from_about (observations : List (Observation Addr)) (start span : ℕ)
    (h : ∀ o ∈ observations, start < o.time) :
    About observations start span 0 ⟨none⟩ (SampleBuilder.from_ observations start span) := by
  have hzero : start + 0 * span = start := by omega
  refine ⟨?_, by rw [hzero]; rfl, rfl, rfl, rfl⟩
  rw [hzero]
  exact (since_all timeOf start observations h).symm

def advanced (observations : List (Observation Addr)) (start span k : ℕ) (sample : Sample) :
    SampleBuilder Addr where
  observations := (since timeOf (start + (k + 1) * span) observations).tail
  sampleStart := start + (k + 1) * span
  sampleSpan := span
  consumed := (since timeOf (start + (k + 1) * span) observations).head?
  samplePrices := ∅
  lastSample := sample

omit [DecidableEq Addr] in
theorem advanced_about (observations : List (Observation Addr)) (start span k : ℕ)
    (sample : Sample) :
    About observations start span (k + 1) sample (advanced observations start span k sample) := by
  refine ⟨?_, rfl, rfl, rfl, rfl⟩
  rw [SampleBuilder.pipeline, advanced]
  cases since timeOf (start + (k + 1) * span) observations with
  | nil => rfl
  | cons o rest => rfl

/-- A sample is made of the window of its period, and the next one is about to be of the next. -/
theorem next_window (order : VisitOrder Addr) (observations : List (Observation Addr))
    (start span k : ℕ) (previous : Sample) (builder : SampleBuilder Addr)
    (hordered : Ordered timeOf observations) (hfits : start + (k + 1) * span < 2 ^ timeBits)
    (h : About observations start span k previous builder) :
    (builder.next order : Outcome ε _) = (do
      let sample ← sampleOf order (start + k * span) (window timeOf start span k observations)
        previous
      pure (sample, advanced observations start span k sample)) := by
  have hsucc : start + k * span + span = start + (k + 1) * span := by
    rw [Nat.succ_mul, Nat.add_assoc]
  have hend : (builder.sampleEnd : Outcome ε ℕ) = .ok (start + (k + 1) * span) := by
    rw [SampleBuilder.sampleEnd, h.sampleStart, h.sampleSpan]
    exact (nativeAdd_ok _ _ _ _).2 ⟨by omega, hsucc⟩
  have hlater := ordered_since timeOf (start + k * span) observations hordered
  have hcollect := collect_split (start + (k + 1) * span) builder.pipeline builder.samplePrices
  rw [h.pipeline, h.cleared, dropWhile_ordered timeOf _ _ hlater,
    takeWhile_ordered timeOf _ _ hlater, window_of_since, since_since timeOf _ _ _ (by omega)]
    at hcollect
  have hvalues : periodPrices order builder (start + (k + 1) * span) =
      (order.visit (start + k * span)
        (lastPrices (window timeOf start span k observations)).entries).map fun e => e.2 := by
    rw [periodPrices, h.pipeline, h.cleared, hcollect, h.sampleStart]
    rfl
  have hlength : (collect (start + (k + 1) * span) builder.pipeline
      builder.samplePrices).2.2.entries.length =
        (periodPrices order builder (start + (k + 1) * span)).length := by
    rw [periodPrices, List.length_map]
    exact (order.perm _ _).length_eq.symm
  rw [next_eq order builder _ hend, hlength, periodSample_values, hvalues, h.pipeline, h.cleared,
    hcollect, h.sampleSpan, h.lastSample]
  rfl

theorem take_windows (order : VisitOrder Addr) (observations : List (Observation Addr))
    (start span n k : ℕ) (previous : Sample) (builder : SampleBuilder Addr)
    (hordered : Ordered timeOf observations) (hfits : start + (k + n) * span < 2 ^ timeBits)
    (h : About observations start span k previous builder) :
    (takeSamples order n builder : Outcome ε _) =
      windowSamples order observations start span k n previous := by
  induction n generalizing k previous builder with
  | zero => rfl
  | succ n ih =>
    have hmul : (k + 1) * span ≤ (k + (n + 1)) * span := Nat.mul_le_mul_right _ (by omega)
    have hnext := @next_window ε Addr _ order observations start span k previous builder hordered
      (by omega) h
    rw [takeSamples, windowSamples, hnext]
    cases (sampleOf order (start + k * span) (window timeOf start span k observations) previous :
        Outcome ε Sample) with
    | error fault => rfl
    | ok sample =>
      have hrest := ih (k + 1) sample (advanced observations start span k sample)
        (by rwa [Nat.add_right_comm, Nat.add_assoc]) (advanced_about _ _ _ _ _)
      change (takeSamples order n (advanced observations start span k sample) >>= _) = _
      rw [hrest]
      rfl

/-- The samples taken, if all can be, are what the price of a feed is averaged over. -/
theorem reduceSamples_taken (order : VisitOrder Addr) (discountFactor n : ℕ)
    (builder : SampleBuilder Addr) (acc : Option Price) (samples : List Sample)
    (h : (takeSamples order n builder : Outcome ε _) = .ok samples) :
    (reduceSamples order discountFactor n builder acc : Outcome ε _) =
      samples.foldlM (fun acc sample => discounted discountFactor acc sample.price) acc := by
  induction n generalizing builder acc samples with
  | zero =>
    obtain rfl := (pure_ok _ _).1 h
    rfl
  | succ n ih =>
    simp only [takeSamples, bind_ok, pure_ok] at h
    obtain ⟨⟨sample, next⟩, hnext, rest, hrest, rfl⟩ := h
    rw [reduceSamples, hnext, List.foldlM_cons]
    change (discounted discountFactor acc sample.price >>= _) = _
    congr 1
    funext acc
    exact ih next acc rest hrest

end Sampling

/-! ## Retention -/

/-- Pops the expired observations off the front, up to the first valid one. -/
def retain (validSince : ℕ) : List (Observation Addr) → List (Observation Addr)
  | [] => []
  | item :: rest => if item.validSince validSince then item :: rest else retain validSince rest

def register (items : List (Observation Addr)) (observation : Observation Addr) :
    List (Observation Addr) := items ++ [observation]

def addObservation (items : List (Observation Addr)) (observation : Observation Addr)
    (validSince : ℕ) : List (Observation Addr) := register (retain validSince items) observation

def feed (config : Config) (items : List (Observation Addr)) (observation : Observation Addr) :
    Outcome ε (List (Observation Addr)) := do
  let validSince ← config.feedValidSince observation.time
  pure (addObservation items observation validSince)

def horizon (config : Config) (t : ℕ) : ℕ := t - config.feedValidity

theorem horizon_mono (config : Config) : Monotone (horizon config) := by
  intro t later h
  exact Nat.sub_le_sub_right h _

theorem retain_eq (validSince : ℕ) (items : List (Observation Addr)) :
    retain validSince items = items.dropWhile fun o => timeOf o ≤ validSince := by
  induction items with
  | nil => rfl
  | cons item rest ih =>
    by_cases hle : item.time ≤ validSince
    · have hnot : ¬ item.validSince validSince := by simpa [Observation.validSince] using hle
      simp [retain, hnot, hle, timeOf, ih]
    · have hvalid : item.validSince validSince := by simpa [Observation.validSince] using hle
      simp [retain, hvalid, hle, timeOf]

theorem retain_again (validSince : ℕ) (items : List (Observation Addr)) (o : Observation Addr)
    (h : validSince < o.time) :
    retain validSince (retain validSince items ++ [o]) = retain validSince items ++ [o] := by
  induction items with
  | nil =>
    have hvalid : o.validSince validSince := by simpa [Observation.validSince] using h
    simp [retain, hvalid]
  | cons item rest ih =>
    by_cases hitem : item.validSince validSince
    · simp [retain, hitem]
    · simp only [retain, if_neg hitem]
      exact ih

theorem feed_eq (config : Config) (items : List (Observation Addr)) (o : Observation Addr) :
    (feed config items o : Outcome ε _) = .ok (keep timeOf (horizon config) items o) := by
  rw [feed, feedValidSince_eq]
  change Except.ok (retain (horizon config o.time) items ++ [o]) = _
  rw [retain_eq]
  rfl

theorem feed_history (config : Config) (history items : List (Observation Addr)) :
    (history.foldlM (feed config) items : Outcome ε _) =
      .ok (history.foldl (keep timeOf (horizon config)) items) := by
  induction history generalizing items with
  | nil => rfl
  | cons o history ih =>
    rw [List.foldlM_cons, feed_eq]
    exact ih _

/-- The asserted order of an add: the validity starts before the observation does. -/
theorem valid_before (config : Config) (t : ℕ) (h : 0 < t) : horizon config t < t := by
  have hperiod := config.period_pos
  have hsamples : 0 < config.samplesNumber.toNat := by
    have hne := config.samples_pos
    rw [Nat.pos_iff_ne_zero, Ne, ← UInt16.toNat_zero, UInt16.toNat_inj]
    exact hne
  have hvalidity := Nat.mul_pos hperiod hsamples
  rw [← config.validity_eq] at hvalidity
  exact Nat.sub_lt h hvalidity

section Prices

variable [DecidableEq Addr]

/-- The price over a list of observations, as `calcPrice` is over the stored ones. -/
def calcPriceOf (order : VisitOrder Addr) (items : List (Observation Addr)) (config : Config)
    (at_ totalFeeders : ℕ) : Outcome PriceFeedsError Price := do
  let validSince ← config.feedValidSince at_
  let valid := items.filter fun o => o.validSince validSince
  let needed ← config.feedersNeeded totalFeeders
  if needed ≤ countUniqueFeeders valid then do
    let price ← reduceSamples order config.discountFactor config.samplesNumber.toNat
      (SampleBuilder.from_ valid validSince config.samplePeriod) none
    okOr price .noPrice
  else failing .noPrice

theorem calcPrice_items (order : VisitOrder Addr) (observations : Observations Addr)
    (config : Config) (at_ totalFeeders : ℕ) :
    calcPrice order observations config at_ totalFeeders =
      calcPriceOf order observations.items config at_ totalFeeders := rfl

theorem calcPriceOf_valid (order : VisitOrder Addr) (config : Config)
    (items others : List (Observation Addr)) (at_ totalFeeders : ℕ)
    (h : since timeOf (horizon config at_) items = since timeOf (horizon config at_) others) :
    calcPriceOf order items config at_ totalFeeders =
      calcPriceOf order others config at_ totalFeeders := by
  have hvalid : items.filter (fun o => o.validSince (at_ - config.feedValidity)) =
      others.filter fun o => o.validSince (at_ - config.feedValidity) := h
  simp only [calcPriceOf, feedValidSince_eq, bind, Except.bind]
  rw [hvalid]

theorem stored_price (order : VisitOrder Addr) (config : Config)
    (history stored : List (Observation Addr)) (at_ totalFeeders : ℕ)
    (hordered : Ordered timeOf history) (hat : ∀ o ∈ history, o.time ≤ at_)
    (h : (history.foldlM (feed config) [] : Outcome ε _) = .ok stored) :
    calcPriceOf order stored config at_ totalFeeders =
      calcPriceOf order history config at_ totalFeeders := by
  rw [feed_history] at h
  obtain rfl := Except.ok.inj h
  apply calcPriceOf_valid
  exact (kept_run timeOf (horizon config) history at_ (horizon_mono config) hordered hat).agrees _
    (le_refl _)

/-- Each of the ordered observations between the first start and the last end is within a single
window, and the samples are those of the windows: the average of the last prices of the feeders,
or the previous sample where none is observed. They are what a price gets reduced from. The price
over the observations stored past a history of adds is the one over the whole history, at any time
that is not before. -/
theorem sampling_and_retention_exact (order : VisitOrder Addr) (config : Config) :
    (∀ (observations : List (Observation Addr)) (start n : ℕ), Ordered timeOf observations →
      (∀ o ∈ observations, start < o.time ∧ o.time ≤ start + n * config.samplePeriod) →
      start + n * config.samplePeriod < 2 ^ timeBits →
      (∀ o ∈ observations,
        ∃! k, k < n ∧ o ∈ window timeOf start config.samplePeriod k observations) ∧
      (takeSamples order n (SampleBuilder.from_ observations start config.samplePeriod) :
          Outcome ε _) =
        windowSamples order observations start config.samplePeriod 0 n ⟨none⟩ ∧
      ∀ acc samples,
        (windowSamples order observations start config.samplePeriod 0 n ⟨none⟩ :
            Outcome ε _) = .ok samples →
          (reduceSamples order config.discountFactor n
              (SampleBuilder.from_ observations start config.samplePeriod) acc : Outcome ε _) =
            samples.foldlM (fun acc sample => discounted config.discountFactor acc sample.price)
              acc) ∧
    (∀ start (observations : List (Observation Addr)) previous, ∃ values : List Price,
      values.Perm ((lastPrices observations).entries.map fun e => e.2) ∧
      (values = [] ↔ observations = []) ∧
      (sampleOf order start observations previous : Outcome ε _) = averageOr previous values) ∧
    (∀ (observations : List (Observation Addr)) feeder, (lastPrices observations).lookup feeder =
      ((observations.filter fun o => o.feeder = feeder).getLast?).map fun o => o.price) ∧
    ∀ history : List (Observation Addr), Ordered timeOf history →
      ∃ stored, (history.foldlM (feed config) [] : Outcome ε _) = .ok stored ∧
        ∀ at_ totalFeeders, (∀ o ∈ history, o.time ≤ at_) →
          calcPriceOf order stored config at_ totalFeeders =
            calcPriceOf order history config at_ totalFeeders := by
  refine ⟨?_, sampleOf_values order, lastPrices_lookup, ?_⟩
  · intro observations start n hordered hwithin hfits
    have htaken : (takeSamples order n
        (SampleBuilder.from_ observations start config.samplePeriod) : Outcome ε _) =
          windowSamples order observations start config.samplePeriod 0 n ⟨none⟩ :=
      take_windows order observations start config.samplePeriod n 0 ⟨none⟩ _ hordered
        (by rwa [Nat.zero_add]) (from_about _ _ _ fun o ho => (hwithin o ho).1)
    refine ⟨?_, htaken, fun acc samples hsamples => ?_⟩
    · intro o ho
      obtain ⟨hstart, hend⟩ := hwithin o ho
      obtain ⟨k, ⟨hk, hin⟩, hunique⟩ := within_unique start config.samplePeriod n o.time hstart hend
      refine ⟨k, ⟨hk, (mem_window _ _ _ _ _ _).2 ⟨ho, hin⟩⟩, ?_⟩
      rintro other ⟨hother, hin'⟩
      exact hunique other ⟨hother, ((mem_window _ _ _ _ _ _).1 hin').2⟩
    · exact reduceSamples_taken order config.discountFactor n _ acc samples (htaken.trans hsamples)
  · intro history hordered
    have hstored := @feed_history ε Addr config history []
    refine ⟨_, hstored, ?_⟩
    intro at_ totalFeeders hat
    exact stored_price order config history _ at_ totalFeeders hordered hat hstored

end Prices

def lateHistory : List (Observation ℕ) :=
  FeedPrice.sampleFeed.items ++ [⟨3, 152, ⟨19, 5020⟩, ⟨⟨by decide, by decide, by decide⟩, by decide⟩⟩]

theorem sampling_and_retention_exact_sample :
    (takeSamples FeedPrice.asInserted 12 (SampleBuilder.from_ FeedPrice.sampleFeed.items 40 5) :
        Outcome Empty _) =
      windowSamples FeedPrice.asInserted FeedPrice.sampleFeed.items 40 5 0 12 ⟨none⟩ ∧
    ∃ stored, (lateHistory.foldlM (feed FeedPrice.sampleConfig) [] : Outcome Empty _) = .ok stored ∧
      calcPriceOf FeedPrice.asInserted stored FeedPrice.sampleConfig 153 2 =
        calcPriceOf FeedPrice.asInserted lateHistory FeedPrice.sampleConfig 153 2 := by
  obtain ⟨hsampled, -, -, hretained⟩ :=
    @sampling_and_retention_exact Empty ℕ _ FeedPrice.asInserted FeedPrice.sampleConfig
  obtain ⟨stored, hstored, hprice⟩ := hretained lateHistory (by decide)
  exact ⟨(hsampled FeedPrice.sampleFeed.items 40 12 FeedPrice.sampleFeed.ordered (by decide)
    (by decide)).2.1, stored, hstored, hprice 153 2 (by decide)⟩

end Nolus.FeedRetention
