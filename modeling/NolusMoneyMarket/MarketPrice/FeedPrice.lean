import NolusMoneyMarket.MarketPrice.Average

/-! # The price of a feed

The price of a feed is between the lowest and the highest valid observation,
up to one rounding a sample. Its computation panics by the guards of the price
arithmetic only, and not at all as long as the prices are moderate. -/

set_option autoImplicit false

namespace Nolus.FeedPrice
open Nolus.Fallible Nolus.Fraction Nolus.Prices Nolus.Rounding Nolus.PriceAccuracy
open Nolus.PriceFeeding Nolus.FeedAverage

variable {ε Addr : Type}

/-! ## Moderate prices -/

/-- The feeders' prices add up to at most 10^20, and the discounted lowest price
is not below four units of the last decimal place. -/
structure Moderate (feeders d : ℕ) (lo hi : ℚ) : Prop where
  discount_lt : d < hundred
  low_enough : 2 * grain ≤ lo * ((d : ℚ) / hundred)
  high_enough : feeders * hi ≤ 100 * factor

theorem moderate_low (feeders d : ℕ) (lo hi : ℚ) (h : Moderate feeders d lo hi) :
    2 * grain ≤ lo := by
  obtain ⟨hw0, hw1, _⟩ := weights d h.discount_lt.le
  have hl := h.low_enough
  have hg : (0 : ℚ) < 2 * grain := by norm_num [grain, factor]
  have hlo : 0 ≤ lo := by
    by_contra hneg
    have : lo * ((d : ℚ) / hundred) ≤ 0 := mul_nonpos_of_nonpos_of_nonneg (by linarith) hw0
    linarith
  have := mul_le_mul_of_nonneg_left hw1 hlo
  linarith

theorem sum_defined (hi : ℚ) (values : List Price) (first : Price) (n : ℕ) (h0 : 0 ≤ hi)
    (hf : Fits first) (hfirst : value first ≤ n * hi)
    (hv : ∀ p ∈ values, Fits p ∧ value p ≤ hi)
    (hroom : ((n + values.length : ℕ) : ℚ) * hi ≤ 100 * factor) :
    ∃ sum, (values.foldlM Price.add first : Outcome ε Price) = .ok sum := by
  induction values generalizing first n with
  | nil => exact ⟨first, rfl⟩
  | cons p rest ih =>
    obtain ⟨hp, hpv⟩ := hv p List.mem_cons_self
    rw [List.length_cons, show n + (rest.length + 1) = n + 1 + rest.length by omega] at hroom
    have hle : value first + value p ≤ (n + 1 : ℕ) * hi := by
      push_cast
      linarith
    have hpart : ((n + 1 : ℕ) : ℚ) * hi ≤ ((n + 1 + rest.length : ℕ) : ℚ) * hi :=
      mul_le_mul_of_nonneg_right (by exact_mod_cast Nat.le_add_right _ _) h0
    have hsmall : (value first + value p) * factor < 2 ^ 128 := by
      have hf0 : (0 : ℚ) ≤ factor := Nat.cast_nonneg _
      have := mul_le_mul_of_nonneg_right (le_trans hle (le_trans hpart hroom)) hf0
      have hnum : (100 * factor * factor : ℚ) < 2 ^ 128 := by norm_num [factor]
      linarith
    obtain ⟨acc, hacc⟩ := @add_fits ε first p hf hp hsmall
    obtain ⟨hfit, _, hup, _⟩ := add_ok first p acc hf.amount_pos hp.amount_pos hacc
    obtain ⟨sum, hsum⟩ := ih acc (n + 1) hfit (le_trans hup hle)
      (fun q hq => hv q (List.mem_cons_of_mem _ hq)) hroom
    use sum
    rw [List.foldlM_cons]
    exact (bind_ok _ _ _).2 ⟨acc, hacc, hsum⟩

theorem average_defined (lo hi : ℚ) (first : Price) (values : List Price) (n : ℕ)
    (hn : n = values.length + 1) (hw : n < 2 ^ amountBits) (hlo : 2 * grain ≤ lo)
    (hroom : (n : ℚ) * hi ≤ 100 * factor)
    (hv : ∀ p ∈ first :: values, Fits p ∧ Between lo hi p) :
    ∃ avg, (average n first values : Outcome ε Price) = .ok avg := by
  obtain ⟨hf, hfb⟩ := hv first List.mem_cons_self
  have hrest : ∀ p ∈ values, Fits p ∧ Between lo hi p :=
    fun p hp => hv p (List.mem_cons_of_mem _ hp)
  have h0 : 0 ≤ hi := le_trans (value_nonneg first) hfb.2
  have hlen : 1 + values.length = n := by omega
  obtain ⟨sum, hsum⟩ := @sum_defined ε hi values first 1 h0 hf (by simpa using hfb.2)
    (fun p hp => ⟨(hrest p hp).1, (hrest p hp).2.2⟩) (by rw [hlen]; exact hroom)
  obtain ⟨hsf, hsb⟩ := sum_bounds lo hi values first sum 1 hf (by simpa using hfb) hrest hsum
  rw [hlen] at hsb
  obtain ⟨h1, h2⟩ := mean_bounds lo hi sum n (by omega) hsb
  have hhi : hi ≤ 100 * factor := by
    have h1n : (1 : ℚ) ≤ n := by exact_mod_cast (by omega : 1 ≤ n)
    have := mul_le_mul_of_nonneg_right h1n h0
    linarith
  have hg : (1 : ℚ) / 2 ^ 126 ≤ grain := by norm_num [grain, factor]
  have hf' : (100 * factor : ℚ) ≤ 2 ^ 126 := by norm_num [factor]
  obtain ⟨avg, havg⟩ := @lossyMul_fits ε sum ⟨1, n⟩ hsf (by show 0 < n; omega)
    (by norm_num [amountBits]) hw (by linarith) (by linarith)
  exact ⟨avg, (bind_ok _ _ _).2 ⟨sum, hsum, havg⟩⟩

theorem periodSample_defined (lo hi : ℚ) (values : List Price) (last : Sample)
    (hw : values.length < 2 ^ amountBits) (hlo : 2 * grain ≤ lo)
    (hroom : (values.length : ℚ) * hi ≤ 100 * factor)
    (hv : ∀ p ∈ values, Fits p ∧ Between lo hi p) :
    ∃ s, (periodSample values.length last values : Outcome ε Sample) = .ok s := by
  cases values with
  | nil => exact ⟨last, rfl⟩
  | cons first rest =>
    obtain ⟨avg, havg⟩ := @average_defined ε lo hi first rest _ rfl hw hlo hroom hv
    use ⟨some avg⟩
    rw [periodSample, if_pos (by simp)]
    exact (bind_ok _ _ _).2 ⟨avg, havg, rfl⟩

theorem highest_moderate (n : ℕ) (hi : ℚ) (h0 : 0 ≤ hi) (hn : n ≤ 2 ^ 16)
    (hhi : hi ≤ 100 * factor) : highest n hi ≤ 200 * factor := by
  have hm : max 1 hi ≤ 100 * factor := max_le (by norm_num [factor]) hhi
  have hms : max 1 hi * share ≤ 100 * factor * share :=
    mul_le_mul_of_nonneg_right hm share_nonneg
  have hnq : (n : ℚ) ≤ 2 ^ 16 := by exact_mod_cast hn
  have hcost : n * (max 1 hi * share) ≤ 2 ^ 16 * (100 * factor * share) :=
    mul_le_mul hnq hms (mul_nonneg (le_trans zero_le_one (le_max_left _ _)) share_nonneg)
      (by norm_num)
  have hnum : (2 : ℚ) ^ 16 * (100 * factor * share) ≤ 1 / 8 := by
    norm_num [factor, share, plenty]
  have hle := high_le share n hi share_nonneg h0 (by linarith)
  have hdouble : hi * (1 + 2 * (n * (max 1 hi * share))) ≤ hi * 2 :=
    mul_le_mul_of_nonneg_left (by linarith) h0
  rw [highest]
  linarith

/-- A discounted sample keeps a unit of the last decimal place. -/
theorem recent_low (lo w x : ℚ) (hw0 : 0 ≤ w) (hw1 : w ≤ 1) (hx0 : 0 ≤ x)
    (hlo : 2 * grain ≤ lo * w) (hx : lowest 1 lo ≤ x) :
    1 / factor ≤ below (1 / plenty) 0 (x * w) := by
  have hone : lowest 1 lo = below share grain lo := rfl
  rw [hone, below] at hx
  have hxw := mul_le_mul_of_nonneg_right hx hw0
  have hmax : max 1 lo * w ≤ 1 + lo * w := by
    have hlw : 0 ≤ lo * w := le_trans (by norm_num [grain, factor]) hlo
    rw [max_mul_of_nonneg _ _ hw0, one_mul]
    exact max_le (by linarith) (by linarith)
  have hshare := mul_le_mul_of_nonneg_right hmax share_nonneg
  have hgw : grain * w ≤ grain := by
    have := mul_le_mul_of_nonneg_left hw1 grain_nonneg
    linarith
  have hlower : lo * w - (1 + lo * w) * share - grain ≤ x * w := by nlinarith
  have hxw0 : 0 ≤ x * w := mul_nonneg hx0 hw0
  have hmaxx : max 1 (x * w) ≤ 1 + x * w := max_le (by linarith) (by linarith)
  have hmul := mul_le_mul_of_nonneg_right hmaxx (by norm_num [plenty] : (0 : ℚ) ≤ 1 / plenty)
  rw [below]
  norm_num [share, grain, plenty, factor] at hlo hlower hmul ⊢
  linarith

def Significant (hi : ℚ) (n : ℕ) (acc : Option Price) : Prop :=
  ∀ p, acc = some p → 1 ≤ n ∧ Fits p ∧ 1 / factor ≤ value p ∧ value p ≤ highest n hi

theorem sampled_significant (feeders d : ℕ) (lo hi : ℚ) (s : Sample) (p : Price)
    (hm : Moderate feeders d lo hi) (hs : Sampled lo hi s) (hp : s.price = some p) :
    1 / factor ≤ value p := by
  obtain ⟨_, hlow, _⟩ := hs p hp
  obtain ⟨hw0, hw1, _⟩ := weights d hm.discount_lt.le
  have hx0 := value_nonneg p
  have hrecent := recent_low lo _ (value p) hw0 hw1 hx0 hm.low_enough hlow
  have hle := below_le (1 / plenty) 0 (value p * ((d : ℚ) / hundred)) (by norm_num [plenty]) le_rfl
  have hshrink := mul_le_mul_of_nonneg_left hw1 hx0
  linarith

theorem recent_defined (d : ℕ) (lo : ℚ) (sample : Price) (hd : d < hundred) (hs : Fits sample)
    (hl : 2 * grain ≤ lo * ((d : ℚ) / hundred)) (hlow : lowest 1 lo ≤ value sample)
    (hup : value sample ≤ 200 * factor) :
    ∃ recent, (sample.lossyMul (percent d) : Outcome ε Price) = .ok recent ∧
      1 / factor ≤ value recent := by
  obtain ⟨hw0, hw1, _⟩ := weights d hd.le
  have hh : hundred < 2 ^ amountBits := by norm_num [hundred, amountBits]
  have hx : product sample (percent d) = value sample * ((d : ℚ) / hundred) := rfl
  have hunit := recent_low lo _ (value sample) hw0 hw1 (value_nonneg _) hl hlow
  have hle := below_le (1 / plenty) 0 (product sample (percent d)) (by norm_num [plenty]) le_rfl
  have hshrink := mul_le_mul_of_nonneg_left hw1 (value_nonneg sample)
  rw [← hx] at hunit hshrink
  have hpos : (1 : ℚ) / 2 ^ 126 ≤ 1 / factor := by norm_num [factor]
  have hroom : (200 * factor : ℚ) ≤ 2 ^ 126 := by norm_num [factor]
  obtain ⟨recent, hr⟩ := @lossyMul_fits ε sample (percent d) hs (percent_total_pos d)
    (lt_trans hd hh) hh (by linarith) (by linarith)
  exact ⟨recent, hr, le_trans hunit (lossyMul_ok _ _ _ hr).2.1⟩

theorem previous_defined (d : ℕ) (acc : Price) (hd : d < hundred) (ha : Fits acc)
    (hunit : 1 / factor ≤ value acc) (hup : value acc ≤ 200 * factor) :
    ∃ previous, (acc.lossyMul (percent (hundred - d)) : Outcome ε Price) = .ok previous := by
  have hh : hundred < 2 ^ amountBits := by norm_num [hundred, amountBits]
  obtain ⟨hw0, _, hw⟩ := weights d hd.le
  have hx : product acc (percent (hundred - d)) = value acc * (1 - (d : ℚ) / hundred) := by
    rw [product, percent, hw]
  have hrest : (1 : ℚ) / hundred ≤ 1 - (d : ℚ) / hundred := by
    rw [← hw]
    apply div_le_div_of_nonneg_right _ (by norm_num [hundred])
    exact_mod_cast (by omega : 1 ≤ hundred - d)
  have hlow := mul_le_mul hunit hrest (by norm_num [hundred]) (value_nonneg acc)
  have hshrink := mul_le_mul_of_nonneg_left (by linarith : 1 - (d : ℚ) / hundred ≤ 1)
    (value_nonneg acc)
  have hpos : (1 : ℚ) / 2 ^ 126 ≤ 1 / factor * (1 / hundred) := by norm_num [factor, hundred]
  have hroom : (200 * factor : ℚ) ≤ 2 ^ 126 := by norm_num [factor]
  exact lossyMul_fits acc (percent (hundred - d)) ha (percent_total_pos _)
    (lt_of_le_of_lt (Nat.sub_le _ _) hh) hh (by linarith) (by linarith)

theorem discounted_defined (feeders d n : ℕ) (lo hi : ℚ) (acc : Option Price) (s : Sample)
    (h0 : 0 ≤ hi) (hn : n < 2 ^ 16) (hhi : hi ≤ 100 * factor) (hm : Moderate feeders d lo hi)
    (hs : Sampled lo hi s) (ha : Significant hi n acc) (hsome : acc.isSome → s.price.isSome) :
    ∃ acc', (discounted d acc s.price : Outcome ε _) = .ok acc' ∧
      Significant hi (n + 1) acc' := by
  cases acc with
  | none =>
    refine ⟨s.price, rfl, ?_⟩
    intro p hp
    obtain ⟨hheld, _, hup⟩ := hs p hp
    have h1 := sampled_significant feeders d lo hi s p hm hs hp
    exact ⟨by omega, hheld.toFits, h1, le_trans hup (le_highest 1 (n + 1) hi h0 (by omega))⟩
  | some acc =>
    obtain ⟨hn1, hacc, hunit, hup⟩ := ha acc rfl
    obtain ⟨sample, hsp⟩ := Option.isSome_iff_exists.1 (hsome rfl)
    obtain ⟨hheld, hslow, hsup⟩ := hs sample hsp
    have hd := hm.discount_lt
    have htop := highest_moderate n hi h0 hn.le hhi
    have hstop : value sample ≤ highest n hi := le_trans hsup (le_highest 1 n hi h0 hn1)
    obtain ⟨recent, hr, hrunit⟩ := @recent_defined ε d lo sample hd hheld.toFits hm.low_enough
      hslow (le_trans hstop htop)
    obtain ⟨previous, hp⟩ := @previous_defined ε d acc hd hacc hunit (le_trans hup htop)
    have hrf := (lossyMul_ok _ _ _ hr).1.toFits
    have hpf := (lossyMul_ok _ _ _ hp).1.toFits
    have hsum : value recent + value previous ≤ highest (n + 1) hi := by
      have hmix := (mixed_sum d 0 (highest n hi) sample acc recent previous hd.le
        ⟨value_nonneg _, hstop⟩ ⟨value_nonneg _, hup⟩ hr hp).2
      rwa [highest, ← high_succ] at hmix
    have htop' := highest_moderate (n + 1) hi h0 (by omega) hhi
    have hsmall : (value recent + value previous) * factor < 2 ^ 128 := by
      have := mul_le_mul_of_nonneg_right (le_trans hsum htop') (Nat.cast_nonneg factor)
      have hnum : (200 * factor * factor : ℚ) < 2 ^ 128 := by norm_num [factor]
      linarith
    obtain ⟨price, hadd⟩ := @add_fits ε recent previous hrf hpf hsmall
    obtain ⟨hfit, _, hpup, hpunit⟩ := add_ok recent previous price hrf.amount_pos hpf.amount_pos hadd
    refine ⟨some price, ?_, ?_⟩
    · rw [hsp]
      simp only [discounted, bind_ok, nativeSub_ok, pure_ok, Option.some.injEq]
      exact ⟨recent, hr, _, ⟨hd.le, rfl⟩, previous, hp, price, hadd, rfl⟩
    · intro p hpe
      cases hpe
      exact ⟨by omega, hfit, hpunit hrunit, le_trans hpup hsum⟩

def cutOff (config : Config) (at_ : ℕ) : ℕ := at_ - config.feedValidity

def startBuilder (valid : List (Observation Addr)) (config : Config) (at_ : ℕ) :
    SampleBuilder Addr :=
  SampleBuilder.from_ valid (cutOff config at_) config.samplePeriod

theorem startBuilder_within (valid : List (Observation Addr)) (config : Config) (at_ : ℕ)
    (lo hi : ℚ) : Within valid lo hi (startBuilder valid config at_) where
  pending := fun _ ho => ho
  cleared := rfl
  sampled := fun _ hp => by cases hp

def observed (o : Observation Addr) : ℚ := value o.price

theorem extreme_observations (valid : List (Observation Addr)) (h : valid ≠ []) :
    ∃ cheapest ∈ valid, ∃ dearest ∈ valid,
      ∀ o ∈ valid, Between (value cheapest.price) (value dearest.price) o.price := by
  have hmin : List.argmin observed valid ≠ none :=
    fun hn => h (List.argmin_eq_none.1 hn)
  have hmax : List.argmax observed valid ≠ none :=
    fun hn => h (List.argmax_eq_none.1 hn)
  obtain ⟨c, hc⟩ := Option.ne_none_iff_exists'.1 hmin
  obtain ⟨d, hd⟩ := Option.ne_none_iff_exists'.1 hmax
  refine ⟨c, List.argmin_mem hc, d, List.argmax_mem hd, ?_⟩
  intro o ho
  have h1 : observed c ≤ observed o := List.le_of_mem_argmin ho hc
  have h2 : observed o ≤ observed d := List.le_of_mem_argmax ho hd
  exact ⟨h1, h2⟩

variable [DecidableEq Addr]

theorem next_defined (order : VisitOrder Addr) (valid : List (Observation Addr)) (lo hi : ℚ)
    (d n : ℕ) (b : SampleBuilder Addr) (h0 : 0 ≤ hi)
    (hv : ∀ o ∈ valid, Between lo hi o.price) (hw : countUniqueFeeders valid < 2 ^ amountBits)
    (hm : Moderate (countUniqueFeeders valid) d lo hi) (hb : Within valid lo hi b)
    (ht : b.sampleStart + (n + 1) * b.sampleSpan < 2 ^ timeBits) :
    ∃ r, (b.next order : Outcome ε _) = .ok r := by
  have he := @sampleEnd_fits ε Addr b n ht
  obtain ⟨hobs, hlen, hcount⟩ :=
    periodPrices_observed order valid lo hi b (b.sampleStart + b.sampleSpan) hb
  have hprices : ∀ p ∈ periodPrices order b (b.sampleStart + b.sampleSpan),
      Fits p ∧ Between lo hi p := by
    intro p hp
    obtain ⟨o, ho, rfl⟩ := hobs p hp
    exact ⟨o.held.toFits, hv o ho⟩
  have hroom : ((periodPrices order b (b.sampleStart + b.sampleSpan)).length : ℚ) * hi ≤
      100 * factor := by
    have hq : ((periodPrices order b (b.sampleStart + b.sampleSpan)).length : ℚ) ≤
      countUniqueFeeders valid := by exact_mod_cast hcount
    exact le_trans (mul_le_mul_of_nonneg_right hq h0) hm.high_enough
  obtain ⟨s, hs⟩ := @periodSample_defined ε lo hi _ b.lastSample (by omega)
    (moderate_low _ d lo hi hm) hroom hprices
  rw [next_eq order b _ he, ← hlen]
  exact ⟨_, (bind_ok _ _ _).2 ⟨s, hs, rfl⟩⟩

theorem reduce_defined (order : VisitOrder Addr) (valid : List (Observation Addr)) (lo hi : ℚ)
    (d n k : ℕ) (b : SampleBuilder Addr) (acc : Option Price) (h0 : 0 ≤ hi)
    (hhi : hi ≤ 100 * factor) (hk : k + n ≤ 2 ^ 16)
    (hv : ∀ o ∈ valid, Between lo hi o.price) (hw : countUniqueFeeders valid < 2 ^ amountBits)
    (hm : Moderate (countUniqueFeeders valid) d lo hi) (hb : Within valid lo hi b)
    (ha : Significant hi k acc) (hsome : acc.isSome → b.lastSample.price.isSome)
    (ht : b.sampleStart + n * b.sampleSpan < 2 ^ timeBits) :
    ∃ res, (reduceSamples order d n b acc : Outcome ε _) = .ok res := by
  induction n generalizing k b acc with
  | zero => exact ⟨acc, rfl⟩
  | succ n ih =>
    obtain ⟨⟨s, b'⟩, hnext⟩ := @next_defined ε Addr _ order valid lo hi d n b h0 hv hw hm hb ht
    obtain ⟨hb', hs, hlast, hkeep, hstart, hspan⟩ := next_within order valid lo hi b b' s hv hb hnext
    obtain ⟨acc', hacc, ha'⟩ := @discounted_defined ε _ d k lo hi acc s h0 (by omega) hhi hm hs ha
      fun h => hkeep (hsome h)
    have hpresent := discounted_present d acc acc' s (fun p hp => (hs p hp).1.toFits) hacc
    have hsome' : acc'.isSome → b'.lastSample.price.isSome := by
      intro h
      obtain ⟨p, hp⟩ := Option.isSome_iff_exists.1 h
      rw [hlast]
      exact (hpresent p hp).2
    have ht' : b'.sampleStart + n * b'.sampleSpan < 2 ^ timeBits := by
      rw [hstart, hspan]
      have : (n + 1) * b.sampleSpan = b.sampleSpan + n * b.sampleSpan := by ring
      omega
    obtain ⟨res, hres⟩ := ih (k + 1) b' acc' (by omega) hb' ha' hsome' ht'
    use res
    simp only [reduceSamples, bind_ok]
    exact ⟨(s, b'), hnext, acc', hacc, hres⟩

theorem calcPrice_cases (order : VisitOrder Addr) (observations : Observations Addr)
    (config : Config) (at_ totalFeeders : ℕ) (ht : totalFeeders < 2 ^ usizeBits) :
    calcPrice order observations config at_ totalFeeders = failing .noPrice ∨
      calcPrice order observations config at_ totalFeeders = (do
        let price ← reduceSamples order config.discountFactor config.samplesNumber.toNat
          (startBuilder (validObservations observations (cutOff config at_)) config at_) none
        okOr price .noPrice) := by
  obtain ⟨needed, hn⟩ := @feedersNeeded_fits PriceFeedsError config totalFeeders ht
  rw [calcPrice, feedValidSince_eq]
  show (config.feedersNeeded totalFeeders >>= _) = _ ∨ (config.feedersNeeded totalFeeders >>= _) = _
  rw [hn]
  show (if _ then _ else _) = _ ∨ (if _ then _ else _) = _
  split_ifs
  · exact .inr rfl
  · exact .inl rfl

theorem valid_feeders_fit (observations : Observations Addr) (since : ℕ) :
    countUniqueFeeders (validObservations observations since) < 2 ^ amountBits := by
  have h1 : countUniqueFeeders (validObservations observations since) ≤
      (validObservations observations since).length := by
    have := (List.dedup_sublist ((validObservations observations since).map fun o =>
      o.feeder)).length_le
    rwa [List.length_map] at this
  have h2 : (validObservations observations since).length ≤ observations.items.length :=
    List.length_filter_le _ _
  have h3 := observations.fits
  have h4 : 2 ^ usizeBits < 2 ^ amountBits := by norm_num [usizeBits, amountBits]
  omega

theorem calcPrice_faults (order : VisitOrder Addr) (observations : Observations Addr)
    (config : Config) (at_ totalFeeders : ℕ) (hat : at_ < 2 ^ timeBits)
    (ht : totalFeeders < 2 ^ usizeBits) :
    FaultsIn (fun e => Guard e ∨ e = .error .noPrice)
      (calcPrice order observations config at_ totalFeeders) := by
  rcases calcPrice_cases order observations config at_ totalFeeders ht with h | h
  · rw [h]
    exact faultsIn_error _ _ (.inr rfl)
  · rw [h]
    set valid := validObservations observations (cutOff config at_) with hvalid
    have hbounds : ∃ lo hi, ∀ o ∈ valid, Between lo hi o.price := by
      by_cases hne : valid = []
      · exact ⟨0, 0, by simp [hne]⟩
      · obtain ⟨c, _, d, _, hall⟩ := extreme_observations valid hne
        exact ⟨_, _, hall⟩
    obtain ⟨lo, hi, hv⟩ := hbounds
    have hreduce := @reduce_faults PriceFeedsError Addr _ order valid lo hi config.discountFactor
      config.samplesNumber.toNat (startBuilder valid config at_) none config.discount_held.2 hv
      (valid_feeders_fit observations _) (startBuilder_within valid config at_ lo hi)
      (fun _ hp => by cases hp) (periods_fit config at_ hat)
    apply faultsIn_bind
    · intro e he
      exact .inl (hreduce e he)
    · intro price _
      exact faultsIn_okOr _ _ _ (.inr rfl)

theorem averaged_nonempty (n : ℕ) (p : Price) (hn : n ≤ 2 ^ 16)
    (h : Between (lowest n 1) (highest n 0) p) : False := by
  obtain ⟨h1, h2⟩ := h
  have hlow := low_ge share grain n 1 share_nonneg grain_nonneg
  have hcost : (0 : ℚ) ≤ n * (max 1 0 * share) :=
    mul_nonneg (Nat.cast_nonneg n) (mul_nonneg (by norm_num) share_nonneg)
  have hnq : (n : ℚ) ≤ 2 ^ 16 := by exact_mod_cast hn
  have hsmall : (n : ℚ) * (max 1 0 * share) ≤ 2 ^ 16 * (max 1 0 * share) :=
    mul_le_mul_of_nonneg_right hnq (mul_nonneg (by norm_num) share_nonneg)
  have hhigh := high_le share n 0 share_nonneg le_rfl
    (by norm_num [share, plenty] at hsmall ⊢; linarith)
  have hdrop := mul_le_mul_of_nonneg_right hnq
    (by norm_num [share, plenty, grain, factor] : (0 : ℚ) ≤ max 1 1 * share + grain)
  rw [lowest] at h1
  rw [highest] at h2
  norm_num [share, plenty, grain, factor] at hlow hhigh hdrop h1 h2
  linarith

theorem calcPrice_range (order : VisitOrder Addr) (observations : Observations Addr)
    (config : Config) (at_ totalFeeders : ℕ) (price : Price) (ht : totalFeeders < 2 ^ usizeBits)
    (h : calcPrice order observations config at_ totalFeeders = .ok price) (lo hi : ℚ)
    (h0 : 0 ≤ hi)
    (hv : ∀ o ∈ validObservations observations (cutOff config at_), Between lo hi o.price) :
    Between (lowest config.samplesNumber.toNat lo) (highest config.samplesNumber.toNat hi)
      price := by
  rcases calcPrice_cases order observations config at_ totalFeeders ht with hc | hc
  · rw [hc] at h
    cases h
  · rw [hc] at h
    simp only [bind_ok, okOr_ok] at h
    obtain ⟨res, hres, rfl⟩ := h
    have ha := reduce_bounds order _ lo hi config.discountFactor config.samplesNumber.toNat 0
      _ none (some price) h0 config.discount_held.2 hv
      (startBuilder_within _ config at_ lo hi) (fun _ hp => by cases hp) hres
    rw [Nat.zero_add] at ha
    exact (ha price rfl).2.2

theorem calcPrice_defined (order : VisitOrder Addr) (observations : Observations Addr)
    (config : Config) (at_ totalFeeders : ℕ) (hat : at_ < 2 ^ timeBits)
    (ht : totalFeeders < 2 ^ usizeBits) (lo hi : ℚ) (h0 : 0 ≤ hi) (hhi : hi ≤ 100 * factor)
    (hv : ∀ o ∈ validObservations observations (cutOff config at_), Between lo hi o.price)
    (hm : Moderate (countUniqueFeeders (validObservations observations (cutOff config at_)))
      config.discountFactor lo hi) (cause : Panic) :
    calcPrice order observations config at_ totalFeeders ≠ .error (.panic cause) := by
  rcases calcPrice_cases order observations config at_ totalFeeders ht with hc | hc
  · rw [hc]
    simp [failing]
  · have hn : 0 + config.samplesNumber.toNat ≤ 2 ^ 16 := by
      have := config.samplesNumber.toNat_lt
      omega
    obtain ⟨res, hres⟩ := @reduce_defined PriceFeedsError Addr _ order _ lo hi
      config.discountFactor config.samplesNumber.toNat 0 _ none h0 hhi hn hv
      (valid_feeders_fit observations _) hm (startBuilder_within _ config at_ lo hi)
      (fun _ hp => by cases hp) (by simp) (periods_fit config at_ hat)
    rw [hc, hres]
    cases res with
    | none => simp [okOr, failing, bind, Except.bind]
    | some p => simp [okOr, bind, Except.bind]

theorem moderate_high (valid : List (Observation Addr)) (d : ℕ) (lo hi : ℚ)
    (o : Observation Addr) (ho : o ∈ valid) (hv : ∀ o ∈ valid, Between lo hi o.price)
    (hm : Moderate (countUniqueFeeders valid) d lo hi) : 0 ≤ hi ∧ hi ≤ 100 * factor := by
  have h0 : 0 ≤ hi := le_trans (value_nonneg o.price) (hv o ho).2
  have hmem : o.feeder ∈ (valid.map fun o => o.feeder).dedup :=
    List.mem_dedup.2 (List.mem_map_of_mem ho)
  have hpos : 1 ≤ countUniqueFeeders valid := List.length_pos_of_mem hmem
  have hq : (1 : ℚ) ≤ countUniqueFeeders valid := by exact_mod_cast hpos
  have := mul_le_mul_of_nonneg_right hq h0
  have hh := hm.high_enough
  exact ⟨h0, by linarith⟩

/-- The price of a feed: the guards of the price arithmetic are its only panics,
it lies between the lowest and the highest valid observation up to one rounding
a sample, and for moderate prices there is no panic. -/
theorem price_between_observed (order : VisitOrder Addr) (observations : Observations Addr)
    (config : Config) (at_ totalFeeders : ℕ) (hat : at_ < 2 ^ timeBits)
    (ht : totalFeeders < 2 ^ usizeBits) :
    let valid := validObservations observations (cutOff config at_)
    let n := config.samplesNumber.toNat
    FaultsIn (fun e => Guard e ∨ e = .error .noPrice)
        (calcPrice order observations config at_ totalFeeders) ∧
      (∀ price, calcPrice order observations config at_ totalFeeders = .ok price →
        ∃ cheapest ∈ valid, ∃ dearest ∈ valid,
          (∀ o ∈ valid, cheapest.price ≤ o.price ∧ o.price ≤ dearest.price) ∧
          lowest n (value cheapest.price) ≤ value price ∧
          value price ≤ highest n (value dearest.price)) ∧
      (∀ lo hi, (∀ o ∈ valid, Between lo hi o.price) →
        Moderate (countUniqueFeeders valid) config.discountFactor lo hi →
        ∀ cause, calcPrice order observations config at_ totalFeeders ≠ .error (.panic cause)) := by
  intro valid n
  have hn : n ≤ 2 ^ 16 := by
    have := config.samplesNumber.toNat_lt
    omega
  refine ⟨calcPrice_faults order observations config at_ totalFeeders hat ht, ?_, ?_⟩
  · intro price hprice
    have hrange := calcPrice_range order observations config at_ totalFeeders price ht hprice
    have hne : valid ≠ [] := by
      intro hnil
      have hvoid : ∀ o ∈ valid, Between 1 0 o.price := by
        rw [hnil]
        simp
      exact averaged_nonempty n price hn (hrange 1 0 le_rfl hvoid)
    obtain ⟨c, hc, d, hd, hall⟩ := extreme_observations valid hne
    refine ⟨c, hc, d, hd, ?_, hrange _ _ (value_nonneg _) hall⟩
    intro o ho
    obtain ⟨h1, h2⟩ := hall o ho
    exact ⟨(le_iff_value _ _ c.held.toFits o.held.toFits).2 h1,
      (le_iff_value _ _ o.held.toFits d.held.toFits).2 h2⟩
  · intro lo hi hv hm
    by_cases hnil : valid = []
    · have hvoid : ∀ o ∈ valid, Between lo 0 o.price := by
        rw [hnil]
        simp
      have hm' : Moderate (countUniqueFeeders valid) config.discountFactor lo 0 :=
        ⟨hm.discount_lt, hm.low_enough, by rw [mul_zero]; positivity⟩
      exact calcPrice_defined order observations config at_ totalFeeders hat ht lo 0 le_rfl
        (by positivity) hvoid hm'
    · obtain ⟨o, ho⟩ := List.exists_mem_of_ne_nil valid hnil
      obtain ⟨h0, hhi⟩ := moderate_high valid config.discountFactor lo hi o ho hv hm
      exact calcPrice_defined order observations config at_ totalFeeders hat ht lo hi h0 hhi hv hm

def asInserted : VisitOrder ℕ := ⟨fun _ entries => entries, fun _ _ => List.Perm.refl _⟩

def sampleConfig : Config where
  minFeeders := 1000
  samplePeriod := 5
  samplesNumber := 12
  feedValidity := 60
  discountFactor := 750
  feeders_held := by decide
  period_pos := by decide
  samples_pos := by decide
  validity_eq := rfl
  validity_fits := by decide
  discount_held := by decide

def sampleFeed : Observations ℕ where
  items :=
    [⟨1, 88, ⟨19, 5160⟩, ⟨⟨by decide, by decide, by decide⟩, by decide⟩⟩,
      ⟨1, 93, ⟨19, 5500⟩, ⟨⟨by decide, by decide, by decide⟩, by decide⟩⟩,
      ⟨1, 94, ⟨19, 5010⟩, ⟨⟨by decide, by decide, by decide⟩, by decide⟩⟩,
      ⟨2, 94, ⟨19, 4990⟩, ⟨⟨by decide, by decide, by decide⟩, by decide⟩⟩,
      ⟨1, 98, ⟨19, 5000⟩, ⟨⟨by decide, by decide, by decide⟩, by decide⟩⟩]
  ordered := by decide
  fits := by decide

theorem sampleFeed_bounds :
    ∀ o ∈ validObservations sampleFeed (cutOff sampleConfig 100), Between 262 290 o.price := by
  have hall : validObservations sampleFeed (cutOff sampleConfig 100) = sampleFeed.items := rfl
  rw [hall]
  simp only [sampleFeed, List.forall_mem_cons, Between, value]
  norm_num

theorem price_between_observed_sample :
    calcPrice asInserted sampleFeed sampleConfig 100 1 = .ok ⟨19, 5010⟩ ∧
      (∃ cheapest ∈ validObservations sampleFeed (cutOff sampleConfig 100),
        ∃ dearest ∈ validObservations sampleFeed (cutOff sampleConfig 100),
          (∀ o ∈ validObservations sampleFeed (cutOff sampleConfig 100),
            cheapest.price ≤ o.price ∧ o.price ≤ dearest.price) ∧
          lowest 12 (value cheapest.price) ≤ value ⟨19, 5010⟩ ∧
          value ⟨19, 5010⟩ ≤ highest 12 (value dearest.price)) ∧
      ∀ cause, calcPrice asInserted sampleFeed sampleConfig 100 1 ≠ .error (.panic cause) := by
  obtain ⟨_, hrange, hdefined⟩ := price_between_observed asInserted sampleFeed sampleConfig 100 1
    (by decide) (by decide)
  have hcount : countUniqueFeeders (validObservations sampleFeed (cutOff sampleConfig 100)) = 2 :=
    by decide
  have hm : Moderate (countUniqueFeeders (validObservations sampleFeed (cutOff sampleConfig 100)))
      sampleConfig.discountFactor 262 290 := by
    rw [hcount]
    exact ⟨by decide, by norm_num [grain, factor, sampleConfig, hundred], by norm_num [factor]⟩
  exact ⟨rfl, hrange ⟨19, 5010⟩ rfl, hdefined 262 290 sampleFeed_bounds hm⟩

def hugePrice : Price := ⟨2 ^ 60, 2 ^ 60 * 200000000000000000000 + 1⟩

theorem hugePrice_held : Held hugePrice :=
  ⟨⟨by decide, by decide, by decide⟩, by decide⟩

def hugeFeed : Observations ℕ where
  items := [⟨1, 94, hugePrice, hugePrice_held⟩, ⟨2, 94, hugePrice, hugePrice_held⟩]
  ordered := by decide
  fits := by decide

/-- Two feeders with huge prices make the average panic. -/
theorem huge_prices_panic :
    ¬ ∀ (order : VisitOrder ℕ) (observations : Observations ℕ) (config : Config)
        (at_ totalFeeders : ℕ) (cause : Panic),
        calcPrice order observations config at_ totalFeeders ≠ .error (.panic cause) := by
  intro h
  exact h asInserted hugeFeed sampleConfig 100 2 (.overflow "should not observe huge prices") rfl

theorem whole_discount_panics (acc sample : Price) (res : Option Price) :
    (discounted hundred (some acc) (some sample) : Outcome ε _) ≠ .ok res := by
  intro h
  simp only [discounted, bind_ok, nativeSub_ok] at h
  obtain ⟨_, _, rest, ⟨_, rfl⟩, previous, hp, _⟩ := h
  obtain ⟨hheld, _, hup⟩ := lossyMul_ok acc previous _ hp
  have hzero : product acc (percent (hundred - hundred)) = 0 := by simp [product, percent]
  rw [hzero] at hup
  have := value_pos previous hheld
  simp only [above] at hup
  linarith

end Nolus.FeedPrice
