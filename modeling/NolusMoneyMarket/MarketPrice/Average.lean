import NolusMoneyMarket.MarketPrice.Feed

/-! # The moving average stays between the observed prices

An average over prices of an interval stays in the interval, up to the rounding
of the operations. One sample costs one rounding, and so does each further
step of the moving average. -/

set_option autoImplicit false

namespace Nolus.FeedAverage
open Nolus.Fallible Nolus.Fraction Nolus.Prices Nolus.Rounding Nolus.PriceAccuracy
open Nolus.PriceFeeding

variable {ε Addr : Type}

def Between (lo hi : ℚ) (p : Price) : Prop := lo ≤ value p ∧ value p ≤ hi

def lowest (n : ℕ) (lo : ℚ) : ℚ := low share grain n lo

def highest (n : ℕ) (hi : ℚ) : ℚ := high share n hi

theorem lowest_le (m n : ℕ) (lo : ℚ) (h : m ≤ n) : lowest n lo ≤ lowest m lo :=
  low_antitone share grain lo share_nonneg grain_nonneg h

theorem le_highest (m n : ℕ) (hi : ℚ) (h0 : 0 ≤ hi) (h : m ≤ n) : highest m hi ≤ highest n hi :=
  high_monotone share hi share_nonneg h0 h

theorem between_widen (m n : ℕ) (lo hi : ℚ) (p : Price) (h0 : 0 ≤ hi) (h : m ≤ n)
    (hp : Between (lowest m lo) (highest m hi) p) : Between (lowest n lo) (highest n hi) p :=
  ⟨le_trans (lowest_le m n lo h) hp.1, le_trans hp.2 (le_highest m n hi h0 h)⟩

/-! ## A sample -/

theorem sum_bounds (lo hi : ℚ) (values : List Price) (first sum : Price) (n : ℕ)
    (hf : Fits first) (hfirst : Between (n * lo - (n - 1) * grain) (n * hi) first)
    (hv : ∀ p ∈ values, Fits p ∧ Between lo hi p)
    (h : (values.foldlM Price.add first : Outcome ε Price) = .ok sum) :
    Fits sum ∧ Between ((n + values.length : ℕ) * lo - ((n + values.length : ℕ) - 1) * grain)
      ((n + values.length : ℕ) * hi) sum := by
  induction values generalizing first n with
  | nil =>
    have hs : first = sum := (pure_ok _ _).1 h
    subst hs
    exact ⟨hf, hfirst⟩
  | cons p rest ih =>
    rw [List.foldlM_cons, bind_ok] at h
    obtain ⟨acc, hacc, hrest⟩ := h
    obtain ⟨hp, hpb⟩ := hv p List.mem_cons_self
    obtain ⟨hfit, hlow, hup, _⟩ := add_ok first p acc hf.amount_pos hp.amount_pos hacc
    have hb : Between ((n + 1 : ℕ) * lo - ((n + 1 : ℕ) - 1) * grain) ((n + 1 : ℕ) * hi) acc := by
      obtain ⟨h1, h2⟩ := hfirst
      obtain ⟨h3, h4⟩ := hpb
      constructor <;> push_cast <;> linarith
    have := ih acc (n + 1) hfit hb (fun q hq => hv q (List.mem_cons_of_mem _ hq)) hrest
    rw [List.length_cons, show n + (rest.length + 1) = n + 1 + rest.length by omega]
    exact this

theorem mean_bounds (lo hi : ℚ) (sum : Price) (n : ℕ) (hn : 0 < n)
    (h : Between (n * lo - (n - 1) * grain) (n * hi) sum) :
    lo - grain ≤ product sum ⟨1, n⟩ ∧ product sum ⟨1, n⟩ ≤ hi := by
  obtain ⟨h1, h2⟩ := h
  have hq : (0 : ℚ) < n := by exact_mod_cast hn
  have hg := grain_nonneg
  rw [product, Nat.cast_one, mul_one_div]
  constructor
  · rw [le_div_iff₀ hq]
    linarith
  · rw [div_le_iff₀ hq]
    linarith

theorem average_bounds (lo hi : ℚ) (first avg : Price) (values : List Price) (n : ℕ)
    (hn : n = values.length + 1)
    (hv : ∀ p ∈ first :: values, Fits p ∧ Between lo hi p)
    (h : (average n first values : Outcome ε Price) = .ok avg) :
    Held avg ∧ Between (lowest 1 lo) (highest 1 hi) avg := by
  unfold average at h
  rw [bind_ok] at h
  obtain ⟨sum, hsum, havg⟩ := h
  obtain ⟨hff, hfb⟩ := hv first List.mem_cons_self
  have hsb := (sum_bounds lo hi values first sum 1 hff (by simpa using hfb)
    (fun p hp => hv p (List.mem_cons_of_mem _ hp)) hsum).2
  rw [show 1 + values.length = n by omega] at hsb
  obtain ⟨h1, h2⟩ := mean_bounds lo hi sum n (by omega) hsb
  obtain ⟨hheld, hlow, hup⟩ := lossyMul_ok sum avg ⟨1, n⟩ havg
  refine ⟨hheld, ?_, ?_⟩
  · have hm : max 1 (lo - grain) ≤ max 1 lo := max_le_max le_rfl (by linarith [grain_nonneg])
    have hmono := below_mono (1 / plenty) 0 (by norm_num [plenty]) (by norm_num [plenty]) h1
    have hpl : (0 : ℚ) ≤ 1 / plenty := by norm_num [plenty]
    have hshare : max 1 (lo - grain) * (1 / plenty) ≤ max 1 lo * share := by
      rw [share, mul_add]
      have h3 := mul_le_mul_of_nonneg_right hm hpl
      have h4 := mul_nonneg (le_trans zero_le_one (le_max_left 1 lo)) hpl
      linarith
    show below share grain lo ≤ value avg
    simp only [below] at hmono hlow ⊢
    linarith
  · have hx : 0 ≤ product sum ⟨1, n⟩ :=
      mul_nonneg (value_nonneg sum) (by positivity)
    exact le_trans hup (above_mono share _ _ share_nonneg hx h2)

/-- A sample has a price only as an average of observed prices. -/
def Sampled (lo hi : ℚ) (s : Sample) : Prop :=
  ∀ p, s.price = some p → Held p ∧ Between (lowest 1 lo) (highest 1 hi) p

theorem periodSample_bounds (lo hi : ℚ) (values : List Price) (last s : Sample)
    (hv : ∀ p ∈ values, Fits p ∧ Between lo hi p) (hlast : Sampled lo hi last)
    (h : (periodSample values.length last values : Outcome ε Sample) = .ok s) :
    Sampled lo hi s ∧ (last.price.isSome → s.price.isSome) := by
  cases values with
  | nil =>
    have hs : last = s := (pure_ok _ _).1 h
    subst hs
    exact ⟨hlast, id⟩
  | cons first rest =>
    rw [periodSample, if_pos (by simp)] at h
    simp only [bind_ok, pure_ok] at h
    obtain ⟨avg, havg, rfl⟩ := h
    have hb := average_bounds lo hi first avg rest _ rfl hv havg
    constructor
    · intro p hp
      cases hp
      exact hb
    · simp

/-! ## A step of the moving average -/

theorem weights (d : ℕ) (hd : d ≤ hundred) :
    (0 : ℚ) ≤ (d : ℚ) / hundred ∧ (d : ℚ) / hundred ≤ 1 ∧
      ((hundred - d : ℕ) : ℚ) / hundred = 1 - (d : ℚ) / hundred := by
  have hq : (d : ℚ) ≤ hundred := by exact_mod_cast hd
  have h0 : (0 : ℚ) < hundred := by norm_num [hundred]
  refine ⟨by positivity, (div_le_one h0).2 hq, ?_⟩
  rw [Nat.cast_sub hd, sub_div, div_self h0.ne']

theorem mix_between (w L H x y : ℚ) (hw0 : 0 ≤ w) (hw1 : w ≤ 1) (hx : L ≤ x ∧ x ≤ H)
    (hy : L ≤ y ∧ y ≤ H) : L ≤ x * w + y * (1 - w) ∧ x * w + y * (1 - w) ≤ H := by
  obtain ⟨hx1, hx2⟩ := hx
  obtain ⟨hy1, hy2⟩ := hy
  constructor <;> nlinarith

theorem mixed_sum (d : ℕ) (L H : ℚ) (sample acc recent previous : Price)
    (hd : d ≤ hundred) (hs : Between L H sample) (ha : Between L H acc)
    (hr : (sample.lossyMul (percent d) : Outcome ε Price) = .ok recent)
    (hp : (acc.lossyMul (percent (hundred - d)) : Outcome ε Price) = .ok previous) :
    below share grain L + grain ≤ value recent + value previous ∧
      value recent + value previous ≤ above share H := by
  obtain ⟨_, hr1, hr2⟩ := lossyMul_ok sample recent _ hr
  obtain ⟨_, hp1, hp2⟩ := lossyMul_ok acc previous _ hp
  obtain ⟨hw0, hw1, hw⟩ := weights d hd
  have hx : 0 ≤ product sample (percent d) := mul_nonneg (value_nonneg _) (by positivity)
  have hy : 0 ≤ product acc (percent (hundred - d)) := mul_nonneg (value_nonneg _) (by positivity)
  have hmix := mix_between _ L H (value sample) (value acc) hw0 hw1 hs ha
  have hsum : product sample (percent d) + product acc (percent (hundred - d)) =
      value sample * ((d : ℚ) / hundred) + value acc * (1 - (d : ℚ) / hundred) := by
    rw [product, product, percent, percent, hw]
  rw [← hsum] at hmix
  constructor
  · have hsplit := below_split grain (1 / plenty) _ _ hx hy (by norm_num [plenty])
    have hmono := below_mono share grain share_nonneg share_le_one hmix.1
    rw [share] at hmono ⊢
    linarith
  · have hsplit := above_split share _ _ hx hy share_nonneg
    have hmono := above_mono share _ _ share_nonneg (by linarith) hmix.2
    linarith

theorem mixed_bounds (d : ℕ) (L H : ℚ) (sample acc recent previous price : Price)
    (hd : d ≤ hundred) (hs : Between L H sample) (ha : Between L H acc)
    (hr : (sample.lossyMul (percent d) : Outcome ε Price) = .ok recent)
    (hp : (acc.lossyMul (percent (hundred - d)) : Outcome ε Price) = .ok previous)
    (h : (recent.add previous : Outcome ε Price) = .ok price) :
    Fits price ∧ Between (below share grain L) (above share H) price := by
  obtain ⟨hfits, h1, h2, _⟩ := add_ok recent previous price (lossyMul_ok _ _ _ hr).1.amount_pos
    (lossyMul_ok _ _ _ hp).1.amount_pos h
  obtain ⟨hlow, hup⟩ := mixed_sum d L H sample acc recent previous hd hs ha hr hp
  refine ⟨hfits, ?_, ?_⟩ <;> linarith

/-- The average after a number of samples is present only if one of them was. -/
def Averaged (lo hi : ℚ) (n : ℕ) (acc : Option Price) : Prop :=
  ∀ p, acc = some p → 1 ≤ n ∧ Fits p ∧ Between (lowest n lo) (highest n hi) p

theorem discounted_cases (d : ℕ) (acc sample : Option Price) (p : Price)
    (h : (discounted d acc sample : Outcome ε _) = .ok (some p)) :
    (acc = none ∧ sample = some p) ∨
      ∃ last current recent previous, acc = some last ∧ sample = some current ∧
        (current.lossyMul (percent d) : Outcome ε Price) = .ok recent ∧
        (last.lossyMul (percent (hundred - d)) : Outcome ε Price) = .ok previous ∧
        (recent.add previous : Outcome ε Price) = .ok p := by
  cases acc with
  | none => exact .inl ⟨rfl, (pure_ok _ _).1 h⟩
  | some last =>
    cases sample with
    | none => cases h
    | some current =>
      simp only [discounted, bind_ok, nativeSub_ok, pure_ok, Option.some.injEq] at h
      obtain ⟨recent, hr, rest, ⟨_, rfl⟩, previous, hp, price, hadd, rfl⟩ := h
      exact .inr ⟨last, current, recent, previous, rfl, rfl, hr, hp, hadd⟩

theorem discounted_bounds (lo hi : ℚ) (d n : ℕ) (acc acc' : Option Price) (s : Sample)
    (h0 : 0 ≤ hi) (hd : d ≤ hundred) (ha : Averaged lo hi n acc) (hs : Sampled lo hi s)
    (h : (discounted d acc s.price : Outcome ε _) = .ok acc') : Averaged lo hi (n + 1) acc' := by
  intro p hp
  subst hp
  rcases discounted_cases d acc s.price p h with
    ⟨-, hsp⟩ | ⟨last, sample, recent, previous, hlast, hsp, hr, hprev, hadd⟩
  · obtain ⟨hheld, hb⟩ := hs p hsp
    exact ⟨by omega, hheld.toFits, between_widen 1 (n + 1) lo hi p h0 (by omega) hb⟩
  · obtain ⟨hn, _, hab⟩ := ha last hlast
    obtain ⟨_, hsb⟩ := hs sample hsp
    have hsb' := between_widen 1 n lo hi sample h0 hn hsb
    obtain ⟨hfits, hb⟩ := mixed_bounds d _ _ sample last recent previous p hd hsb' hab hr hprev hadd
    refine ⟨by omega, hfits, ?_⟩
    rw [lowest, highest, low_succ, high_succ]
    exact hb

/-! ## All samples -/

theorem sampleEnd_ok (b : SampleBuilder Addr) (e : ℕ)
    (h : (b.sampleEnd : Outcome ε ℕ) = .ok e) : e = b.sampleStart + b.sampleSpan :=
  ((nativeAdd_ok _ _ _ _).1 h).2.symm

theorem sampleEnd_fits (b : SampleBuilder Addr) (n : ℕ)
    (h : b.sampleStart + (n + 1) * b.sampleSpan < 2 ^ timeBits) :
    (b.sampleEnd : Outcome ε ℕ) = .ok (b.sampleStart + b.sampleSpan) := by
  apply (nativeAdd_ok _ _ _ _).2
  have : (n + 1) * b.sampleSpan = n * b.sampleSpan + b.sampleSpan := by ring
  omega

variable [DecidableEq Addr]

def periodPrices (order : VisitOrder Addr) (b : SampleBuilder Addr) (sampleEnd : ℕ) : List Price :=
  (order.visit b.sampleStart (collect sampleEnd b.pipeline b.samplePrices).2.2.entries).map
    fun e => e.2

structure Within (valid : List (Observation Addr)) (lo hi : ℚ) (b : SampleBuilder Addr) :
    Prop where
  pending : ∀ o ∈ b.pipeline, o ∈ valid
  cleared : b.samplePrices = ∅
  sampled : Sampled lo hi b.lastSample

theorem periodPrices_observed (order : VisitOrder Addr) (valid : List (Observation Addr))
    (lo hi : ℚ) (b : SampleBuilder Addr) (sampleEnd : ℕ) (hb : Within valid lo hi b) :
    (∀ p ∈ periodPrices order b sampleEnd, ∃ o ∈ valid, o.price = p) ∧
      (periodPrices order b sampleEnd).length =
        (collect sampleEnd b.pipeline b.samplePrices).2.2.entries.length ∧
      (periodPrices order b sampleEnd).length ≤ countUniqueFeeders valid := by
  set prices := (collect sampleEnd b.pipeline b.samplePrices).2.2 with hprices
  have hfrom : ∀ e ∈ prices.entries, ∃ o ∈ valid, e = ⟨o.feeder, o.price⟩ := by
    intro e he
    rcases collect_prices sampleEnd b.pipeline b.samplePrices e he with hin | ⟨o, ho, heq⟩
    · rw [hb.cleared] at hin
      cases hin
    · exact ⟨o, hb.pending o ho, heq⟩
  have hperm := order.perm b.sampleStart prices.entries
  have hlen : (periodPrices order b sampleEnd).length = prices.entries.length := by
    rw [periodPrices, List.length_map, hperm.length_eq]
  refine ⟨?_, hlen, ?_⟩
  · intro p hp
    obtain ⟨e, he, rfl⟩ := List.mem_map.1 hp
    obtain ⟨o, ho, heq⟩ := hfrom e (hperm.mem_iff.1 he)
    exact ⟨o, ho, by rw [heq]⟩
  · rw [hlen]
    exact samplePrices_bound prices valid hfrom

theorem next_eq (order : VisitOrder Addr) (b : SampleBuilder Addr) (e : ℕ)
    (he : (b.sampleEnd : Outcome ε ℕ) = .ok e) :
    (b.next order : Outcome ε _) = (do
      let s ← periodSample (collect e b.pipeline b.samplePrices).2.2.entries.length b.lastSample
        (periodPrices order b e)
      pure (s, { observations := (collect e b.pipeline b.samplePrices).2.1
                 sampleStart := e, sampleSpan := b.sampleSpan
                 consumed := (collect e b.pipeline b.samplePrices).1
                 samplePrices := ∅, lastSample := s })) := by
  rw [SampleBuilder.next, he]
  show (((periodSample _ b.lastSample (periodPrices order b e) >>= fun s =>
    (b.sampleEnd >>= fun sampleStart => pure _)) >>= _) : Outcome ε _) = _
  cases periodSample (collect e b.pipeline b.samplePrices).2.2.entries.length b.lastSample
    (periodPrices order b e) with
  | error fault => rfl
  | ok s =>
    show (((b.sampleEnd >>= _) >>= _) : Outcome ε _) = _
    rw [he]
    rfl

theorem next_within (order : VisitOrder Addr) (valid : List (Observation Addr)) (lo hi : ℚ)
    (b b' : SampleBuilder Addr) (s : Sample) (hv : ∀ o ∈ valid, Between lo hi o.price)
    (hb : Within valid lo hi b) (h : (b.next order : Outcome ε _) = .ok (s, b')) :
    Within valid lo hi b' ∧ Sampled lo hi s ∧ b'.lastSample = s ∧
      (b.lastSample.price.isSome → s.price.isSome) ∧
      b'.sampleStart = b.sampleStart + b.sampleSpan ∧ b'.sampleSpan = b.sampleSpan := by
  obtain ⟨e, he, _⟩ := (bind_ok _ _ _).1 h
  rw [next_eq order b e he] at h
  obtain ⟨hobs, hlen, _⟩ := periodPrices_observed order valid lo hi b e hb
  rw [← hlen] at h
  simp only [bind_ok, pure_ok, Prod.mk.injEq] at h
  obtain ⟨s', hs, rfl, rfl⟩ := h
  have hprices : ∀ p ∈ periodPrices order b e, Fits p ∧ Between lo hi p := by
    intro p hp
    obtain ⟨o, ho, rfl⟩ := hobs p hp
    exact ⟨o.held.toFits, hv o ho⟩
  obtain ⟨hsampled, hkeep⟩ := periodSample_bounds lo hi _ b.lastSample s' hprices hb.sampled hs
  have hpending : ∀ o ∈ (collect e b.pipeline b.samplePrices).1.toList ++
      (collect e b.pipeline b.samplePrices).2.1, o ∈ valid :=
    fun o ho => hb.pending o (collect_pending e b.pipeline b.samplePrices o ho)
  exact ⟨⟨hpending, rfl, hsampled⟩, hsampled, rfl, hkeep, sampleEnd_ok b e he, rfl⟩

theorem reduce_bounds (order : VisitOrder Addr) (valid : List (Observation Addr)) (lo hi : ℚ)
    (d n k : ℕ) (b : SampleBuilder Addr) (acc res : Option Price) (h0 : 0 ≤ hi)
    (hd : d ≤ hundred) (hv : ∀ o ∈ valid, Between lo hi o.price) (hb : Within valid lo hi b)
    (ha : Averaged lo hi k acc) (h : (reduceSamples order d n b acc : Outcome ε _) = .ok res) :
    Averaged lo hi (k + n) res := by
  induction n generalizing k b acc with
  | zero =>
    have hr : acc = res := (pure_ok _ _).1 h
    subst hr
    exact ha
  | succ n ih =>
    simp only [reduceSamples, bind_ok] at h
    obtain ⟨⟨s, b'⟩, hnext, acc', hstep, hrest⟩ := h
    obtain ⟨hb', hs, _⟩ := next_within order valid lo hi b b' s hv hb hnext
    have ha' := discounted_bounds lo hi d k acc acc' s h0 hd ha hs hstep
    have := ih (k + 1) b' acc' hb' ha' hrest
    rwa [show k + 1 + n = k + (n + 1) by omega] at this

/-! ## The panics -/

theorem sum_fits (values : List Price) (first sum : Price) (hf : Fits first)
    (hv : ∀ p ∈ values, Fits p)
    (h : (values.foldlM Price.add first : Outcome ε Price) = .ok sum) : Fits sum := by
  induction values generalizing first with
  | nil => exact (pure_ok _ _).1 h ▸ hf
  | cons p rest ih =>
    rw [List.foldlM_cons, bind_ok] at h
    obtain ⟨acc, hacc, hrest⟩ := h
    have hfit := (add_ok first p acc hf.amount_pos (hv p List.mem_cons_self).amount_pos hacc).1
    exact ih acc hfit (fun q hq => hv q (List.mem_cons_of_mem _ hq)) hrest

theorem sum_faults (values : List Price) (first : Price) (hf : Fits first)
    (hv : ∀ p ∈ values, Fits p) :
    FaultsIn Guard (values.foldlM Price.add first : Outcome ε Price) := by
  induction values generalizing first with
  | nil => exact faultsIn_pure _ _
  | cons p rest ih =>
    have hp := hv p List.mem_cons_self
    rw [List.foldlM_cons]
    apply faultsIn_bind _ _ _ (add_faults first p hf hp)
    intro acc hacc
    have hfit := (add_ok first p acc hf.amount_pos hp.amount_pos hacc).1
    exact ih acc hfit fun q hq => hv q (List.mem_cons_of_mem _ hq)

theorem average_faults (n : ℕ) (first : Price) (values : List Price) (hn : 0 < n)
    (hw : n < 2 ^ amountBits) (hv : ∀ p ∈ first :: values, Fits p) :
    FaultsIn Guard (average n first values : Outcome ε Price) := by
  have hf := hv first List.mem_cons_self
  have hrest : ∀ p ∈ values, Fits p := fun p hp => hv p (List.mem_cons_of_mem _ hp)
  apply faultsIn_bind _ _ _ (sum_faults values first hf hrest)
  intro sum hsum
  exact lossyMul_faults sum ⟨1, n⟩ (sum_fits values first sum hf hrest hsum) hn
    (by norm_num [amountBits]) hw

theorem periodSample_faults (values : List Price) (last : Sample)
    (hw : values.length < 2 ^ amountBits) (hv : ∀ p ∈ values, Fits p) :
    FaultsIn Guard (periodSample values.length last values : Outcome ε Sample) := by
  cases values with
  | nil => exact faultsIn_pure _ _
  | cons first rest =>
    rw [periodSample, if_pos (by simp)]
    apply faultsIn_bind _ _ _ (average_faults _ first rest (by simp) hw hv)
    intro avg _
    exact faultsIn_pure _ _

theorem discounted_faults (d : ℕ) (acc : Option Price) (s : Sample) (hd : d ≤ hundred)
    (ha : ∀ p, acc = some p → Fits p ∧ s.price.isSome) (hs : ∀ p, s.price = some p → Fits p) :
    FaultsIn Guard (discounted d acc s.price : Outcome ε _) := by
  cases acc with
  | none => exact faultsIn_pure _ _
  | some acc =>
    obtain ⟨hacc, hsome⟩ := ha acc rfl
    obtain ⟨sample, hsp⟩ := Option.isSome_iff_exists.1 hsome
    have hsample := hs sample hsp
    have hh : hundred < 2 ^ amountBits := by norm_num [hundred, amountBits]
    rw [hsp]
    apply faultsIn_bind _ _ _ (lossyMul_faults sample _ hsample (percent_total_pos d)
      (lt_of_le_of_lt hd hh) hh)
    intro recent hrecent
    rw [nativeSub, if_pos hd]
    apply faultsIn_bind _ _ _ (lossyMul_faults acc _ hacc (percent_total_pos _)
      (lt_of_le_of_lt (Nat.sub_le _ _) hh) hh)
    intro previous hprevious
    apply faultsIn_bind _ _ _ (add_faults recent previous (lossyMul_ok _ _ _ hrecent).1.toFits
      (lossyMul_ok _ _ _ hprevious).1.toFits)
    intro price _
    exact faultsIn_pure _ _

theorem next_faults (order : VisitOrder Addr) (valid : List (Observation Addr)) (lo hi : ℚ)
    (n : ℕ) (b : SampleBuilder Addr) (hb : Within valid lo hi b)
    (hw : countUniqueFeeders valid < 2 ^ amountBits)
    (ht : b.sampleStart + (n + 1) * b.sampleSpan < 2 ^ timeBits) :
    FaultsIn Guard (b.next order : Outcome ε _) := by
  have he := @sampleEnd_fits ε Addr b n ht
  obtain ⟨hobs, hlen, hcount⟩ :=
    periodPrices_observed order valid lo hi b (b.sampleStart + b.sampleSpan) hb
  rw [next_eq order b _ he, ← hlen]
  have hfits : ∀ p ∈ periodPrices order b (b.sampleStart + b.sampleSpan), Fits p := by
    intro p hp
    obtain ⟨o, _, rfl⟩ := hobs p hp
    exact o.held.toFits
  apply faultsIn_bind _ _ _ (periodSample_faults _ b.lastSample (by omega) hfits)
  intro s _
  exact faultsIn_pure _ _

/-- Once a sample had a price the next ones have it too. -/
def Present (acc : Option Price) (s : Sample) : Prop :=
  ∀ p, acc = some p → Fits p ∧ s.price.isSome

theorem discounted_present (d : ℕ) (acc acc' : Option Price) (s : Sample)
    (hs : ∀ p, s.price = some p → Fits p)
    (h : (discounted d acc s.price : Outcome ε _) = .ok acc') : Present acc' s := by
  intro p hp
  subst hp
  rcases discounted_cases d acc s.price p h with
    ⟨-, hsp⟩ | ⟨last, sample, recent, previous, -, hsp, hr, hprev, hadd⟩
  · exact ⟨hs p hsp, by simp [hsp]⟩
  · have hfits := (add_ok recent previous p (lossyMul_ok _ _ _ hr).1.amount_pos
      (lossyMul_ok _ _ _ hprev).1.amount_pos hadd).1
    exact ⟨hfits, by simp [hsp]⟩

theorem reduce_faults (order : VisitOrder Addr) (valid : List (Observation Addr)) (lo hi : ℚ)
    (d n : ℕ) (b : SampleBuilder Addr) (acc : Option Price) (hd : d ≤ hundred)
    (hv : ∀ o ∈ valid, Between lo hi o.price) (hw : countUniqueFeeders valid < 2 ^ amountBits)
    (hb : Within valid lo hi b) (ha : Present acc b.lastSample)
    (ht : b.sampleStart + n * b.sampleSpan < 2 ^ timeBits) :
    FaultsIn Guard (reduceSamples order d n b acc : Outcome ε _) := by
  induction n generalizing b acc with
  | zero => exact faultsIn_pure _ _
  | succ n ih =>
    apply faultsIn_bind _ _ _ (next_faults order valid lo hi n b hb hw ht)
    rintro ⟨s, b'⟩ hnext
    obtain ⟨hb', hs, hlast, hkeep, hstart, hspan⟩ := next_within order valid lo hi b b' s hv hb hnext
    have hsf : ∀ p, s.price = some p → Fits p := fun p hp => (hs p hp).1.toFits
    have has : Present acc s := fun p hp => ⟨(ha p hp).1, hkeep (ha p hp).2⟩
    apply faultsIn_bind _ _ _ (discounted_faults d acc s hd has hsf)
    intro acc' hacc'
    apply ih b' acc' hb'
    · rw [hlast]
      exact discounted_present d acc acc' s hsf hacc'
    · rw [hstart, hspan]
      have : (n + 1) * b.sampleSpan = b.sampleSpan + n * b.sampleSpan := by ring
      omega

end Nolus.FeedAverage
