import NolusMoneyMarket.Lease.Steady

/-! # Fresh alarms

The alarms of a position against the price they were computed from. The zone
comes from the floored loan-to-value of the due at that price, the bounds from
the floored portions of the asset at the limits of the zone. A loan-to-value
below the maximum puts the due between both portions, hence the price between
both bounds; the portions themselves are the only points where the floors
disagree. -/

set_option autoImplicit false

namespace Nolus.LeaseFresh
open Nolus.Fallible Nolus.Fraction Nolus.Prices Nolus.Ranges
open Nolus.LeaseLiability Nolus.LeaseLoan Nolus.LeasePosition Nolus.LeaseSteady

variable {ε : Type}

def Spec.steadyLtv (spec : Spec) (zone : Zone) : Ascending ℕ := spec.close.noClose zone.range

/-- At the price the due is worth, with no rounding, the portion of the asset at the lower limit. -/
def ExactlyAtLower (spec : Spec) (zone : Zone) (asset totalDue : ℕ) (price : Price) : Prop :=
  ∃ limit ∈ (Spec.steadyLtv spec zone).start,
    totalDue * price.amount = portion asset limit * price.amountQuote

/-- At the price the due is worth, rounded down, the portion of the asset at the upper limit. -/
def AtUpper (spec : Spec) (zone : Zone) (asset totalDue : ℕ) (price : Price) : Prop :=
  assetsDue totalDue price = portion asset (Spec.steadyLtv spec zone).finish

instance (spec : Spec) (zone : Zone) (asset totalDue : ℕ) (price : Price) :
    Decidable (AtUpper spec zone asset totalDue price) := Nat.decEq _ _

theorem zone_low_le (self : Liability) (v : ℕ) :
    ∀ limit ∈ (self.zoneOf v).range.start, limit ≤ v := by
  obtain ⟨-, -, -, h1, h2, h3, -⟩ := held_limits self
  intro limit hlimit
  unfold Liability.zoneOf at hlimit
  split_ifs at hlimit with h4 h5 h6
  · cases hlimit
  all_goals
    have hle := cutTo_start_le _ _ _ hlimit
    simp only [Ascending.upTo, Zone.first, Zone.second, Zone.third, Level.ltv, Option.getD_none,
      max_self] at hle
    omega

theorem zone_high_gt (self : Liability) (v : ℕ) (h : v < self.max) :
    v < (self.zoneOf v).range.finish := by
  rw [zone_finish]
  unfold Liability.zoneOf
  split_ifs with h4 h5 h6
  · exact h4
  · exact h5
  · exact h6
  · exact h

theorem portion_le_due (asset d limit v : ℕ) (h : (ltv d asset : Outcome ε ℕ) = .ok v)
    (hle : limit ≤ v) : portion asset limit ≤ d := by
  rcases Nat.eq_zero_or_pos asset with h0 | hpos
  · rw [h0]
    simp [portion, Ratio.part]
  · simp only [ltv, percentFromRatio, percentSafeMul, bind_ok] at h
    obtain ⟨res, hres, h⟩ := h
    split_ifs at h
    · rw [pure_ok] at h
      have hv := safeMul_ok _ _ _ ⟨d, asset⟩ hpos hres
      rw [h] at hv
      rw [hv, Ratio.part, Nat.le_div_iff_mul_le hpos] at hle
      apply Nat.div_le_of_le_mul
      change asset * limit ≤ hundred * d
      rw [Nat.mul_comm]
      exact hle
    · simp at h

/-- A limit above the floored loan-to-value has a portion not below the due. -/
theorem due_le_portion (asset d limit v : ℕ) (h : (ltv d asset : Outcome ε ℕ) = .ok v)
    (hlt : v < limit) : d ≤ portion asset limit := by
  simp only [ltv, percentFromRatio, percentSafeMul, bind_ok] at h
  obtain ⟨res, hres, h⟩ := h
  split_ifs at h
  · rw [pure_ok] at h
    subst h
    rcases Nat.eq_zero_or_pos d with h0 | hd
    · rw [h0]
      exact Nat.zero_le _
    · have hpos := safeMul_total_pos _ _ _ ⟨d, asset⟩ hd hres
      have hv := safeMul_ok _ _ _ ⟨d, asset⟩ hpos hres
      rw [hv, Ratio.part, Nat.div_lt_iff_lt_mul hpos] at hlt
      have hhundred : 0 < hundred := by decide
      rw [portion, Ratio.part, percent, Nat.le_div_iff_mul_le hhundred, Nat.mul_comm d]
      rw [Nat.mul_comm limit] at hlt
      exact hlt.le
  · simp at h

theorem noClose_start_portion (policy : Policy) (during : Ascending ℕ) (asset d : ℕ)
    (hstart : ∀ s ∈ during.start, portion asset s ≤ d)
    (htp : ∀ tp ∈ policy.takeProfit, portion asset tp ≤ d) :
    ∀ limit ∈ (policy.noClose during).start, portion asset limit ≤ d := by
  rcases policy with ⟨_ | tp, _ | sl⟩
  · exact hstart
  · exact hstart
  · exact cutTo_start_image _ _ _ (portion_mono asset) _ hstart (htp tp rfl)
  · exact cutTo_start_image _ _ _ (portion_mono asset) _ hstart (htp tp rfl)

theorem noClose_finish_portion (policy : Policy) (during : Ascending ℕ) (asset d : ℕ)
    (hfinish : d ≤ portion asset during.finish)
    (hsl : ∀ sl ∈ policy.stopLoss, d < portion asset sl) :
    d ≤ portion asset (policy.noClose during).finish := by
  rcases policy with ⟨_ | tp, _ | sl⟩
  · exact hfinish
  · exact cutFrom_finish_image _ _ _ (portion_mono asset) _ hfinish (hsl sl rfl).le
  · exact hfinish
  · exact cutFrom_finish_image _ _ _ (portion_mono asset) _ hfinish (hsl sl rfl).le

theorem price_le_bound (asset totalDue limit : ℕ) (bound p : Price) (hp : Proper p)
    (hb : (steadyPrice asset totalDue limit : Outcome ε Price) = .ok bound)
    (h : portion asset limit ≤ assetsDue totalDue p) :
    p ≤ bound ∧ (bound ≤ p → totalDue * p.amount = portion asset limit * p.amountQuote) := by
  obtain ⟨g, hg, ha, hd⟩ := steadyPrice_ok asset totalDue limit bound hb
  rw [assetsDue, Ratio.part, Nat.le_div_iff_mul_le hp.2, ← ha, ← hd] at h
  have hle : p.amountQuote * bound.amount ≤ p.amount * bound.amountQuote := by
    apply Nat.le_of_mul_le_mul_right (c := g) _ hg
    linarith
  constructor
  · exact hle
  · intro hge
    rw [le_def] at hge
    have heq : bound.amountQuote * p.amount = bound.amount * p.amountQuote := by
      linarith
    rw [← ha, ← hd]
    linear_combination g * heq

theorem bound_lt_price (asset totalDue limit : ℕ) (bound p : Price) (hp : Proper p)
    (hb : (steadyPrice asset totalDue limit : Outcome ε Price) = .ok bound)
    (h : assetsDue totalDue p < portion asset limit) : bound < p := by
  by_contra hnot
  obtain ⟨g, hg, ha, hd⟩ := steadyPrice_ok asset totalDue limit bound hb
  rw [assetsDue, Ratio.part, Nat.div_lt_iff_lt_mul hp.2, ← ha, ← hd] at h
  rw [lt_def] at hnot
  have hmul := Nat.mul_le_mul_right g (Nat.le_of_not_lt hnot)
  linarith

theorem checkClose_untriggered (spec : Spec) (asset totalDue dueAssets : ℕ) (due : Due ε)
    (p : Price) (hdue : due.totalDue = .ok totalDue)
    (hassets : (toAssets totalDue p : Outcome ε ℕ) = .ok dueAssets)
    (hclose : spec.checkClose asset due p = .ok none) :
    (spec.close.mayTrigger asset dueAssets : Outcome ε _) = .ok none := by
  simp only [Spec.checkClose, bind_ok, hdue, Except.ok.injEq] at hclose
  obtain ⟨_, rfl, _, hagain, hnone⟩ := hclose
  rw [hassets, Except.ok.injEq] at hagain
  rwa [← hagain] at hnone

theorem not_fired (steadiness : Steadiness) (when_ : ℕ) (alarms : Alarms) (p : Price)
    (halarms : (steadiness.tryIntoAlarms when_ : Outcome ε Alarms) = .ok alarms)
    (hfinish : steadiness.within.finish < p) (hstart : ∀ bound ∈ steadiness.within.start, p < bound) :
    ¬ PriceAlarm.FiredAt alarms.price p := by
  intro hfired
  simp only [Steadiness.tryIntoAlarms, bind_ok, pure_ok] at halarms
  obtain ⟨_, -, rfl⟩ := halarms
  rcases hfired with hbelow | ⟨bound, hbound, hge⟩
  · rw [lt_def] at hbelow hfinish
    linarith
  · have hgt := hstart bound hbound
    rw [lt_def] at hgt
    rw [le_def] at hge
    linarith

/-- Freshly computed alarms against the price they were computed from. The close policy is not
triggered there, as the computation of a debt demands. The price is never above the upper bound
and is on it only when the due is worth exactly the portion at the lower limit. With a
loan-to-value below the maximum, it is above the lower bound unless the due is at the upper
limit. Off these limits none of the alarms is due. -/
theorem fresh_alarms_inactive (spec : Spec) (asset : ℕ) (due : Due ε) (p : Price) (zone : Zone)
    (steadiness : Steadiness) (when_ : ℕ) (alarms : Alarms) (hp : Proper p)
    (hclose : spec.checkClose asset due p = .ok none)
    (hdebt : spec.debt asset due p = .ok (.ok zone steadiness))
    (halarms : (steadiness.tryIntoAlarms when_ : Outcome ε Alarms) = .ok alarms) :
    ∃ totalDue positionLtv, due.totalDue = .ok totalDue ∧
      (ltv (assetsDue totalDue p) asset : Outcome ε ℕ) = .ok positionLtv ∧
      (∀ bound ∈ steadiness.within.start, p ≤ bound) ∧
      (¬ ExactlyAtLower spec zone asset totalDue p → ∀ bound ∈ steadiness.within.start, p < bound) ∧
      (positionLtv < spec.liability.max → ¬ AtUpper spec zone asset totalDue p →
        steadiness.within.finish < p) ∧
      (positionLtv < spec.liability.max → ¬ AtUpper spec zone asset totalDue p →
        ¬ ExactlyAtLower spec zone asset totalDue p → ¬ PriceAlarm.FiredAt alarms.price p) := by
  obtain ⟨totalDue, dueAssets, positionLtv, _, hdue, -, hassets, hltv, -, hzone, hinv, -⟩ :=
    debt_ok _ _ _ _ _ _ hdebt
  have hd : dueAssets = assetsDue totalDue p := of_ok ⟨totalDue, _⟩ _ _ hp.2 hassets
  subst hd
  obtain ⟨hsl, htp⟩ := triggered_none _ _ _
    (checkClose_untriggered spec asset totalDue _ due p hdue hassets hclose)
  obtain ⟨hfinish, hstart⟩ := invert_inv _ _ _ hinv
  have hlower : ∀ limit ∈ (spec.close.noClose zone.range).start,
      portion asset limit ≤ assetsDue totalDue p := by
    apply noClose_start_portion _ _ _ _ _ htp
    intro limit hlimit
    rw [hzone] at hlimit
    exact portion_le_due _ _ _ _ hltv ((zone_low_le _ _ _ hlimit).trans (min_le_left _ _))
  have hle : ∀ bound ∈ steadiness.within.start, p ≤ bound := by
    intro bound hbound
    obtain ⟨limit, hlimit, hb⟩ := hstart bound hbound
    exact (price_le_bound _ _ _ _ _ hp hb (hlower limit hlimit)).1
  have hlt : ¬ ExactlyAtLower spec zone asset totalDue p →
      ∀ bound ∈ steadiness.within.start, p < bound := by
    intro hoff bound hbound
    obtain ⟨limit, hlimit, hb⟩ := hstart bound hbound
    have hmeet := (price_le_bound _ _ _ _ _ hp hb (hlower limit hlimit)).2
    rw [lt_def]
    by_contra hnot
    apply hoff
    exact ⟨limit, hlimit, hmeet ((le_def _ _).2 (by linarith))⟩
  have habove : positionLtv < spec.liability.max → ¬ AtUpper spec zone asset totalDue p →
      steadiness.within.finish < p := by
    intro hmax hoff
    have hcapped : min positionLtv (spec.liability.max - 1) = positionLtv := by omega
    have hhigh : positionLtv < zone.range.finish := by
      rw [hzone, hcapped]
      exact zone_high_gt _ _ hmax
    have hupper := noClose_finish_portion spec.close zone.range asset _
      (due_le_portion _ _ _ _ hltv hhigh) hsl
    exact bound_lt_price _ _ _ _ _ hp hfinish (lt_of_le_of_ne hupper hoff)
  refine ⟨totalDue, positionLtv, hdue, hltv, hle, hlt, habove, ?_⟩
  intro hmax hupper hoff
  exact not_fired steadiness when_ alarms p halarms (habove hmax hupper) (hlt hoff)

def principalOnly (principal : ℕ) : Due ε :=
  State.due ⟨100, 40, principal, 0, 0, .startIn Interest.year⟩

set_option maxRecDepth 4000 in
theorem fresh_alarms_inactive_sample :
    ¬ PriceAlarm.FiredAt ⟨⟨6, 5⟩, some ⟨5, 6⟩⟩ ⟨1, 1⟩ := by
  have hclose : sampleSpec.checkClose 1000 (principalOnly 600 : Due Empty) ⟨1, 1⟩ = .ok none := by
    rfl
  have hdebt : (sampleSpec.debt 1000 (principalOnly 600) ⟨1, 1⟩ : Outcome Empty Debt) =
      .ok (.ok (.noWarnings 730) ⟨Interest.hour, ⟨some ⟨5, 6⟩, ⟨6, 5⟩⟩⟩) := by rfl
  obtain ⟨totalDue, positionLtv, hdue, hltv, -, -, -, hnot⟩ := fresh_alarms_inactive sampleSpec
    1000 _ ⟨1, 1⟩ _ _ 0 ⟨Interest.hour, ⟨⟨6, 5⟩, some ⟨5, 6⟩⟩⟩ ⟨by decide, by decide⟩ hclose hdebt rfl
  cases hdue
  cases hltv
  apply hnot
  · decide
  · decide
  · rintro ⟨limit, hlimit, hexact⟩
    cases hlimit
    revert hexact
    decide

def coarseSpec : Spec where
  liability := sampleSpec.liability
  close := ⟨none, none⟩
  minAsset := 100
  minTransaction := 100
  minAsset_pos := sampleSpec.minAsset_pos
  minTransaction_pos := sampleSpec.minAsset_pos
  close_accepted := no_close_accepted

def Inactive (within : Descending Price) (price : Price) : Prop :=
  ¬ price < within.finish ∧ ∀ bound ∈ within.start, price < bound

set_option maxRecDepth 4000 in
/-- A liquidation too small to happen leaves the alarm below active, a due exactly at the start of
a zone the alarm above, and a triggered stop loss the alarm below. -/
theorem fresh_alarms_active :
    (coarseSpec.checkClose 100 (principalOnly 85) ⟨1, 1⟩ = (.ok none : Outcome Empty _) ∧
      coarseSpec.debt 100 (principalOnly 85) ⟨1, 1⟩ = (.ok (.ok (.third 780 800)
        ⟨Interest.hour, ⟨some ⟨78, 85⟩, ⟨16, 17⟩⟩⟩) : Outcome Empty _) ∧
      ¬ Inactive ⟨some ⟨78, 85⟩, ⟨16, 17⟩⟩ ⟨1, 1⟩) ∧
    (coarseSpec.checkClose 1000 (principalOnly 730) ⟨1, 1⟩ = (.ok none : Outcome Empty _) ∧
      coarseSpec.debt 1000 (principalOnly 730) ⟨1, 1⟩ = (.ok (.ok (.first 730 750)
        ⟨Interest.hour, ⟨some ⟨1, 1⟩, ⟨75, 73⟩⟩⟩) : Outcome Empty _) ∧
      ¬ Inactive ⟨some ⟨1, 1⟩, ⟨75, 73⟩⟩ ⟨1, 1⟩) ∧
    (sampleSpec.debt 1000 (principalOnly 725) ⟨1, 1⟩ = (.ok (.ok (.noWarnings 730)
        ⟨Interest.hour, ⟨some ⟨20, 29⟩, ⟨144, 145⟩⟩⟩) : Outcome Empty _) ∧
      ¬ Inactive ⟨some ⟨20, 29⟩, ⟨144, 145⟩⟩ ⟨1, 1⟩) := by
  refine ⟨⟨rfl, rfl, ?_⟩, ⟨rfl, rfl, ?_⟩, rfl, ?_⟩
  · intro h
    exact h.1 (by decide)
  · intro h
    exact absurd (h.2 _ rfl) (by decide)
  · intro h
    exact h.1 (by decide)

end Nolus.LeaseFresh
