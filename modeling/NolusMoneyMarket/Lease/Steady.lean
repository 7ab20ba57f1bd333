import NolusMoneyMarket.Lease.Position

/-! # Steady positions

The steady range of prices of a position is computed backwards, from
loan-to-value limits to portions of the asset and to prices, the checks go
forwards, from prices to the due in assets. Both floor. A price strictly
within the range keeps the due in assets within the portions of the asset the
range was made of, hence no check says anything new there. -/

set_option autoImplicit false

namespace Nolus.LeaseSteady
open Nolus.Fallible Nolus.Fraction Nolus.Prices Nolus.Ranges
open Nolus.LeaseLiability Nolus.LeaseLoan Nolus.LeasePosition

variable {ε : Type}

def portion (asset ltv : ℕ) : ℕ := (percent ltv).part asset

def assetsDue (totalDue : ℕ) (price : Price) : ℕ :=
  Ratio.part ⟨totalDue, price.amountQuote⟩ price.amount

def Proper (price : Price) : Prop := 0 < price.amount ∧ 0 < price.amountQuote

theorem portion_mono (asset : ℕ) : Monotone (portion asset) := by
  intro l h hle
  exact Nat.div_le_div_right (Nat.mul_le_mul_left asset hle)

theorem portion_le (asset ltv : ℕ) (h : ltv ≤ hundred) : portion asset ltv ≤ asset :=
  part_le _ _ h

theorem portion_of (asset ltv : ℕ) (ha : asset < 2 ^ amountBits) (h : ltv ≤ hundred) :
    ((percent ltv).of asset : Outcome ε ℕ) = .ok (portion asset ltv) :=
  safeMul_fits _ _ _ (percent_total_pos _) (lt_of_le_of_lt (portion_le asset ltv h) ha)

theorem toAssets_fits (totalDue : ℕ) (price : Price) (hp : Proper price)
    (h : assetsDue totalDue price < 2 ^ amountBits) :
    (toAssets totalDue price : Outcome ε ℕ) = .ok (assetsDue totalDue price) :=
  safeMul_fits _ _ _ hp.2 h

theorem assetsDue_zero (price : Price) : assetsDue 0 price = 0 := part_zero _ _

theorem total_zero (price : Price) (hp : Proper price) :
    (total 0 price : Outcome ε ℕ) = .ok 0 := by
  have hpart : Ratio.part ⟨0, price.amount⟩ price.amountQuote = 0 := part_zero _ _
  have hfits := @safeMul_fits ε amountBits price.amountQuote ⟨0, price.amount⟩ hp.1
  rw [hpart] at hfits
  exact hfits (by decide)

theorem steadyPrice_ok (asset totalDue limit : ℕ) (bound : Price)
    (h : (steadyPrice asset totalDue limit : Outcome ε Price) = .ok bound) :
    ∃ g, 0 < g ∧ bound.amount * g = portion asset limit ∧ bound.amountQuote * g = totalDue := by
  simp only [steadyPrice, bind_ok] at h
  obtain ⟨amount, hof, hnew⟩ := h
  have hamount := of_ok _ _ _ (percent_total_pos _) hof
  subst hamount
  exact ⟨_, new_ok _ _ _ hnew⟩

theorem due_below (asset totalDue limit : ℕ) (bound q : Price) (hq : Proper q)
    (hb : (steadyPrice asset totalDue limit : Outcome ε Price) = .ok bound) (h : bound < q) :
    assetsDue totalDue q < portion asset limit := by
  obtain ⟨g, hg, ha, hd⟩ := steadyPrice_ok asset totalDue limit bound hb
  rw [lt_def] at h
  have hmul := Nat.mul_lt_mul_of_pos_right h hg
  rw [assetsDue, Ratio.part, Nat.div_lt_iff_lt_mul hq.2, ← ha, ← hd]
  calc q.amount * (bound.amountQuote * g) = bound.amountQuote * q.amount * g := by ring
    _ < bound.amount * q.amountQuote * g := hmul
    _ = bound.amount * g * q.amountQuote := by ring

theorem due_above (asset totalDue limit : ℕ) (bound q : Price) (hq : Proper q)
    (hb : (steadyPrice asset totalDue limit : Outcome ε Price) = .ok bound) (h : q < bound) :
    portion asset limit ≤ assetsDue totalDue q := by
  obtain ⟨g, hg, ha, hd⟩ := steadyPrice_ok asset totalDue limit bound hb
  rw [lt_def] at h
  have hmul := Nat.mul_lt_mul_of_pos_right h hg
  rw [assetsDue, Ratio.part, Nat.le_div_iff_mul_le hq.2, ← ha, ← hd]
  calc bound.amount * g * q.amountQuote = q.amountQuote * bound.amount * g := by ring
    _ ≤ q.amount * bound.amountQuote * g := hmul.le
    _ = q.amount * (bound.amountQuote * g) := by ring

def Within (range : Descending Price) (q : Price) : Prop :=
  range.finish < q ∧ ∀ bound ∈ range.start, q < bound

theorem within_contains (asset totalDue : ℕ) (range : Ascending ℕ) (inverted : Descending Price)
    (q : Price) (hq : Proper q)
    (h : (range.invert (steadyPrice asset totalDue) : Outcome ε _) = .ok inverted)
    (hw : Within inverted q) :
    (range.map (portion asset) (portion_mono asset)).Contains (assetsDue totalDue q) := by
  obtain ⟨hfinish, hstart⟩ := invert_ok _ _ _ h
  constructor
  · intro v hv
    obtain ⟨s, hs, rfl⟩ := Option.mem_map.1 hv
    obtain ⟨b, hb, hsb⟩ := hstart s hs
    exact due_above asset totalDue s b q hq hsb (hw.2 b hb)
  · exact due_below asset totalDue _ _ q hq hfinish hw.1

theorem noClose_contains (policy : Policy) (during : Ascending ℕ) (asset d : ℕ)
    (h : ((policy.noClose during).map (portion asset) (portion_mono asset)).Contains d) :
    (during.map (portion asset) (portion_mono asset)).Contains d ∧
      (∀ sl ∈ policy.stopLoss, d < portion asset sl) ∧
      ∀ tp ∈ policy.takeProfit, portion asset tp ≤ d := by
  rcases policy with ⟨_ | tp, _ | sl⟩
  · exact ⟨h, by simp, by simp⟩
  · obtain ⟨h1, h2⟩ := map_cutFrom _ _ _ _ _ h
    exact ⟨h1, by simpa using h2, by simp⟩
  · obtain ⟨h1, h2⟩ := map_cutTo _ _ _ _ _ h
    exact ⟨h1, by simp, by simpa using h2⟩
  · obtain ⟨h1, h2⟩ := map_cutFrom _ _ _ _ _ h
    obtain ⟨h3, h4⟩ := map_cutTo _ _ _ _ _ h1
    exact ⟨h3, by simpa using h2, by simpa using h4⟩

def strategyOf (policy : Policy) (asset d : ℕ) : Option Strategy :=
  ((policy.stopLoss.filter fun sl => portion asset sl ≤ d).map .stopLoss).or
    ((policy.takeProfit.filter fun tp => d < portion asset tp).map .takeProfit)

theorem strategyOf_none (policy : Policy) (asset d : ℕ) :
    strategyOf policy asset d = none ↔ (∀ sl ∈ policy.stopLoss, d < portion asset sl) ∧
      ∀ tp ∈ policy.takeProfit, portion asset tp ≤ d := by
  simp [strategyOf, Option.filter_eq_none_iff]

theorem portion_evaluates (asset limit : ℕ) :
    Evaluates ((percent limit).of asset : Outcome ε ℕ) (portion asset limit) :=
  safeMul_evaluates _ _ _ (percent_total_pos limit)

theorem mayStopLoss_evaluates (policy : Policy) (asset d : ℕ) :
    Evaluates (policy.mayStopLoss asset d : Outcome ε _)
      ((policy.stopLoss.filter fun sl => portion asset sl ≤ d).map .stopLoss) := by
  unfold Policy.mayStopLoss
  rcases policy.stopLoss with _ | sl
  · exact evaluates_pure _
  · apply evaluates_bind _ _ _ _ (portion_evaluates asset sl)
    apply evaluates_pure_eq
    by_cases h : portion asset sl ≤ d <;> simp [Option.filter, h]

theorem mayTakeProfit_evaluates (policy : Policy) (asset d : ℕ) :
    Evaluates (policy.mayTakeProfit asset d : Outcome ε _)
      ((policy.takeProfit.filter fun tp => d < portion asset tp).map .takeProfit) := by
  unfold Policy.mayTakeProfit
  rcases policy.takeProfit with _ | tp
  · exact evaluates_pure _
  · apply evaluates_bind _ _ _ _ (portion_evaluates asset tp)
    apply evaluates_pure_eq
    by_cases h : d < portion asset tp <;> simp [Option.filter, h]

theorem mayTrigger_evaluates (policy : Policy) (asset d : ℕ) :
    Evaluates (policy.mayTrigger asset d : Outcome ε _) (strategyOf policy asset d) := by
  apply evaluates_bind _ _ _ _ (mayStopLoss_evaluates policy asset d)
  rw [strategyOf]
  split
  · next he =>
    rw [he, Option.some_or]
    exact evaluates_pure _
  · next he =>
    rw [he, Option.none_or]
    exact mayTakeProfit_evaluates policy asset d

theorem triggered_none (policy : Policy) (asset d : ℕ)
    (h : (policy.mayTrigger asset d : Outcome ε _) = .ok none) :
    (∀ sl ∈ policy.stopLoss, d < portion asset sl) ∧
      ∀ tp ∈ policy.takeProfit, portion asset tp ≤ d :=
  (strategyOf_none policy asset d).1
    (evaluates_ok _ _ _ (mayTrigger_evaluates policy asset d) h).symm

/-- With portions that are amounts the check of a policy does not fail. -/
theorem mayTrigger_strategyOf (policy : Policy) (asset d : ℕ)
    (hsl : ∀ sl ∈ policy.stopLoss, portion asset sl < 2 ^ amountBits)
    (htp : ∀ tp ∈ policy.takeProfit, portion asset tp < 2 ^ amountBits) :
    (policy.mayTrigger asset d : Outcome ε _) = .ok (strategyOf policy asset d) := by
  have hof : ∀ limit, portion asset limit < 2 ^ amountBits →
      ((percent limit).of asset : Outcome ε ℕ) = .ok (portion asset limit) :=
    fun limit => safeMul_fits _ _ _ (percent_total_pos limit)
  have hstop : ∃ strategy, (policy.mayStopLoss asset d : Outcome ε _) = .ok strategy := by
    unfold Policy.mayStopLoss
    split
    · exact ⟨none, rfl⟩
    · next sl he => simp [hof sl (hsl sl he)]
  have htake : ∃ strategy, (policy.mayTakeProfit asset d : Outcome ε _) = .ok strategy := by
    unfold Policy.mayTakeProfit
    split
    · exact ⟨none, rfl⟩
    · next tp he => simp [hof tp (htp tp he)]
  have hfits : ∃ strategy, (policy.mayTrigger asset d : Outcome ε _) = .ok strategy := by
    obtain ⟨stop, hstop⟩ := hstop
    cases stop with
    | none =>
      obtain ⟨take, htake⟩ := htake
      exact ⟨take, (bind_ok _ _ _).2 ⟨none, hstop, htake⟩⟩
    | some strategy => exact ⟨some strategy, (bind_ok _ _ _).2 ⟨_, hstop, rfl⟩⟩
  obtain ⟨strategy, h⟩ := hfits
  rw [h, evaluates_ok _ _ _ (mayTrigger_evaluates policy asset d) h]

theorem accepted_strategyOf (spec : Spec) (asset d : ℕ) (ha : asset < 2 ^ amountBits) :
    (spec.close.mayTrigger asset d : Outcome ε _) = .ok (strategyOf spec.close asset d) := by
  obtain ⟨-, -, -, -, -, -, hmax, -⟩ := held_limits spec.liability
  obtain ⟨-, htop, hstop⟩ := (liquidationCheck_ok _ _ _).1 spec.close_accepted
  apply mayTrigger_strategyOf
  · intro sl he
    have hlt := hstop sl he
    exact lt_of_le_of_lt (portion_le asset sl (by omega)) ha
  · intro tp he
    have hlt := htop tp he
    exact lt_of_le_of_lt (portion_le asset tp (by omega)) ha

theorem mayTrigger_fits (spec : Spec) (asset d : ℕ) (ha : asset < 2 ^ amountBits) :
    ∃ strategy, (spec.close.mayTrigger asset d : Outcome ε _) = .ok strategy :=
  ⟨_, accepted_strategyOf spec asset d ha⟩

theorem not_triggered (spec : Spec) (asset d : ℕ) (ha : asset < 2 ^ amountBits)
    (hsl : ∀ sl ∈ spec.close.stopLoss, d < portion asset sl)
    (htp : ∀ tp ∈ spec.close.takeProfit, portion asset tp ≤ d) :
    (spec.close.mayTrigger asset d : Outcome ε _) = .ok none := by
  rw [accepted_strategyOf spec asset d ha, (strategyOf_none spec.close asset d).2 ⟨hsl, htp⟩]

theorem nothing_asked (spec : Spec) (asset : ℕ) (cause : Cause) (q : Price) (hq : Proper q) :
    (spec.mayAskLiquidation asset cause 0 q : Outcome ε _) = .ok none := by
  have hno : (spec.validTransaction 0 q : Outcome PositionError Bool) = .ok false := by
    have hpos := spec.minTransaction_pos
    simp [Spec.validTransaction, total_zero q hq]
    omega
  have hcheck : spec.validateCloseAmount asset 0 q =
      failing (.positionCloseAmountTooSmall spec.minTransaction) := by
    rw [Spec.validateCloseAmount, hno]
    rfl
  rw [Spec.mayAskLiquidation, hcheck]
  rfl

theorem liability_not_asked (spec : Spec) (asset d limit : ℕ) (q : Price)
    (ha : asset < 2 ^ amountBits) (hq : Proper q) (hl : limit ≤ spec.liability.max)
    (hd : d < portion asset limit) :
    (spec.mayAskLiquidationLiability asset d q : Outcome ε _) = .ok none := by
  have hmax := lt_of_lt_of_le hd (portion_mono asset hl)
  rw [Spec.mayAskLiquidationLiability, bind_ok]
  exact ⟨0, nothing_to_liquidate _ _ _ ha hmax, nothing_asked _ _ _ _ hq⟩

theorem overdue_not_asked (spec : Spec) (asset : ℕ) (due : Due ε) (collection : OverdueCollection)
    (q : Price) (hq : Proper q) (hc : due.overdueCollection spec.minTransaction = .ok collection)
    (h0 : collection.amount = 0) :
    spec.mayAskLiquidationOverdue asset due q = .ok none := by
  have hassets : (toAssets 0 q : Outcome ε ℕ) = .ok 0 := by
    have hfits := @toAssets_fits ε 0 q hq
    rw [assetsDue_zero] at hfits
    exact hfits (by decide)
  simp only [Spec.mayAskLiquidationOverdue, bind_ok, hc, Except.ok.injEq]
  exact ⟨_, rfl, 0, by rw [h0]; exact hassets, nothing_asked _ _ _ _ hq⟩

theorem ltv_below (asset d limit : ℕ) (hl : limit ≤ hundred) (hd : d < portion asset limit) :
    ∃ v, (ltv d asset : Outcome ε ℕ) = .ok v ∧ v < limit := by
  have hmul : d * hundred + hundred ≤ asset * limit := by
    have h1 := (Nat.le_div_iff_mul_le (percent_total_pos limit)).1
      (Nat.succ_le_of_lt hd)
    rw [Nat.succ_mul] at h1
    exact h1
  have hpos : 0 < asset := by
    rcases Nat.eq_zero_or_pos asset with h0 | hpos
    · rw [h0] at hmul
      simp [hundred] at hmul
    · exact hpos
  have hlt : Ratio.part ⟨d, asset⟩ hundred < limit := by
    have hpos' : 0 < hundred := by decide
    rw [Ratio.part, Nat.div_lt_iff_lt_mul hpos, Nat.mul_comm hundred, Nat.mul_comm limit]
    change d * hundred < asset * limit
    omega
  have hbits : hundred < 2 ^ percentBits ∧ hundred < 2 ^ amountBits := by decide
  refine ⟨_, ?_, hlt⟩
  rw [ltv, percentFromRatio, percentSafeMul, bind_ok]
  refine ⟨_, safeMul_fits _ _ _ hpos (by omega), ?_⟩
  rw [if_pos (by omega)]
  rfl

theorem noClose_finish_le (policy : Policy) (during : Ascending ℕ) :
    (policy.noClose during).finish ≤ during.finish := by
  rcases policy with ⟨_ | tp, _ | sl⟩
  · exact le_refl _
  · exact cutFrom_finish_le _ _
  · exact le_refl _
  · exact cutFrom_finish_le _ _

theorem no_liquidation_fits (spec : Spec) (asset totalDue capped : ℕ) (due : Due ε)
    (collection : OverdueCollection) (ha : asset < 2 ^ amountBits)
    (hdue : due.totalDue = .ok totalDue) (hpos : 0 < totalDue)
    (hc : due.overdueCollection spec.minTransaction = .ok collection) :
    ∃ zone steadiness, spec.noLiquidation asset due capped = .ok (.ok zone steadiness) := by
  obtain ⟨-, -, -, -, -, -, hmax, -⟩ := held_limits spec.liability
  have hprice : ∀ limit ≤ (spec.close.noClose (spec.liability.zoneOf capped).range).finish,
      ∃ price, (steadyPrice asset totalDue limit : Outcome ε Price) = .ok price := by
    intro limit hlimit
    have hfinish := noClose_finish_le spec.close (spec.liability.zoneOf capped).range
    have hhigh := zone_high_le spec.liability capped
    rw [zone_finish] at hfinish
    obtain ⟨price, hnew⟩ := @new_fits ε (portion asset limit) totalDue hpos
    refine ⟨price, ?_⟩
    rw [steadyPrice, bind_ok]
    exact ⟨_, portion_of asset limit ha (by omega), hnew⟩
  obtain ⟨within, hwithin⟩ := invert_fits _ _ hprice
  refine ⟨spec.liability.zoneOf capped,
    ⟨min collection.startsIn spec.liability.recalcTime, within⟩, ?_⟩
  simp only [Spec.noLiquidation, bind_ok, hdue, hc, Except.ok.injEq]
  refine ⟨_, rfl, ?_⟩
  rw [if_neg (by omega)]
  simp only [bind_ok, hwithin, Except.ok.injEq]
  exact ⟨_, rfl, _, rfl, rfl⟩

/-- A position whose due is below a limit of its liability has no bad debt. -/
theorem debt_below (spec : Spec) (asset totalDue limit : ℕ) (due : Due ε)
    (collection : OverdueCollection) (q : Price) (ha : asset < 2 ^ amountBits) (hq : Proper q)
    (hdue : due.totalDue = .ok totalDue) (hpos : 0 < totalDue)
    (hc : due.overdueCollection spec.minTransaction = .ok collection)
    (h0 : collection.amount = 0) (hl : limit ≤ spec.liability.max)
    (hd : assetsDue totalDue q < portion asset limit) :
    ∃ zone steadiness, spec.debt asset due q = .ok (.ok zone steadiness) := by
  obtain ⟨-, -, -, -, -, -, hmax, -⟩ := held_limits spec.liability
  have hle := portion_le asset limit (by omega)
  have hassets := @toAssets_fits ε totalDue q hq (by omega)
  obtain ⟨v, hv, hlt⟩ := @ltv_below ε asset _ limit (by omega) hd
  have hcap : (spec.liability.capToZone v : Outcome ε ℕ) = .ok v :=
    (capToZone_ok _ _ _).2 (by omega)
  obtain ⟨zone, steadiness, hno⟩ :=
    no_liquidation_fits spec asset totalDue v due collection ha hdue hpos hc
  refine ⟨zone, steadiness, ?_⟩
  simp only [Spec.debt, bind_ok, hdue, Except.ok.injEq]
  refine ⟨_, rfl, _, hassets, none, liability_not_asked _ _ _ _ _ ha hq hl hd, none,
    overdue_not_asked _ _ _ _ _ hq hc h0, ?_⟩
  have hnone : later none none = none := by rfl
  rw [hnone]
  simp only [bind_ok, hv, Except.ok.injEq]
  refine ⟨_, rfl, _, hcap, assetsDue totalDue q, ?_, hno⟩
  rw [Spec.capDue, if_neg (lt_irrefl _)]
  rfl

/-- What a debt in a zone says about the position and the range it comes with. -/
theorem debt_ok (spec : Spec) (asset : ℕ) (due : Due ε) (p : Price) (zone : Zone)
    (steadiness : Steadiness) (h : spec.debt asset due p = .ok (.ok zone steadiness)) :
    ∃ totalDue dueAssets positionLtv collection, due.totalDue = .ok totalDue ∧ 0 < totalDue ∧
      (toAssets totalDue p : Outcome ε ℕ) = .ok dueAssets ∧
      (ltv dueAssets asset : Outcome ε ℕ) = .ok positionLtv ∧
      due.overdueCollection spec.minTransaction = .ok collection ∧
      zone = spec.liability.zoneOf (min positionLtv (spec.liability.max - 1)) ∧
      ((spec.close.noClose zone.range).invert (steadyPrice asset totalDue) : Outcome ε _) =
        .ok steadiness.within ∧
      steadiness.for_ ≤ spec.liability.recalcTime := by
  simp only [Spec.debt, bind_ok] at h
  obtain ⟨totalDue, hdue, dueAssets, hassets, liability, -, overdue, -, h⟩ := h
  split at h
  · simp at h
  · simp only [bind_ok, Spec.noLiquidation, hdue, Except.ok.injEq] at h
    obtain ⟨positionLtv, hltv, capped, hcap, _, -, _, rfl, h⟩ := h
    rw [capToZone_ok] at hcap
    split_ifs at h with h0
    · simp at h
    · simp only [bind_ok, pure_ok, Debt.ok.injEq] at h
      obtain ⟨collection, hc, within, hwithin, rfl, rfl⟩ := h
      exact ⟨_, _, _, collection, hdue, Nat.pos_of_ne_zero h0, hassets, hltv, hc,
        by rw [hcap], hwithin, min_le_right _ _⟩

/-- Nothing adverse at a price: no close strategy is triggered and the debt is not bad. -/
def Calm (spec : Spec) (asset : ℕ) (due : Due ε) (price : Price) : Prop :=
  spec.checkClose asset due price = .ok none ∧
    ∃ debt, spec.debt asset due price = .ok debt ∧ ∀ liquidation, debt ≠ .bad liquidation

def PriceAlarm.FiredAt (alarm : PriceAlarm) (price : Price) : Prop :=
  price < alarm.below ∨ ∃ bound ∈ alarm.aboveOrEqual, bound ≤ price

theorem calm_within (spec : Spec) (asset : ℕ) (due : Due ε) (p q : Price) (zone : Zone)
    (steadiness : Steadiness) (ha : asset < 2 ^ amountBits)
    (hc : ∀ collection, due.overdueCollection spec.minTransaction = .ok collection →
      collection.amount = 0)
    (hdebt : spec.debt asset due p = .ok (.ok zone steadiness))
    (hq : Proper q) (hw : Within steadiness.within q) : Calm spec asset due q := by
  obtain ⟨-, -, -, -, -, -, hmax, -⟩ := held_limits spec.liability
  obtain ⟨totalDue, _, _, collection, hdue, hpos, -, -, hcol, hzone, hinv, -⟩ :=
    debt_ok _ _ _ _ _ _ hdebt
  have hin := within_contains asset totalDue _ _ q hq hinv hw
  obtain ⟨hzoned, hsl, htp⟩ := noClose_contains _ _ _ _ hin
  have hhigh : assetsDue totalDue q < portion asset zone.high.ltv := by
    rw [← zone_finish]
    exact hzoned.2
  have hlimit : zone.high.ltv ≤ spec.liability.max := by
    rw [hzone]
    exact zone_high_le _ _
  have hle := portion_le asset zone.high.ltv (by omega)
  constructor
  · simp only [Spec.checkClose, bind_ok, hdue, Except.ok.injEq]
    exact ⟨_, rfl, _, toAssets_fits _ _ hq (by omega), not_triggered spec asset _ ha hsl htp⟩
  · obtain ⟨zone', steadiness', h⟩ := debt_below spec asset totalDue zone.high.ltv due collection
      q ha hq hdue hpos hcol (hc _ hcol) hlimit hhigh
    exact ⟨_, h, by simp⟩

/-- No adverse price move goes unnoticed: strictly within the steady range nothing adverse
comes up, hence it does so only where an alarm of the range is due or at its lower bound. -/
theorem no_adverse_move_unnoticed (spec : Spec) (asset : ℕ) (due : Due ε) (p : Price) (zone : Zone)
    (steadiness : Steadiness) (when_ : ℕ) (alarms : Alarms) (ha : asset < 2 ^ amountBits)
    (hc : ∀ collection, due.overdueCollection spec.minTransaction = .ok collection →
      collection.amount = 0)
    (hdebt : spec.debt asset due p = .ok (.ok zone steadiness))
    (halarms : (steadiness.tryIntoAlarms when_ : Outcome ε Alarms) = .ok alarms)
    (q : Price) (hq : Proper q) :
    (Within steadiness.within q → Calm spec asset due q) ∧
    (¬ Calm spec asset due q → PriceAlarm.FiredAt alarms.price q ∨
      (q ≤ steadiness.within.finish ∧ steadiness.within.finish ≤ q)) := by
  have hcalm := calm_within spec asset due p q zone steadiness ha hc hdebt hq
  refine ⟨hcalm, ?_⟩
  intro hnot
  simp only [Steadiness.tryIntoAlarms, bind_ok, pure_ok] at halarms
  obtain ⟨_, -, rfl⟩ := halarms
  by_cases hbelow : q < steadiness.within.finish
  · exact .inl (.inl hbelow)
  by_cases habove : ∃ bound ∈ steadiness.within.start, bound ≤ q
  · exact .inl (.inr habove)
  right
  by_contra hne
  apply hnot
  apply hcalm
  simp only [lt_def, le_def] at hbelow hne
  constructor
  · rw [lt_def]
    by_contra hle
    exact hne ⟨by linarith, by linarith⟩
  · intro bound hb
    rw [lt_def]
    by_contra hle
    exact habove ⟨bound, hb, by rw [le_def]; linarith⟩

def sampleSpec : Spec where
  liability := ⟨⟨650, 700, 730, 750, 780, 800, Interest.hour⟩, rfl⟩
  close := ⟨some 500, some 720⟩
  minAsset := 100
  minTransaction := 10
  minAsset_pos := by decide
  minTransaction_pos := by decide
  close_accepted := rfl

theorem no_close_accepted : (⟨none, none⟩ : Policy).liquidationCheck sampleSpec.liability.max =
    .ok ⟨none, none⟩ := rfl

def sampleDue : Due ε :=
  State.due ⟨100, 40, 590, 6, 4, .startIn Interest.year⟩

set_option maxRecDepth 4000 in
theorem no_adverse_move_unnoticed_sample :
    (sampleSpec.debt 1000 sampleDue ⟨1, 1⟩ : Outcome Empty Debt) =
      .ok (.ok (.noWarnings 730) ⟨Interest.hour, ⟨some ⟨5, 6⟩, ⟨6, 5⟩⟩⟩) ∧
    Calm sampleSpec 1000 (sampleDue : Due Empty) ⟨100, 101⟩ := by
  have hdebt : (sampleSpec.debt 1000 sampleDue ⟨1, 1⟩ : Outcome Empty Debt) =
      .ok (.ok (.noWarnings 730) ⟨Interest.hour, ⟨some ⟨5, 6⟩, ⟨6, 5⟩⟩⟩) := by rfl
  have hcollect : ∀ collection, (sampleDue : Due Empty).overdueCollection
      sampleSpec.minTransaction = .ok collection → collection.amount = 0 := by
    intro collection h
    have hin : (sampleDue : Due Empty).overdueCollection sampleSpec.minTransaction =
        .ok (.startIn Interest.year) := by rfl
    rw [hin] at h
    cases h
    rfl
  have hwithin : Within ⟨some ⟨5, 6⟩, ⟨6, 5⟩⟩ ⟨100, 101⟩ := by
    constructor
    · decide
    · intro bound hb
      cases hb
      decide
  exact ⟨hdebt, (no_adverse_move_unnoticed sampleSpec 1000 sampleDue ⟨1, 1⟩ _ _ 0 _ (by decide)
    hcollect hdebt rfl ⟨100, 101⟩ ⟨by decide, by decide⟩).1 hwithin⟩

end Nolus.LeaseSteady
