import NolusMoneyMarket.Finance.Liquidation
import NolusMoneyMarket.Lease.Asks
import NolusMoneyMarket.Lease.Overdue
import NolusMoneyMarket.Lease.Payment

/-! # What may be checked

With no liquidation asked for, the debt of a position is put in a zone by its
loan-to-value. That is a number of permille of 32-bit range, and above the
zones the due is capped just below the maximum of the asset. A price that has
collapsed leaves an asset worth less than the minimum transaction, which is
not liquidated, while its loan-to-value is out of range; so does an asset of a
few units, of which the maximum is none. Before any of that the overdue is
estimated, and that estimate may not fit either. -/

set_option autoImplicit false

namespace Nolus.LeaseCheckable
open Nolus.Fallible Nolus.Fraction Nolus.Prices
open Nolus.LeaseLiability Nolus.LeaseLiquidation Nolus.LeaseLoan Nolus.LeasePosition
open Nolus.LeaseSteady Nolus.LeaseAsks Nolus.LeaseOverdue

variable {ε : Type}

def worthOf (amount : ℕ) (price : Price) : ℕ :=
  Ratio.part ⟨amount, price.amount⟩ price.amountQuote

def toLiquidate (self : Liability) (asset dueAssets : ℕ) : ℕ :=
  if dueAssets < portion asset self.max then 0
  else if asset ≤ dueAssets then asset
  else excess self asset dueAssets

def Transacts (spec : Spec) (price : Price) (amount : ℕ) : Prop :=
  spec.minTransaction ≤ worthOf amount price

def Liquidates (spec : Spec) (asset dueAssets overdueAssets : ℕ) (price : Price) : Prop :=
  Transacts spec price (toLiquidate spec.liability asset dueAssets) ∨
    Transacts spec price overdueAssets

def loanToValue (dueAssets asset : ℕ) : ℕ := Ratio.part ⟨dueAssets, asset⟩ hundred

def InZones (spec : Spec) (asset dueAssets : ℕ) : Prop :=
  loanToValue dueAssets asset < 2 ^ percentBits ∧
    (loanToValue dueAssets asset < spec.liability.max ∨ 0 < portion asset spec.liability.max)

def Checkable (spec : Spec) (asset dueAssets overdueAssets : ℕ) (price : Price) : Prop :=
  Liquidates spec asset dueAssets overdueAssets price ∨ InZones spec asset dueAssets

instance (spec : Spec) (price : Price) (amount : ℕ) : Decidable (Transacts spec price amount) :=
  Nat.decLe _ _

instance (spec : Spec) (asset dueAssets overdueAssets : ℕ) (price : Price) :
    Decidable (Liquidates spec asset dueAssets overdueAssets price) := instDecidableOr

instance (spec : Spec) (asset dueAssets : ℕ) : Decidable (InZones spec asset dueAssets) :=
  instDecidableAnd

theorem worth_fits (amount : ℕ) (price : Price) (hp : Proper price)
    (h : worthOf amount price < 2 ^ amountBits) :
    (total amount price : Outcome ε ℕ) = .ok (worthOf amount price) :=
  safeMul_fits _ _ _ hp.1 h

theorem worth_mono (amount more : ℕ) (price : Price) (h : amount ≤ more) :
    worthOf amount price ≤ worthOf more price :=
  Nat.div_le_div_right (Nat.mul_le_mul_left _ h)

theorem worth_assetsDue (due : ℕ) (price : Price) : worthOf (assetsDue due price) price ≤ due := by
  have hassets : price.amountQuote * assetsDue due price ≤ price.amount * due := by
    rw [Nat.mul_comm]
    exact Nat.div_mul_le_self _ _
  exact Nat.div_le_of_le_mul hassets

theorem assetsDue_mono (due more : ℕ) (price : Price) (h : due ≤ more) :
    assetsDue due price ≤ assetsDue more price :=
  Nat.div_le_div_right (Nat.mul_le_mul_left _ h)

theorem toLiquidate_le_due (self : Liability) (asset dueAssets : ℕ) :
    toLiquidate self asset dueAssets ≤ dueAssets := by
  have hle := excess_le self asset dueAssets
  unfold toLiquidate
  split_ifs
  all_goals omega

theorem mayAsk_none_iff (spec : Spec) (asset amount : ℕ) (cause : Cause) (price : Price)
    (hp : Proper price) (hworth : worthOf amount price < 2 ^ amountBits) :
    (spec.mayAskLiquidation asset cause amount price : Outcome ε _) = .ok none ↔
      ¬ Transacts spec price amount := by
  have htotal := @worth_fits PositionError amount price hp hworth
  constructor
  · intro hask
    cases mayAskLiquidation_asked spec asset amount cause price none hp hask with
    | tooSmall worth hworth' hlt =>
      obtain rfl := Except.ok.inj (hworth'.symm.trans htotal)
      exact not_le.2 hlt
  · intro hsmall
    rw [Spec.mayAskLiquidation,
      validateCloseAmount_small spec asset amount _ price htotal (not_le.1 hsmall)]
    rfl

theorem mayAsk_fits (spec : Spec) (asset amount : ℕ) (cause : Cause) (price : Price)
    (hp : Proper price) (hworth : worthOf amount price < 2 ^ amountBits)
    (hrest : worthOf (asset - amount) price < 2 ^ amountBits) :
    ∃ ask, (spec.mayAskLiquidation asset cause amount price : Outcome ε _) = .ok ask := by
  have htotal := @worth_fits PositionError amount price hp hworth
  rcases Nat.lt_or_ge (worthOf amount price) spec.minTransaction with hlt | hge
  · exact ⟨none, (mayAsk_none_iff spec asset amount cause price hp hworth).2 (not_le.2 hlt)⟩
  · have hensure := validateCloseAmount_rest spec asset amount _ price htotal hge
    rw [worth_fits (asset - amount) price hp hrest] at hensure
    by_cases hasset : spec.minAsset ≤ worthOf (asset - amount) price
    · have hpart : spec.validateCloseAmount asset amount price = .ok () := by
        rw [hensure]
        exact (ensure_ok _ _ _).2 hasset
      refine ⟨some (.partial_ amount cause), ?_⟩
      rw [Spec.mayAskLiquidation, hpart]
      rfl
    · have hwhole : spec.validateCloseAmount asset amount price =
          .error (.error (.positionCloseAmountTooBig spec.minAsset)) := by
        rw [hensure]
        exact if_neg hasset
      refine ⟨some (.full cause), ?_⟩
      rw [Spec.mayAskLiquidation, hwhole]
      rfl

theorem ltv_returns (dueAssets asset v : ℕ) (ha : 0 < asset) :
    (ltv dueAssets asset : Outcome ε ℕ) = .ok v ↔
      loanToValue dueAssets asset < 2 ^ percentBits ∧ loanToValue dueAssets asset = v :=
  percentFromRatio_ok dueAssets asset v ha

theorem capDue_returns (spec : Spec) (asset dueAssets ltv : ℕ) (ha : asset < 2 ^ amountBits) :
    (∃ v, (spec.capDue asset dueAssets ltv (min ltv (spec.liability.max - 1)) : Outcome ε ℕ) =
      .ok v) ↔ ltv < spec.liability.max ∨ 0 < portion asset spec.liability.max := by
  obtain ⟨-, -, -, -, -, hmax, hhundred, -⟩ := held_limits spec.liability
  have hof := @portion_of ε asset _ ha hhundred
  unfold Spec.capDue
  split_ifs with hlt
  · simp only [bind_ok, hof, Except.ok.injEq, nativeSub_ok]
    constructor
    · rintro ⟨_, _, rfl, hpos, -⟩
      exact .inr hpos
    · rintro (hbelow | hpos)
      · omega
      · exact ⟨_, _, rfl, hpos, rfl⟩
  · have hbelow : ltv < spec.liability.max := by omega
    simp only [hbelow, true_or, iff_true]
    exact ⟨dueAssets, rfl⟩

/-! ## The debt of a position -/

structure DueConvertible (asset totalDue : ℕ) (price : Price) : Prop where
  proper : Proper price
  positive : 0 < asset
  asset_fits : asset < 2 ^ amountBits
  due_fits : totalDue < 2 ^ amountBits
  due_converts : assetsDue totalDue price < 2 ^ amountBits

structure Convertible (asset totalDue : ℕ) (price : Price) : Prop extends
    DueConvertible asset totalDue price where
  asset_converts : worthOf asset price < 2 ^ amountBits

/-- What a due answers. No more is collectable than is due. -/
structure Answers (due : Due ε) (minAmount totalDue : ℕ) (collected : OverdueCollection) :
    Prop where
  total : due.totalDue = .ok totalDue
  overdue : due.overdueCollection minAmount = .ok collected
  within : collected.amount ≤ totalDue

variable (spec : Spec) (asset totalDue : ℕ) (due : Due ε) (collected : OverdueCollection)
  (price : Price)

theorem liquidated_worth (hc : DueConvertible asset totalDue price) :
    worthOf (toLiquidate spec.liability asset (assetsDue totalDue price)) price <
      2 ^ amountBits := by
  have hdue := toLiquidate_le_due spec.liability asset (assetsDue totalDue price)
  have hworth := worth_mono _ _ price hdue
  exact lt_of_le_of_lt (hworth.trans (worth_assetsDue totalDue price)) hc.due_fits

theorem overdue_fits (hc : DueConvertible asset totalDue price)
    (hd : Answers due spec.minTransaction totalDue collected) :
    assetsDue collected.amount price < 2 ^ amountBits ∧
      worthOf (assetsDue collected.amount price) price < 2 ^ amountBits := by
  have hconverted := assetsDue_mono _ _ price hd.within
  have hworth := worth_assetsDue collected.amount price
  exact ⟨lt_of_le_of_lt hconverted hc.due_converts,
    lt_of_le_of_lt (hworth.trans hd.within) hc.due_fits⟩

theorem asks_none_iff (hc : DueConvertible asset totalDue price)
    (hd : Answers due spec.minTransaction totalDue collected) :
    ((spec.mayAskLiquidationLiability asset (assetsDue totalDue price) price : Outcome ε _) =
        .ok none ∧ spec.mayAskLiquidationOverdue asset due price = .ok none) ↔
      ¬ Liquidates spec asset (assetsDue totalDue price) (assetsDue collected.amount price)
        price := by
  obtain ⟨hconverts, hworth⟩ := overdue_fits spec asset totalDue due collected price hc hd
  have hassets := @toAssets_fits ε collected.amount price hc.proper hconverts
  have hamount := @amount_to_liquidate_part ε spec.liability asset (assetsDue totalDue price)
    hc.asset_fits
  have hliability := liquidated_worth spec asset totalDue price hc
  rw [Liquidates, not_or, ← mayAsk_none_iff (ε := ε) spec asset _
      (.liability spec.liability.max spec.liability.healthy) price hc.proper hliability,
    ← mayAsk_none_iff (ε := ε) spec asset _ .overdue price hc.proper hworth]
  simp only [Spec.mayAskLiquidationLiability, Spec.mayAskLiquidationOverdue, bind_ok, hamount,
    hd.overdue, hassets, Except.ok.injEq, exists_eq_left']
  rfl

theorem asks_fit (hc : Convertible asset totalDue price)
    (hd : Answers due spec.minTransaction totalDue collected) :
    ∃ liability overdue,
      (spec.mayAskLiquidationLiability asset (assetsDue totalDue price) price : Outcome ε _) =
        .ok liability ∧
      spec.mayAskLiquidationOverdue asset due price = .ok overdue := by
  have hrest : ∀ amount, worthOf (asset - amount) price < 2 ^ amountBits := fun amount =>
    lt_of_le_of_lt (worth_mono _ _ price (Nat.sub_le _ _)) hc.asset_converts
  obtain ⟨hconverts, hworth⟩ :=
    overdue_fits spec asset totalDue due collected price hc.toDueConvertible hd
  obtain ⟨liability, hliability⟩ := @mayAsk_fits ε spec asset
    (toLiquidate spec.liability asset (assetsDue totalDue price))
    (.liability spec.liability.max spec.liability.healthy) price hc.proper
    (liquidated_worth spec asset totalDue price hc.toDueConvertible) (hrest _)
  obtain ⟨overdue, hoverdue⟩ := @mayAsk_fits ε spec asset
    (assetsDue collected.amount price) .overdue price hc.proper hworth (hrest _)
  refine ⟨liability, overdue, ?_, ?_⟩
  · rw [Spec.mayAskLiquidationLiability, bind_ok]
    exact ⟨_, amount_to_liquidate_part _ _ _ hc.asset_fits, hliability⟩
  · simp only [Spec.mayAskLiquidationOverdue, bind_ok, hd.overdue, Except.ok.injEq]
    exact ⟨_, rfl, _, toAssets_fits _ _ hc.proper hconverts, hoverdue⟩

theorem debt_liquidates (hc : Convertible asset totalDue price)
    (hd : Answers due spec.minTransaction totalDue collected)
    (hl : Liquidates spec asset (assetsDue totalDue price) (assetsDue collected.amount price)
      price) : ∃ liquidation, spec.debt asset due price = .ok (.bad liquidation) := by
  obtain ⟨liability, overdue, hliability, hoverdue⟩ :=
    asks_fit spec asset totalDue due collected price hc hd
  cases hlater : later liability overdue with
  | none =>
    obtain ⟨rfl, rfl⟩ := later_none _ _ hlater
    exact absurd hl ((asks_none_iff spec asset totalDue due collected price hc.toDueConvertible
      hd).1 ⟨hliability, hoverdue⟩)
  | some liquidation =>
    use liquidation
    simp only [Spec.debt, bind_ok, hd.total, Except.ok.injEq]
    refine ⟨_, rfl, _, toAssets_fits _ _ hc.proper hc.due_converts, _, hliability, _, hoverdue, ?_⟩
    rw [hlater]
    rfl

theorem zoned_spared (hc : DueConvertible asset totalDue price)
    (hd : Answers due spec.minTransaction totalDue collected) (zone : Zone)
    (steadiness : Steadiness) (hdebt : spec.debt asset due price = .ok (.ok zone steadiness)) :
    ¬ Liquidates spec asset (assetsDue totalDue price) (assetsDue collected.amount price)
      price := by
  simp only [Spec.debt, bind_ok, hd.total, Except.ok.injEq,
    @toAssets_fits ε totalDue price hc.proper hc.due_converts, exists_eq_left'] at hdebt
  obtain ⟨liability, hliability, overdue, hoverdue, hdebt⟩ := hdebt
  cases hlater : later liability overdue with
  | some liquidation =>
    rw [hlater] at hdebt
    cases hdebt
  | none =>
    obtain ⟨rfl, rfl⟩ := later_none _ _ hlater
    exact (asks_none_iff spec asset totalDue due collected price hc hd).1 ⟨hliability, hoverdue⟩

/-- With no liquidation asked for, the debt comes from the loan-to-value. -/
theorem debt_spared (hc : DueConvertible asset totalDue price)
    (hd : Answers due spec.minTransaction totalDue collected)
    (hl : ¬ Liquidates spec asset (assetsDue totalDue price) (assetsDue collected.amount price)
      price) (debt : Debt) :
    spec.debt asset due price = .ok debt ↔
      InZones spec asset (assetsDue totalDue price) ∧
        spec.noLiquidation asset due (min (loanToValue (assetsDue totalDue price) asset)
          (spec.liability.max - 1)) = .ok debt := by
  obtain ⟨hliability, hoverdue⟩ :=
    (asks_none_iff spec asset totalDue due collected price hc hd).2 hl
  have hassets := @toAssets_fits ε totalDue price hc.proper hc.due_converts
  have hcap := @capDue_returns ε spec asset (assetsDue totalDue price)
    (loanToValue (assetsDue totalDue price) asset) hc.asset_fits
  have hlater : later none none = none := rfl
  simp only [Spec.debt, bind_ok, hd.total, Except.ok.injEq, hassets, hliability, hoverdue,
    exists_eq_left', hlater, ltv_returns _ _ _ hc.positive, capToZone_ok]
  constructor
  · rintro ⟨_, ⟨hfits, rfl⟩, _, rfl, capped, hcapped, hno⟩
    exact ⟨⟨hfits, hcap.1 ⟨capped, hcapped⟩⟩, hno⟩
  · rintro ⟨⟨hfits, hzones⟩, hno⟩
    obtain ⟨capped, hcapped⟩ := hcap.2 hzones
    exact ⟨_, ⟨hfits, rfl⟩, _, rfl, capped, hcapped, hno⟩

theorem noLiquidation_returns (capped : ℕ) (ha : asset < 2 ^ amountBits)
    (hd : Answers due spec.minTransaction totalDue collected) :
    ∃ debt, spec.noLiquidation asset due capped = .ok debt := by
  rcases Nat.eq_zero_or_pos totalDue with h0 | hpos
  · refine ⟨.no, (bind_ok _ _ _).2 ⟨totalDue, hd.total, ?_⟩⟩
    rw [if_pos h0]
    rfl
  · obtain ⟨zone, steadiness, hno⟩ :=
      no_liquidation_fits spec asset totalDue capped due collected ha hd.total hpos hd.overdue
    exact ⟨_, hno⟩

/-! ## The due of a state -/

theorem totalDue_returns (state : State) (h : state.dues.sum < 2 ^ amountBits) :
    (State.due state : Due ε).totalDue = .ok state.dues.sum := by
  have hsum : totalInterest state + state.principalDue = state.dues.sum := by
    simp only [totalInterest, State.dues, List.sum_cons, List.sum_nil]
    omega
  refine (bind_ok _ _ _).2 ⟨totalInterest state, ?_, ?_⟩
  · exact (totalDueInterest_ok _ _).2 ⟨by omega, rfl⟩
  · exact (coinAdd_ok _ _ _).2 ⟨by omega, by omega⟩

theorem collection_within (state : State) (minAmount : ℕ) :
    (collection state minAmount).amount ≤ state.dues.sum := by
  have hsum : totalInterest state ≤ state.dues.sum := by
    simp only [totalInterest, State.dues, List.sum_cons, List.sum_nil]
    omega
  unfold collection
  simp only
  split_ifs
  · exact hsum
  · exact Nat.zero_le _

theorem state_answers (state : State) (minAmount : ℕ) (h : state.dues.sum < 2 ^ amountBits)
    (c : OverdueCollection) (hc : (State.due state : Due ε).overdueCollection minAmount = .ok c) :
    c = collection state minAmount ∧
      Answers (State.due state : Due ε) minAmount state.dues.sum c := by
  have heq := evaluates_ok _ _ _ (collection_evaluates state minAmount) hc
  refine ⟨heq, totalDue_returns state h, hc, ?_⟩
  rw [heq]
  exact collection_within state minAmount

theorem answers_iff (state : State) (minAmount : ℕ) (h : state.dues.sum < 2 ^ amountBits) :
    (∃ c, (State.due state : Due ε).overdueCollection minAmount = .ok c) ↔
      Estimable state minAmount := by
  apply collection_returns_iff
  simp only [State.dues, List.sum_cons, List.sum_nil] at h
  omega

theorem debt_estimates (debt : Debt) (h : spec.debt asset due price = .ok debt) :
    ∃ c, due.overdueCollection spec.minTransaction = .ok c := by
  simp only [Spec.debt, Spec.mayAskLiquidationOverdue, bind_ok] at h
  obtain ⟨_, -, _, -, _, -, _, ⟨c, hcollected, -⟩, -⟩ := h
  exact ⟨c, hcollected⟩

/-- A position is checked without a panic exactly when the estimate of its overdue fits and,
either a liquidation is asked for, or the loan-to-value is in range and, where it is not below the
maximum, that maximum of the asset is not none. -/
theorem check_returns_iff (state : State) (hc : Convertible asset state.dues.sum price) :
    ((∃ strategy, spec.checkClose asset (State.due state : Due ε) price = .ok strategy) ∧
      ∃ debt, spec.debt asset (State.due state : Due ε) price = .ok debt) ↔
      Estimable state spec.minTransaction ∧
        Checkable spec asset (assetsDue state.dues.sum price)
          (assetsDue (collection state spec.minTransaction).amount price) price := by
  have hestimable := @answers_iff ε state spec.minTransaction hc.due_fits
  constructor
  · rintro ⟨-, debt, hdebt⟩
    obtain ⟨collected, hcollected⟩ := debt_estimates spec asset _ price debt hdebt
    obtain ⟨rfl, hd⟩ := state_answers state _ hc.due_fits collected hcollected
    refine ⟨hestimable.1 ⟨_, hcollected⟩, ?_⟩
    by_cases hl : Liquidates spec asset (assetsDue state.dues.sum price)
        (assetsDue (collection state spec.minTransaction).amount price) price
    · exact .inl hl
    · exact .inr ((debt_spared spec asset _ _ _ price hc.toDueConvertible hd hl debt).1 hdebt).1
  · rintro ⟨hestimate, hcheckable⟩
    obtain ⟨collected, hcollected⟩ := hestimable.2 hestimate
    obtain ⟨rfl, hd⟩ := state_answers state _ hc.due_fits collected hcollected
    constructor
    · obtain ⟨strategy, htrigger⟩ :=
        @mayTrigger_fits ε spec asset (assetsDue state.dues.sum price) hc.asset_fits
      simp only [Spec.checkClose, bind_ok, hd.total, Except.ok.injEq]
      exact ⟨strategy, _, rfl, _, toAssets_fits _ _ hc.proper hc.due_converts, htrigger⟩
    · by_cases hl : Liquidates spec asset (assetsDue state.dues.sum price)
          (assetsDue (collection state spec.minTransaction).amount price) price
      · obtain ⟨liquidation, hdebt⟩ := debt_liquidates spec asset _ _ _ price hc hd hl
        exact ⟨_, hdebt⟩
      · obtain ⟨debt, hno⟩ := noLiquidation_returns spec asset _ _ _ _ hc.asset_fits hd
        exact ⟨debt, (debt_spared spec asset _ _ _ price hc.toDueConvertible hd hl debt).2
          ⟨hcheckable.resolve_left hl, hno⟩⟩

def principalDue (principal : ℕ) : State := ⟨100, 40, principal, 0, 0, .startIn Interest.year⟩

theorem check_returns_sample :
    Convertible 1000 600 ⟨1, 1⟩ ∧
      (∃ strategy, sampleSpec.checkClose 1000 (State.due (principalDue 600) : Due Empty) ⟨1, 1⟩ =
        .ok strategy) ∧
      ∃ debt, sampleSpec.debt 1000 (State.due (principalDue 600) : Due Empty) ⟨1, 1⟩ =
        .ok debt := by
  have hc : Convertible 1000 600 ⟨1, 1⟩ :=
    ⟨⟨⟨by decide, by decide⟩, by decide, by decide, by decide, by decide⟩, by decide⟩
  refine ⟨hc, (check_returns_iff sampleSpec 1000 ⟨1, 1⟩ (principalDue 600) hc).2 ⟨?_, .inr (by decide)⟩⟩
  exact ⟨by decide, by decide, by decide, by decide⟩

def collapsed : Price := ⟨1000000, 1⟩

/-- The loan-to-value of a collapsed position is out of range, and a single unit of the asset has
no maximum to cap the due at. -/
theorem collapsed_not_checked :
    (¬ ∃ debt, sampleSpec.debt 1000000 (State.due (principalDue 5000000) : Due Empty) collapsed =
        .ok debt) ∧
      ¬ ∃ debt, sampleSpec.debt 1 (State.due (principalDue 1) : Due Empty) ⟨1, 1⟩ = .ok debt := by
  have hcollapsed : DueConvertible 1000000 5000000 collapsed :=
    ⟨⟨by decide, by decide⟩, by decide, by decide, by decide, by decide⟩
  have hunit : DueConvertible 1 1 ⟨1, 1⟩ :=
    ⟨⟨by decide, by decide⟩, by decide, by decide, by decide, by decide⟩
  have hlater : Answers (State.due (principalDue 5000000) : Due Empty) sampleSpec.minTransaction
      5000000 (.startIn Interest.year) := ⟨rfl, rfl, Nat.zero_le _⟩
  have hnever : Answers (State.due (principalDue 1) : Due Empty) sampleSpec.minTransaction 1
      (.startIn durationMax) := ⟨rfl, rfl, Nat.zero_le _⟩
  constructor
  · rintro ⟨debt, hdebt⟩
    have hzones := ((debt_spared sampleSpec 1000000 5000000 _ _ collapsed hcollapsed hlater
      (by decide) debt).1 hdebt).1
    exact absurd hzones (by decide)
  · rintro ⟨debt, hdebt⟩
    have hzones := ((debt_spared sampleSpec 1 1 _ _ ⟨1, 1⟩ hunit hnever (by decide) debt).1
      hdebt).1
    exact absurd hzones (by decide)

end Nolus.LeaseCheckable
