import NolusMoneyMarket.Lease.Steady

/-! # Asked liquidations

Two rules ask for an amount of the asset: the liability one, from the
loan-to-value, and the overdue one, from what is collectable. Each amount goes
through the minimums in the currency of the loan on its own, and the larger of
the two asks is the debt of the position. -/

set_option autoImplicit false

namespace Nolus.LeaseAsks
open Nolus.Fallible Nolus.Fraction Nolus.Prices
open Nolus.LeaseLiability Nolus.LeaseLoan Nolus.LeasePosition Nolus.LeaseSteady

variable {ε : Type}

/-- How much a liquidation takes. All of it is more than any part of it. -/
def taken : Liquidation → WithTop ℕ
  | .partial_ amount _ => amount
  | .full _ => ⊤

def Worth (amount : ℕ) (price : Price) (worth : ℕ) : Prop :=
  (total amount price : Outcome PositionError ℕ) = .ok worth

def LiabilityAsks (spec : Spec) (asset : ℕ) (due : Due ε) (price : Price) (amount : ℕ) : Prop :=
  ∃ totalDue dueAssets, due.totalDue = .ok totalDue ∧
    (toAssets totalDue price : Outcome ε ℕ) = .ok dueAssets ∧
    (spec.liability.amountToLiquidate asset dueAssets : Outcome ε ℕ) = .ok amount

def OverdueAsks (spec : Spec) (due : Due ε) (price : Price) (amount : ℕ) : Prop :=
  ∃ collection, due.overdueCollection spec.minTransaction = .ok collection ∧
    (toAssets collection.amount price : Outcome ε ℕ) = .ok amount

inductive Asked (spec : Spec) (asset : ℕ) (price : Price) (cause : Cause) (amount : ℕ) :
    Option Liquidation → Prop
  | tooSmall (worth : ℕ) : Worth amount price worth → worth < spec.minTransaction →
      Asked spec asset price cause amount none
  | whole (worth rest : ℕ) : Worth amount price worth → spec.minTransaction ≤ worth →
      Worth (asset - amount) price rest → rest < spec.minAsset →
      Asked spec asset price cause amount (some (.full cause))
  | part (worth rest : ℕ) : Worth amount price worth → spec.minTransaction ≤ worth →
      Worth (asset - amount) price rest → spec.minAsset ≤ rest →
      Asked spec asset price cause amount (some (.partial_ amount cause))

theorem worth_or_panic (amount : ℕ) (price : Price) (hp : Proper price) :
    (∃ worth, Worth amount price worth) ∨
      ∃ cause, (total amount price : Outcome PositionError ℕ) = panicking cause := by
  rcases @of_evaluates PositionError ⟨amount, price.amount⟩ price.amountQuote hp.1 with h | ⟨_, h⟩
  · exact .inl ⟨_, h⟩
  · exact .inr ⟨_, h⟩

theorem validateCloseAmount_small (spec : Spec) (asset amount worth : ℕ) (price : Price)
    (hworth : Worth amount price worth) (h : worth < spec.minTransaction) :
    spec.validateCloseAmount asset amount price =
      failing (.positionCloseAmountTooSmall spec.minTransaction) := by
  rw [Spec.validateCloseAmount, Spec.validTransaction, show total amount price = _ from hworth]
  change (if decide (spec.minTransaction ≤ worth) = true then _ else _) = _
  rw [if_neg (by simpa using h)]

theorem validateCloseAmount_rest (spec : Spec) (asset amount worth : ℕ) (price : Price)
    (hworth : Worth amount price worth) (h : spec.minTransaction ≤ worth) :
    spec.validateCloseAmount asset amount price = (do
      let rest ← total (asset - amount) price
      ensure (spec.minAsset ≤ rest) (.error (.positionCloseAmountTooBig spec.minAsset))) := by
  rw [Spec.validateCloseAmount, Spec.validTransaction, show total amount price = _ from hworth]
  change (if decide (spec.minTransaction ≤ worth) = true then _ else _) = _
  rw [if_pos (by simpa using h), Spec.validAsset]
  cases (total (asset - amount) price : Outcome PositionError ℕ) with
  | error _ => rfl
  | ok rest =>
    change ensure (decide (spec.minAsset ≤ rest) = true) _ = _
    simp only [decide_eq_true_eq]
    rfl

theorem mayAskLiquidation_asked (spec : Spec) (asset amount : ℕ) (cause : Cause) (price : Price)
    (ask : Option Liquidation) (hp : Proper price)
    (h : (spec.mayAskLiquidation asset cause amount price : Outcome ε _) = .ok ask) :
    Asked spec asset price cause amount ask := by
  unfold Spec.mayAskLiquidation at h
  rcases worth_or_panic amount price hp with ⟨worth, hworth⟩ | ⟨_, hpanic⟩
  · rcases Nat.lt_or_ge worth spec.minTransaction with hlt | hge
    · rw [validateCloseAmount_small spec asset amount worth price hworth hlt] at h
      cases h
      exact .tooSmall worth hworth hlt
    · have hrests := validateCloseAmount_rest spec asset amount worth price hworth hge
      rcases worth_or_panic (asset - amount) price hp with ⟨rest, hrest⟩ | ⟨_, hpanic⟩
      · have hensure : spec.validateCloseAmount asset amount price =
            ensure (spec.minAsset ≤ rest) (.error (.positionCloseAmountTooBig spec.minAsset)) := by
          rw [hrests, show total (asset - amount) price = _ from hrest]
          rfl
        rw [hensure] at h
        by_cases hasset : spec.minAsset ≤ rest
        · rw [ensure, if_pos hasset] at h
          cases h
          exact .part worth rest hworth hge hrest hasset
        · rw [ensure, if_neg hasset] at h
          cases h
          exact .whole worth rest hworth hge hrest (by omega)
      · rw [hrests, hpanic] at h
        cases h
  · rw [Spec.validateCloseAmount, Spec.validTransaction, hpanic] at h
    cases h

theorem compare_parts (a b : ℕ) (c d : Cause) :
    compare (Liquidation.partial_ a c) (Liquidation.partial_ b d) =
      (compare a b).then (compare c d) := by
  simp only [compare, instOrdLiquidation.ord, Ordering.then_eq]

theorem taken_of_greater (a b : Liquidation) (h : compare a b = .gt) : taken b ≤ taken a := by
  rcases a with ⟨a, c⟩ | c
  · rcases b with ⟨b, d⟩ | d
    · rw [compare_parts, Ordering.then_eq_gt] at h
      apply WithTop.coe_le_coe.2
      rcases h with hgt | ⟨heq, -⟩
      · exact (Nat.compare_eq_gt.1 hgt).le
      · exact (Nat.compare_eq_eq.1 heq).ge
    · cases h
  · exact le_top

theorem taken_of_not_greater (a b : Liquidation) (h : compare a b ≠ .gt) :
    taken a ≤ taken b := by
  rcases b with ⟨b, d⟩ | d
  · rcases a with ⟨a, c⟩ | c
    · rw [compare_parts, Ne, Ordering.then_eq_gt, not_or] at h
      apply WithTop.coe_le_coe.2
      exact not_lt.1 fun hlt => h.1 (Nat.compare_eq_gt.2 hlt)
    · exact absurd rfl h
  · exact le_top

/-- The later of two asks is one of them and takes no less than either. -/
theorem later_some (fst snd : Option Liquidation) (liquidation : Liquidation)
    (h : later fst snd = some liquidation) :
    (fst = some liquidation ∨ snd = some liquidation) ∧
      ∀ other, fst = some other ∨ snd = some other → taken other ≤ taken liquidation := by
  rcases fst with _ | a
  · rcases snd with _ | b
    · cases h
    · cases h
      simp
  · rcases snd with _ | b
    · cases h
      simp
    · change (if (compare a b).isGT then some a else some b) = _ at h
      split_ifs at h with hgt
      · cases h
        refine ⟨.inl rfl, ?_⟩
        rintro other (h | h)
        · cases h
          exact le_rfl
        · cases h
          exact taken_of_greater _ _ (Ordering.isGT_iff_eq_gt.1 hgt)
      · cases h
        refine ⟨.inr rfl, ?_⟩
        rintro other (h | h)
        · cases h
          exact taken_of_not_greater _ _ fun heq => hgt (Ordering.isGT_iff_eq_gt.2 heq)
        · cases h
          exact le_rfl

theorem later_none (fst snd : Option Liquidation) (h : later fst snd = none) :
    fst = none ∧ snd = none := by
  rcases fst with _ | a
  · rcases snd with _ | b
    · exact ⟨rfl, rfl⟩
    · cases h
  · rcases snd with _ | b
    · cases h
    · change (if (compare a b).isGT then some a else some b) = _ at h
      split_ifs at h

theorem asked_legal (spec : Spec) (asset amount : ℕ) (price : Price) (cause : Cause)
    (ask : Option Liquidation) (h : Asked spec asset price cause amount ask) :
    (∀ c, ask = some (.full c) → ∃ worth rest, Worth amount price worth ∧
      spec.minTransaction ≤ worth ∧ Worth (asset - amount) price rest ∧ rest < spec.minAsset) ∧
    (∀ part c, ask = some (.partial_ part c) → ∃ worth rest, Worth part price worth ∧
      spec.minTransaction ≤ worth ∧ Worth (asset - part) price rest ∧ spec.minAsset ≤ rest) ∧
    (ask = none → ∃ worth, Worth amount price worth ∧ worth < spec.minTransaction) := by
  cases h with
  | tooSmall worth hworth hlt => exact ⟨by simp, by simp, fun _ => ⟨worth, hworth, hlt⟩⟩
  | whole worth rest hworth hmin hrest hlt =>
    exact ⟨fun _ _ => ⟨worth, rest, hworth, hmin, hrest, hlt⟩, by simp, by simp⟩
  | part worth rest hworth hmin hrest hge =>
    refine ⟨by simp, ?_, by simp⟩
    rintro _ _ ⟨⟩
    exact ⟨worth, rest, hworth, hmin, hrest, hge⟩

theorem worth_nothing (price : Price) (worth : ℕ) (hp : Proper price) (h : Worth 0 price worth) :
    worth = 0 := by
  rw [Worth, total_zero price hp] at h
  exact (Except.ok.inj h).symm

theorem rest_of_part (asset amount rest : ℕ) (price : Price) (hp : Proper price)
    (hrest : Worth (asset - amount) price rest) (hpos : 0 < rest) : amount < asset := by
  by_contra hge
  rw [Nat.sub_eq_zero_of_le (by omega)] at hrest
  have h0 := worth_nothing price rest hp hrest
  omega

theorem noLiquidation_not_bad (spec : Spec) (asset ltvCapped : ℕ) (due : Due ε) (debt : Debt)
    (liquidation : Liquidation) (h : spec.noLiquidation asset due ltvCapped = .ok debt) :
    debt ≠ .bad liquidation := by
  simp only [Spec.noLiquidation, bind_ok] at h
  obtain ⟨totalDue, -, h⟩ := h
  intro hbad
  split_ifs at h
  · rw [hbad] at h
    cases h
  · simp only [bind_ok, pure_ok] at h
    obtain ⟨_, -, _, -, rfl⟩ := h
    cases hbad

structure Asks (spec : Spec) (asset : ℕ) (due : Due ε) (price : Price) (byLiability byOverdue : ℕ)
    (liability overdue : Option Liquidation) : Prop where
  liability_asks : LiabilityAsks spec asset due price byLiability
  overdue_asks : OverdueAsks spec due price byOverdue
  liability_asked : Asked spec asset price
    (.liability spec.liability.max spec.liability.healthy) byLiability liability
  overdue_asked : Asked spec asset price .overdue byOverdue overdue

theorem debt_asks (spec : Spec) (asset : ℕ) (due : Due ε) (price : Price) (debt : Debt)
    (hp : Proper price) (h : spec.debt asset due price = .ok debt) :
    ∃ byLiability byOverdue liability overdue,
      Asks spec asset due price byLiability byOverdue liability overdue ∧
        ∀ liquidation, debt = .bad liquidation ↔ later liability overdue = some liquidation := by
  simp only [Spec.debt, bind_ok] at h
  obtain ⟨totalDue, hdue, dueAssets, hassets, liability, hliability, overdue, hoverdue, h⟩ := h
  simp only [Spec.mayAskLiquidationLiability, bind_ok] at hliability
  obtain ⟨byLiability, hby, hasked⟩ := hliability
  simp only [Spec.mayAskLiquidationOverdue, bind_ok] at hoverdue
  obtain ⟨collection, hcollection, byOverdue, hcollected, hasked'⟩ := hoverdue
  refine ⟨byLiability, byOverdue, liability, overdue,
    ⟨⟨totalDue, dueAssets, hdue, hassets, hby⟩, ⟨collection, hcollection, hcollected⟩,
      mayAskLiquidation_asked _ _ _ _ _ _ hp hasked,
      mayAskLiquidation_asked _ _ _ _ _ _ hp hasked'⟩, ?_⟩
  intro liquidation
  cases hlater : later liability overdue with
  | some larger =>
    rw [hlater] at h
    rw [← (pure_ok _ _).1 h]
    simp
  | none =>
    rw [hlater] at h
    simp only [bind_ok] at h
    obtain ⟨_, -, _, -, _, -, hno⟩ := h
    have hnot := noLiquidation_not_bad _ _ _ _ _ liquidation hno
    simp [hnot]

/-- A partial liquidation and what it leaves reach the minimums, a full one stands for an
ask that would leave too little, the larger ask prevails, and nothing is liquidated only
when both asks are too small. -/
theorem debt_decides (spec : Spec) (asset : ℕ) (due : Due ε) (price : Price) (debt : Debt)
    (hp : Proper price) (h : spec.debt asset due price = .ok debt) :
    (∀ amount cause, debt = .bad (.partial_ amount cause) → amount < asset ∧
      ∃ worth rest, Worth amount price worth ∧ spec.minTransaction ≤ worth ∧
        Worth (asset - amount) price rest ∧ spec.minAsset ≤ rest) ∧
    ∃ byLiability byOverdue liability overdue,
      Asks spec asset due price byLiability byOverdue liability overdue ∧
      (∀ cause, debt = .bad (.full cause) → ∃ amount, (amount = byLiability ∨ amount = byOverdue) ∧
        ∃ worth rest, Worth amount price worth ∧ spec.minTransaction ≤ worth ∧
          Worth (asset - amount) price rest ∧ rest < spec.minAsset) ∧
      (∀ liquidation, debt = .bad liquidation →
        (liability = some liquidation ∨ overdue = some liquidation) ∧
          ∀ other, liability = some other ∨ overdue = some other →
            taken other ≤ taken liquidation) ∧
      ((∀ liquidation, debt ≠ .bad liquidation) →
        (∃ worth, Worth byLiability price worth ∧ worth < spec.minTransaction) ∧
          ∃ worth, Worth byOverdue price worth ∧ worth < spec.minTransaction) := by
  obtain ⟨byLiability, byOverdue, liability, overdue, hasks, hbad⟩ := debt_asks _ _ _ _ _ hp h
  obtain ⟨hfull, hpart, hnone⟩ := asked_legal _ _ _ _ _ _ hasks.liability_asked
  obtain ⟨hfull', hpart', hnone'⟩ := asked_legal _ _ _ _ _ _ hasks.overdue_asked
  have hone := fun liquidation hl => later_some liability overdue liquidation ((hbad _).1 hl)
  constructor
  · intro amount cause hdebt
    have hlegal : ∃ worth rest, Worth amount price worth ∧ spec.minTransaction ≤ worth ∧
        Worth (asset - amount) price rest ∧ spec.minAsset ≤ rest := by
      rcases (hone _ hdebt).1 with hask | hask
      · exact hpart amount cause hask
      · exact hpart' amount cause hask
    refine ⟨?_, hlegal⟩
    obtain ⟨_, rest, -, -, hrest, hmin⟩ := hlegal
    exact rest_of_part asset amount rest price hp hrest (lt_of_lt_of_le spec.minAsset_pos hmin)
  · refine ⟨byLiability, byOverdue, liability, overdue, hasks, ?_, hone, ?_⟩
    · intro cause hdebt
      rcases (hone _ hdebt).1 with hask | hask
      · exact ⟨byLiability, .inl rfl, hfull cause hask⟩
      · exact ⟨byOverdue, .inr rfl, hfull' cause hask⟩
    · intro hno
      have hlater : later liability overdue = none := by
        rw [Option.eq_none_iff_forall_ne_some]
        exact fun liquidation hl => hno liquidation ((hbad _).2 hl)
      obtain ⟨h1, h2⟩ := later_none _ _ hlater
      exact ⟨hnone h1, hnone' h2⟩

def badDue : Due ε := State.due ⟨100, 40, 890, 6, 4, .startIn Interest.year⟩

set_option maxRecDepth 4000 in
theorem debt_decides_sample :
    (sampleSpec.debt 1000 badDue ⟨1, 1⟩ : Outcome Empty Debt) =
        .ok (.bad (.partial_ 666 (.liability 800 700))) ∧
      666 < 1000 ∧ ∃ worth rest, Worth 666 ⟨1, 1⟩ worth ∧ sampleSpec.minTransaction ≤ worth ∧
        Worth (1000 - 666) ⟨1, 1⟩ rest ∧ sampleSpec.minAsset ≤ rest := by
  have hdebt : (sampleSpec.debt 1000 badDue ⟨1, 1⟩ : Outcome Empty Debt) =
      .ok (.bad (.partial_ 666 (.liability 800 700))) := by rfl
  exact ⟨hdebt, (debt_decides sampleSpec 1000 badDue ⟨1, 1⟩ _ ⟨by decide, by decide⟩ hdebt).1
    666 _ rfl⟩

end Nolus.LeaseAsks
