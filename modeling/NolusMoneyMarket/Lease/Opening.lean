import NolusMoneyMarket.Lease.Checkable

/-! # Opening positions

The borrow for a downpayment is a floored ratio of the initial percent and its
complement, hence it is no more than the initial percent of them both. That is
not above the healthy one, and a position of the two is neither liquidated nor
warned about. -/

set_option autoImplicit false

namespace Nolus.LeaseOpening
open Nolus.Fallible Nolus.Fraction Nolus.Prices
open Nolus.LeaseLiability Nolus.LeaseLiquidation Nolus.LeasePosition
open Nolus.LeaseSteady Nolus.LeaseCheckable

variable {ε : Type}

/-! ## The price of one -/

theorem worth_identity (amount : ℕ) : worthOf amount .identity = amount := by
  rw [worthOf, Ratio.part, Price.identity, Nat.one_mul, Nat.div_one]

theorem assetsDue_identity (amount : ℕ) : assetsDue amount .identity = amount :=
  worth_identity amount

theorem identity_proper : Proper .identity := ⟨Nat.one_pos, Nat.one_pos⟩

theorem total_identity (amount v : ℕ) (h : (total amount .identity : Outcome ε ℕ) = .ok v) :
    v = amount := by
  rw [of_ok _ _ _ Nat.one_pos h]
  exact worth_identity amount

theorem validTransaction_identity (spec : Spec) (amount : ℕ) (valid : Bool)
    (h : (spec.validTransaction amount .identity : Outcome ε Bool) = .ok valid) (hv : valid) :
    spec.minTransaction ≤ amount := by
  simp only [Spec.validTransaction, bind_ok, pure_ok] at h
  obtain ⟨worth, hworth, rfl⟩ := h
  rw [total_identity amount worth hworth] at hv
  exact of_decide_eq_true hv

theorem validAsset_identity (spec : Spec) (amount : ℕ) (valid : Bool)
    (h : (spec.validAsset amount .identity : Outcome ε Bool) = .ok valid) (hv : valid) :
    spec.minAsset ≤ amount := by
  simp only [Spec.validAsset, bind_ok, pure_ok] at h
  obtain ⟨worth, hworth, rfl⟩ := h
  rw [total_identity amount worth hworth] at hv
  exact of_decide_eq_true hv

/-! ## The amount to borrow -/

def defaultBorrow (self : Liability) (downpayment : ℕ) : ℕ :=
  Ratio.part ⟨self.initial, hundred - self.initial⟩ downpayment

theorem initial_limits (self : Liability) :
    0 < self.initial ∧ self.initial ≤ self.healthy ∧ self.initial < self.firstLiqWarn ∧
      self.firstLiqWarn < self.max ∧ self.initial < hundred := by
  obtain ⟨h1, h2, h3, h4, h5, h6, h7, _⟩ := held_limits self
  omega

theorem initBorrowAmount_ok (self : Liability) (downpayment borrow : ℕ) (mayMaxLtd : Option ℕ)
    (h : (self.initBorrowAmount downpayment mayMaxLtd : Outcome ε ℕ) = .ok borrow) :
    borrow ≤ defaultBorrow self downpayment ∧ ∀ maxLtd ∈ mayMaxLtd, ∃ most,
      ((percent maxLtd).of downpayment : Outcome ε ℕ) = .ok most ∧ borrow ≤ most := by
  obtain ⟨_, _, _, _, hinitial⟩ := initial_limits self
  simp only [Liability.initBorrowAmount, bind_ok, nativeSub_ok] at h
  obtain ⟨_, ⟨_, rfl⟩, default, hdefault, h⟩ := h
  have hpart : default = defaultBorrow self downpayment :=
    of_ok _ _ _ (show 0 < hundred - self.initial by omega) hdefault
  subst hpart
  cases mayMaxLtd with
  | none =>
    obtain rfl := (pure_ok _ _).1 h
    exact ⟨le_rfl, by simp⟩
  | some maxLtd =>
    simp only [bind_ok, pure_ok] at h
    obtain ⟨requested, hrequested, rfl⟩ := h
    refine ⟨Nat.min_le_right _ _, ?_⟩
    rintro _ ⟨⟩
    exact ⟨requested, hrequested, Nat.min_le_left _ _⟩

theorem defaultBorrow_initial (self : Liability) (downpayment borrow : ℕ)
    (h : borrow ≤ defaultBorrow self downpayment) :
    borrow * hundred ≤ self.initial * (downpayment + borrow) := by
  obtain ⟨_, _, _, _, hinitial⟩ := initial_limits self
  have hfloor : borrow * (hundred - self.initial) ≤ downpayment * self.initial :=
    (Nat.mul_le_mul_right _ h).trans (Nat.div_mul_le_self _ _)
  calc borrow * hundred
      = borrow * (hundred - self.initial) + borrow * self.initial := by
        rw [← Nat.mul_add, Nat.sub_add_cancel hinitial.le]
    _ ≤ downpayment * self.initial + borrow * self.initial := Nat.add_le_add_right hfloor _
    _ = self.initial * (downpayment + borrow) := by
        rw [← Nat.add_mul, Nat.mul_comm]

/-! ## The opened position -/

def Initial (self : Liability) (asset due : ℕ) : Prop := due * hundred ≤ self.initial * asset

/-- Above the maximum only by its rounding, such a due is not above the healthy level. -/
theorem initial_not_liquidated (self : Liability) (asset due : ℕ) (ha : asset < 2 ^ amountBits)
    (hpos : 0 < asset) (h : Initial self asset due) :
    (self.amountToLiquidate asset due : Outcome ε ℕ) = .ok 0 := by
  obtain ⟨_, hhealthy, _, _, hinitial⟩ := initial_limits self
  have hbelow : due ≤ (percent self.healthy).part asset := by
    apply (Nat.le_div_iff_mul_le (percent_total_pos _)).2
    calc due * hundred
        ≤ self.initial * asset := h
      _ ≤ self.healthy * asset := Nat.mul_le_mul_right _ hhealthy
      _ = asset * self.healthy := Nat.mul_comm _ _
  have hlt : due < asset := by
    have hless : due * hundred < hundred * asset :=
      lt_of_le_of_lt h (Nat.mul_lt_mul_of_pos_right hinitial hpos)
    rw [Nat.mul_comm] at hless
    exact Nat.lt_of_mul_lt_mul_left hless
  have hnone : excess self asset due = 0 := by
    rw [excess, Nat.sub_eq_zero_of_le hbelow, Ratio.part, Nat.zero_mul, Nat.zero_div]
  rw [amount_to_liquidate_part self asset due ha, if_neg (not_le.2 hlt), hnone, ite_self]

theorem initial_ltv (self : Liability) (asset due : ℕ) (h : Initial self asset due) :
    loanToValue due asset ≤ self.initial := by
  apply Nat.div_le_of_le_mul
  rw [Nat.mul_comm, Nat.mul_comm asset]
  exact h

theorem zone_no_warnings (self : Liability) (ltv : ℕ) (h : ltv ≤ self.initial) :
    self.zoneOf ltv = .noWarnings self.firstLiqWarn := by
  obtain ⟨_, _, hwarn, _, _⟩ := initial_limits self
  exact if_pos (by omega)

structure Opened (spec : Spec) (downpayment borrow : ℕ) : Prop where
  initial : Initial spec.liability (downpayment + borrow) borrow
  downpaid : spec.minTransaction ≤ downpayment
  borrowed : spec.minTransaction ≤ borrow
  asset : spec.minAsset ≤ downpayment + borrow
  fits : downpayment + borrow < 2 ^ amountBits

theorem calcBorrowAmount_ok (spec : Spec) (downpayment borrow : ℕ) (mayMaxLtd : Option ℕ)
    (h : spec.calcBorrowAmount downpayment mayMaxLtd = .ok borrow) :
    Opened spec downpayment borrow ∧ ∀ maxLtd ∈ mayMaxLtd, ∃ most,
      ((percent maxLtd).of downpayment : Outcome PositionError ℕ) = .ok most ∧
        borrow ≤ most := by
  simp only [Spec.calcBorrowAmount, bind_ok, ensure_ok, coinAdd_ok, pure_ok] at h
  obtain ⟨downpaid, hdownpaid, _, hdown, _, hinit, borrowed, hborrowed, _, hborrow, _,
    ⟨hfits, rfl⟩, opened, hopened, _, hasset, rfl⟩ := h
  obtain ⟨hdefault, hmost⟩ := initBorrowAmount_ok spec.liability _ _ _ hinit
  exact ⟨⟨defaultBorrow_initial spec.liability _ _ hdefault,
    validTransaction_identity spec _ _ hdownpaid hdown,
    validTransaction_identity spec _ _ hborrowed hborrow,
    validAsset_identity spec _ _ hopened hasset, hfits⟩, hmost⟩

variable {spec : Spec} {downpayment borrow : ℕ}

theorem opened_pos (h : Opened spec downpayment borrow) : 0 < borrow :=
  lt_of_lt_of_le spec.minTransaction_pos h.borrowed

theorem opened_not_liquidated (h : Opened spec downpayment borrow) :
    (spec.liability.amountToLiquidate (downpayment + borrow) borrow : Outcome ε ℕ) = .ok 0 :=
  initial_not_liquidated spec.liability _ borrow h.fits (Nat.add_pos_right _ (opened_pos h))
    h.initial

theorem opened_ltv (h : Opened spec downpayment borrow) :
    loanToValue borrow (downpayment + borrow) ≤ spec.liability.initial ∧
      loanToValue borrow (downpayment + borrow) < 2 ^ percentBits ∧
      loanToValue borrow (downpayment + borrow) < spec.liability.max := by
  obtain ⟨_, _, hwarn, hmax, hhundred⟩ := initial_limits spec.liability
  have hltv := initial_ltv spec.liability (downpayment + borrow) borrow h.initial
  have hnarrow : hundred < 2 ^ percentBits := by decide
  exact ⟨hltv, by omega, by omega⟩

/-- A position of a downpayment and the borrow for it is within all the limits, there is nothing
to liquidate of it and its loan-to-value is below the warnings. -/
theorem opened_position_healthy (spec : Spec) (downpayment borrow : ℕ) (mayMaxLtd : Option ℕ)
    (h : spec.calcBorrowAmount downpayment mayMaxLtd = .ok borrow) :
    borrow * hundred ≤ spec.liability.initial * (downpayment + borrow) ∧
      (∀ maxLtd ∈ mayMaxLtd, ∃ most,
        ((percent maxLtd).of downpayment : Outcome PositionError ℕ) = .ok most ∧
          borrow ≤ most) ∧
      spec.minTransaction ≤ downpayment ∧ spec.minTransaction ≤ borrow ∧
      spec.minAsset ≤ downpayment + borrow ∧
      (toAssets borrow .identity : Outcome PositionError ℕ) = .ok borrow ∧
      (spec.liability.amountToLiquidate (downpayment + borrow) borrow :
        Outcome PositionError ℕ) = .ok 0 ∧
      ∃ positionLtv,
        (ltv borrow (downpayment + borrow) : Outcome PositionError ℕ) = .ok positionLtv ∧
          positionLtv < spec.liability.max ∧
          spec.liability.zoneOf positionLtv = .noWarnings spec.liability.firstLiqWarn := by
  obtain ⟨hopened, hmost⟩ := calcBorrowAmount_ok spec _ _ _ h
  obtain ⟨hltv, hnarrow, hmax⟩ := opened_ltv hopened
  have hpos := opened_pos hopened
  have hfits := hopened.fits
  have hassets := toAssets_fits (ε := PositionError) borrow .identity identity_proper
  rw [assetsDue_identity] at hassets
  exact ⟨hopened.initial, hmost, hopened.downpaid, hopened.borrowed, hopened.asset,
    hassets (by omega), opened_not_liquidated hopened, _,
    (ltv_returns borrow _ _ (by omega)).2 ⟨hnarrow, rfl⟩, hmax,
    zone_no_warnings spec.liability _ hltv⟩

theorem opened_position_healthy_sample :
    sampleSpec.calcBorrowAmount 77 (some 1500) = .ok 115 ∧
    (115 * hundred ≤ sampleSpec.liability.initial * (77 + 115) ∧
      (∀ maxLtd ∈ some 1500, ∃ most,
        ((percent maxLtd).of 77 : Outcome PositionError ℕ) = .ok most ∧ 115 ≤ most) ∧
      sampleSpec.minTransaction ≤ 77 ∧ sampleSpec.minTransaction ≤ 115 ∧
      sampleSpec.minAsset ≤ 77 + 115 ∧
      (toAssets 115 .identity : Outcome PositionError ℕ) = .ok 115 ∧
      (sampleSpec.liability.amountToLiquidate (77 + 115) 115 :
        Outcome PositionError ℕ) = .ok 0 ∧
      ∃ positionLtv,
        (ltv 115 (77 + 115) : Outcome PositionError ℕ) = .ok positionLtv ∧
          positionLtv < sampleSpec.liability.max ∧
          sampleSpec.liability.zoneOf positionLtv =
            .noWarnings sampleSpec.liability.firstLiqWarn) := by
  have hborrow : sampleSpec.calcBorrowAmount 77 (some 1500) = .ok 115 := by rfl
  exact ⟨hborrow, opened_position_healthy sampleSpec 77 115 (some 1500) hborrow⟩

end Nolus.LeaseOpening
