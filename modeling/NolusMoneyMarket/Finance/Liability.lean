import NolusMoneyMarket.Finance.Interest
import NolusMoneyMarket.Finance.Range

/-! # Liability

The limits of the loan-to-value of a lease, all of them permilles, the zones
between them, and the amount to liquidate above the maximum. A liability
exists only with its limits in order. -/

set_option autoImplicit false

namespace Nolus.LeaseLiability
open Nolus.Fallible Nolus.Fraction Nolus.Interest Nolus.Ranges

inductive Level
  | first (ltv : ℕ)
  | second (ltv : ℕ)
  | third (ltv : ℕ)
  | max (ltv : ℕ)
deriving DecidableEq, Repr

def Level.ltv : Level → ℕ
  | .first ltv => ltv
  | .second ltv => ltv
  | .third ltv => ltv
  | .max ltv => ltv

structure Zone where
  low : Option Level
  high : Level
deriving DecidableEq, Repr

def Zone.noWarnings (upTo : ℕ) : Zone := ⟨none, .first upTo⟩
def Zone.first (low high : ℕ) : Zone := ⟨some (.first low), .second high⟩
def Zone.second (low high : ℕ) : Zone := ⟨some (.second low), .third high⟩
def Zone.third (low high : ℕ) : Zone := ⟨some (.third low), .max high⟩

def Zone.range (self : Zone) : Ascending ℕ :=
  match self.low with
  | none => Ascending.upTo self.high.ltv
  | some low => (Ascending.upTo self.high.ltv).cutTo low.ltv

inductive Error
  | brokenInvariant (message : String)
deriving DecidableEq, Repr

namespace Unchecked

structure Liability where
  initial : ℕ
  healthy : ℕ
  firstLiqWarn : ℕ
  secondLiqWarn : ℕ
  thirdLiqWarn : ℕ
  max : ℕ
  recalcTime : ℕ
deriving DecidableEq, Repr

def check (invariant : Prop) [Decidable invariant] (message : String) : Outcome Error Unit :=
  ensure invariant (.error (.brokenInvariant message))

def Liability.invariantHeld (self : Liability) : Outcome Error Unit := do
  check (0 < self.initial) "Initial % should not be zero"
  check (self.initial ≤ self.healthy) "Initial % should be <= healthy %"
  check (self.healthy < self.firstLiqWarn) "Healthy % should be < first liquidation %"
  check (self.firstLiqWarn < self.secondLiqWarn)
    "First liquidation % should be < second liquidation %"
  check (self.secondLiqWarn < self.thirdLiqWarn)
    "Second liquidation % should be < third liquidation %"
  check (self.thirdLiqWarn < self.max) "Third liquidation % should be < max %"
  check (self.max ≤ hundred) "Max % should be <= 100%"
  check (hour ≤ self.recalcTime) "Recalculation cadence should be >= 1h"

end Unchecked

structure Liability extends Unchecked.Liability where
  held : toLiability.invariantHeld = .ok ()

def minStepLtv : ℕ := 1

variable {ε : Type}

def Liability.capToZone (self : Liability) (ltv : ℕ) : Outcome ε ℕ := do
  let top ← nativeSub self.max minStepLtv
  pure (min ltv top)

def Liability.zoneOf (self : Liability) (ltv : ℕ) : Zone :=
  if ltv < self.firstLiqWarn then .noWarnings self.firstLiqWarn
  else if ltv < self.secondLiqWarn then .first self.firstLiqWarn self.secondLiqWarn
  else if ltv < self.thirdLiqWarn then .second self.secondLiqWarn self.thirdLiqWarn
  else .third self.thirdLiqWarn self.max

/-- The borrow that makes the initial part of the whole, or less of it when asked for. -/
def Liability.initBorrowAmount (self : Liability) (downpayment : ℕ) (mayMaxLtd : Option ℕ) :
    Outcome ε ℕ := do
  let complement ← nativeSub hundred self.initial
  let defaultBorrow ← Ratio.of ⟨self.initial, complement⟩ downpayment
  match mayMaxLtd with
  | none => pure defaultBorrow
  | some maxLtd => do
    let requestedBorrow ← (percent maxLtd).of downpayment
    pure (min requestedBorrow defaultBorrow)

/-- The amount that brings the rest back to the healthy level. -/
def Liability.amountToLiquidate (self : Liability) (leaseAmount totalDue : ℕ) : Outcome ε ℕ := do
  let bound ← (percent self.max).of leaseAmount
  if totalDue < bound then pure 0
  else if leaseAmount ≤ totalDue then pure leaseAmount
  else
    let denominator ← nativeSub hundred self.healthy
    let healthy ← (percent self.healthy).of leaseAmount
    let extraLiability ← nativeSub totalDue (min totalDue healthy)
    Ratio.of ⟨hundred, denominator⟩ extraLiability

theorem held_limits (self : Liability) :
    0 < self.initial ∧ self.initial ≤ self.healthy ∧ self.healthy < self.firstLiqWarn ∧
      self.firstLiqWarn < self.secondLiqWarn ∧ self.secondLiqWarn < self.thirdLiqWarn ∧
      self.thirdLiqWarn < self.max ∧ self.max ≤ hundred ∧ hour ≤ self.recalcTime := by
  have h := self.held
  simp only [Unchecked.Liability.invariantHeld, Unchecked.check, bind_ok, ensure_ok] at h
  obtain ⟨_, h1, _, h2, _, h3, _, h4, _, h5, _, h6, _, h7, h8⟩ := h
  exact ⟨h1, h2, h3, h4, h5, h6, h7, h8⟩

theorem zone_high_le (self : Liability) (ltv : ℕ) : (self.zoneOf ltv).high.ltv ≤ self.max := by
  obtain ⟨-, -, -, h1, h2, h3, -⟩ := held_limits self
  unfold Liability.zoneOf
  split_ifs
  all_goals
    simp only [Zone.noWarnings, Zone.first, Zone.second, Zone.third, Level.ltv]
    omega

theorem zone_finish (zone : Zone) : zone.range.finish = zone.high.ltv := by
  unfold Zone.range
  split
  · rfl
  · rfl

theorem capToZone_ok (self : Liability) (ltv v : ℕ) :
    (self.capToZone ltv : Outcome ε ℕ) = .ok v ↔ v = min ltv (self.max - 1) := by
  obtain ⟨-, -, -, -, -, h, -⟩ := held_limits self
  simp only [Liability.capToZone, minStepLtv, bind_ok, nativeSub_ok, pure_ok]
  constructor
  · rintro ⟨_, ⟨-, rfl⟩, rfl⟩
    rfl
  · intro hv
    exact ⟨_, ⟨by omega, rfl⟩, hv.symm⟩

theorem nothing_to_liquidate (self : Liability) (leaseAmount totalDue : ℕ)
    (ha : leaseAmount < 2 ^ amountBits) (h : totalDue < (percent self.max).part leaseAmount) :
    (self.amountToLiquidate leaseAmount totalDue : Outcome ε ℕ) = .ok 0 := by
  obtain ⟨-, -, -, -, -, -, hmax, -⟩ := held_limits self
  have hle : (percent self.max).part leaseAmount ≤ leaseAmount := part_le _ _ hmax
  rw [Liability.amountToLiquidate, bind_ok]
  refine ⟨_, safeMul_fits _ _ _ (percent_total_pos _) (by omega), ?_⟩
  rw [if_pos h]
  rfl

end Nolus.LeaseLiability
