import Mathlib.Algebra.Order.Floor.Semifield
import NolusMoneyMarket.Lpp.Config

/-! # Borrow rates

The utilization is floored to permille and capped, and the rate grows by a
floored share of it. Hence the rate is not above the exact one and not two of
its steps below it. The cap comes after the permille of the utilization have
been put in 32 bits: a balance that is tiny with respect to the liability is
out of their range. -/

set_option autoImplicit false

namespace Nolus.LppBorrowRate
open Nolus.Fallible Nolus.Fraction Nolus.LppConfig

variable {ε : Type}

def cappedUtilization (self : InterestRate) (totalLiability balance : ℕ) : ℕ :=
  if balance = 0 then utilizationLimit self
  else min (Ratio.part ⟨totalLiability, balance⟩ hundred) (utilizationLimit self)

def rateAt (self : InterestRate) (utilization : ℕ) : ℕ :=
  self.baseInterestRate +
    Ratio.part ⟨self.addonOptimalInterestRate, self.utilizationOptimal⟩ utilization

/-- The permille of the utilization are in range, if they are computed at all. -/
def InRange (totalLiability balance : ℕ) : Prop :=
  balance = 0 ∨ Ratio.part ⟨totalLiability, balance⟩ hundred < 2 ^ percentBits

instance (totalLiability balance : ℕ) : Decidable (InRange totalLiability balance) :=
  instDecidableOr

/-- The utilization in permille, with no rounding. There is no balance to divide by in an
empty pool, it is utilized up to the cap. -/
def exactUtilization (self : InterestRate) (totalLiability balance : ℕ) : ℚ :=
  let limit : ℚ := hundred * self.utilizationOptimal / (hundred - self.utilizationOptimal)
  if balance = 0 then limit else min (hundred * totalLiability / balance : ℚ) limit

def exactRate (self : InterestRate) (utilization : ℚ) : ℚ :=
  self.baseInterestRate + utilization * self.addonOptimalInterestRate / self.utilizationOptimal

theorem capped_le (self : InterestRate) (totalLiability balance : ℕ) :
    cappedUtilization self totalLiability balance ≤ utilizationLimit self := by
  unfold cappedUtilization
  split_ifs
  · exact le_refl _
  · exact min_le_right _ _

theorem rateAt_mono (self : InterestRate) (u v : ℕ) (h : u ≤ v) : rateAt self u ≤ rateAt self v :=
  Nat.add_le_add_left (part_mono _ _ _ h) _

theorem rateAt_limit (self : InterestRate) (u : ℕ) (h : u ≤ utilizationLimit self) :
    rateAt self u < 2 ^ percentBits := by
  have hbase := self.base_le
  have hlimit := Nat.div_le_self (hundred * self.utilizationOptimal)
    (hundred - self.utilizationOptimal)
  have hutil : u * self.addonOptimalInterestRate ≤
      hundred * self.utilizationOptimal * hundred :=
    Nat.mul_le_mul (h.trans hlimit) self.addon_le
  have haddon : Ratio.part ⟨self.addonOptimalInterestRate, self.utilizationOptimal⟩ u ≤
      hundred * hundred := by
    apply Nat.div_le_of_le_mul
    calc u * self.addonOptimalInterestRate ≤ hundred * self.utilizationOptimal * hundred := hutil
      _ = self.utilizationOptimal * (hundred * hundred) := by ring
  have hbits : hundred + hundred * hundred < 2 ^ percentBits := by decide
  unfold rateAt
  omega

/-! ## When it is calculated -/

theorem utilization_ok (self : InterestRate) (totalLiability balance u : ℕ) :
    (self.utilization totalLiability balance : Outcome ε ℕ) = .ok u ↔
      InRange totalLiability balance ∧ cappedUtilization self totalLiability balance = u := by
  simp only [InterestRate.utilization, utilizationMax_ok, bind_ok, Except.ok.injEq,
    exists_eq_left', cappedUtilization, InRange]
  split_ifs with h0
  · simp [h0]
  · have hpos : 0 < balance := Nat.pos_of_ne_zero h0
    simp only [bind_ok, percentFromRatio_ok _ _ _ hpos, pure_ok, h0, false_or]
    constructor
    · rintro ⟨_, ⟨hfits, rfl⟩, rfl⟩
      exact ⟨hfits, rfl⟩
    · rintro ⟨hfits, rfl⟩
      exact ⟨_, ⟨hfits, rfl⟩, rfl⟩

theorem calculate_ok (self : InterestRate) (totalLiability balance rate : ℕ) :
    (self.calculate totalLiability balance : Outcome ε ℕ) = .ok rate ↔
      InRange totalLiability balance ∧
        rateAt self (cappedUtilization self totalLiability balance) = rate := by
  have hrate := rateAt_limit self _ (capped_le self totalLiability balance)
  simp only [InterestRate.calculate, bind_ok, utilization_ok, nativeAdd_ok]
  constructor
  · rintro ⟨_, ⟨hrange, rfl⟩, addon, haddon, -, rfl⟩
    refine ⟨hrange, ?_⟩
    rw [safeMul_ok _ _ _ _ self.optimal_pos haddon]
    rfl
  · rintro ⟨hrange, rfl⟩
    refine ⟨_, ⟨hrange, rfl⟩, _, safeMul_fits _ _ _ self.optimal_pos ?_, hrate, rfl⟩
    exact lt_of_le_of_lt (Nat.le_add_left _ _) hrate

/-! ## How close it is -/

theorem part_le_exact (ratio : Ratio) (whole : ℕ) :
    (ratio.part whole : ℚ) ≤ whole * ratio.parts / ratio.total := by
  have h := @Nat.cast_div_le ℚ _ _ _ (whole * ratio.parts) ratio.total
  rwa [Nat.cast_mul] at h

theorem exact_lt_part (ratio : Ratio) (whole : ℕ) :
    (whole * ratio.parts / ratio.total : ℚ) < ratio.part whole + 1 := by
  have h := Nat.lt_floor_add_one ((whole * ratio.parts : ℕ) / ratio.total : ℚ)
  rwa [Nat.floor_div_eq_div, Nat.cast_mul] at h

/-- The utilization is the exact one floored to permille. -/
theorem capped_floor (self : InterestRate) (totalLiability balance : ℕ) :
    (cappedUtilization self totalLiability balance : ℚ) ≤
        exactUtilization self totalLiability balance ∧
      exactUtilization self totalLiability balance <
        cappedUtilization self totalLiability balance + 1 := by
  have hsub : ((hundred - self.utilizationOptimal : ℕ) : ℚ) = hundred - self.utilizationOptimal :=
    Nat.cast_sub self.optimal_lt.le
  have hlimit := part_le_exact ⟨self.utilizationOptimal, hundred - self.utilizationOptimal⟩ hundred
  have hlimit' := exact_lt_part ⟨self.utilizationOptimal, hundred - self.utilizationOptimal⟩ hundred
  simp only [hsub] at hlimit hlimit'
  have hcurrent := part_le_exact ⟨totalLiability, balance⟩ hundred
  have hcurrent' := exact_lt_part ⟨totalLiability, balance⟩ hundred
  unfold cappedUtilization exactUtilization utilizationLimit
  simp only
  split_ifs
  · exact ⟨hlimit, hlimit'⟩
  · rw [Nat.cast_min]
    refine ⟨min_le_min hcurrent hlimit, ?_⟩
    rw [min_add]
    exact lt_min (lt_of_le_of_lt (min_le_left _ _) hcurrent')
      (lt_of_le_of_lt (min_le_right _ _) hlimit')

theorem exactRate_mono (self : InterestRate) (u v : ℚ) (h : u ≤ v) :
    exactRate self u ≤ exactRate self v := by
  unfold exactRate
  gcongr

theorem rateAt_floor (self : InterestRate) (u : ℕ) :
    (rateAt self u : ℚ) ≤ exactRate self u ∧ exactRate self u < rateAt self u + 1 := by
  have hle := part_le_exact ⟨self.addonOptimalInterestRate, self.utilizationOptimal⟩ u
  have hlt := exact_lt_part ⟨self.addonOptimalInterestRate, self.utilizationOptimal⟩ u
  simp only [rateAt, exactRate, Nat.cast_add]
  constructor
  · linarith
  · linarith

theorem exactRate_succ (self : InterestRate) (u : ℚ) :
    exactRate self (u + 1) = exactRate self u +
      self.addonOptimalInterestRate / self.utilizationOptimal := by
  unfold exactRate
  ring

theorem capped_mono (self : InterestRate) (totalLiability more balance : ℕ)
    (h : totalLiability ≤ more) :
    cappedUtilization self totalLiability balance ≤ cappedUtilization self more balance := by
  unfold cappedUtilization
  split_ifs
  · exact le_refl _
  · exact min_le_min (Nat.div_le_div_right (Nat.mul_le_mul_left _ h)) (le_refl _)

theorem capped_antitone (self : InterestRate) (totalLiability balance more : ℕ)
    (h : balance ≤ more) :
    cappedUtilization self totalLiability more ≤ cappedUtilization self totalLiability balance := by
  rcases Nat.eq_zero_or_pos balance with h0 | hpos
  · rw [h0]
    exact capped_le self totalLiability more
  · unfold cappedUtilization
    rw [if_neg (by omega), if_neg (by omega)]
    exact min_le_min (Nat.div_le_div_left h hpos) (le_refl _)

structure Conforms (self : InterestRate) (totalLiability balance rate : ℕ) : Prop where
  value : rate = rateAt self (cappedUtilization self totalLiability balance)
  not_above : (rate : ℚ) ≤ exactRate self (exactUtilization self totalLiability balance)
  close : exactRate self (exactUtilization self totalLiability balance) <
    rate + 1 + (self.addonOptimalInterestRate : ℚ) / self.utilizationOptimal
  bounded : rate ≤ rateAt self (utilizationLimit self)
  grows : ∀ more other, totalLiability ≤ more →
    self.calculate more balance = (.ok other : Outcome LppLoan.ContractError ℕ) → rate ≤ other
  falls : ∀ more other, balance ≤ more →
    self.calculate totalLiability more = (.ok other : Outcome LppLoan.ContractError ℕ) →
      other ≤ rate

theorem rate_conforms (self : InterestRate) (totalLiability balance : ℕ) :
    Conforms self totalLiability balance
      (rateAt self (cappedUtilization self totalLiability balance)) := by
  obtain ⟨hle, hlt⟩ := capped_floor self totalLiability balance
  obtain ⟨hrate, hrate'⟩ := rateAt_floor self (cappedUtilization self totalLiability balance)
  constructor
  · rfl
  · exact hrate.trans (exactRate_mono self _ _ hle)
  · have hsucc := exactRate_mono self _ _ hlt.le
    rw [exactRate_succ] at hsucc
    linarith
  · exact rateAt_mono self _ _ (capped_le self totalLiability balance)
  · intro more other hmore hother
    rw [← ((calculate_ok _ _ _ _).1 hother).2]
    exact rateAt_mono self _ _ (capped_mono self _ _ _ hmore)
  · intro more other hmore hother
    rw [← ((calculate_ok _ _ _ _).1 hother).2]
    exact rateAt_mono self _ _ (capped_antitone self _ _ _ hmore)

/-- A rate is calculated, and is as it is to be, exactly when the permille of the utilization fit
in 32 bits. -/
theorem calculate_conforms_iff (self : InterestRate) (totalLiability balance : ℕ) :
    (∃ rate, self.calculate totalLiability balance =
        (.ok rate : Outcome LppLoan.ContractError ℕ) ∧
          Conforms self totalLiability balance rate) ↔
      InRange totalLiability balance := by
  constructor
  · rintro ⟨rate, hrate, -⟩
    exact ((calculate_ok _ _ _ _).1 hrate).1
  · intro hrange
    exact ⟨_, (calculate_ok _ _ _ _).2 ⟨hrange, rfl⟩, rate_conforms self totalLiability balance⟩

def sampleRate : InterestRate := ⟨90, 750, 25, by decide, by decide, by decide, by decide⟩

/-- The utilization of a pool that is drained but for a unit is out of range, though the cap of
that of an empty one is not. -/
theorem drained_not_calculated :
    ¬ (∃ rate, sampleRate.calculate 4294968 1 = (.ok rate : Outcome LppLoan.ContractError ℕ) ∧
      Conforms sampleRate 4294968 1 rate) ∧
    sampleRate.calculate 4294969 0 = (.ok 190 : Outcome LppLoan.ContractError ℕ) := by
  refine ⟨?_, rfl⟩
  rintro ⟨rate, hrate, -⟩
  exact absurd ((calculate_ok _ _ _ _).1 hrate).1 (by decide)

end Nolus.LppBorrowRate
