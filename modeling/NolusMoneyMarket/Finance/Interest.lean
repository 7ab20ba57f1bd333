import NolusMoneyMarket.Finance.Fraction

/-! # Interest

Accrual and payment of interest. Time points and durations are numbers of
nanoseconds of 64-bit range. An annual amount is floored first and its slice
for a period is floored next; a payment is turned into the time it covers with
a third floor. -/

set_option autoImplicit false

namespace Nolus.Interest
open Nolus.Fallible Nolus.Fraction

def nanosInSecond : ℕ := 1000 * 1000 * 1000
def nanosInDay : ℕ := nanosInSecond * (60 * 60 * 24)
def hour : ℕ := nanosInSecond * (60 * 60)
def year : ℕ := 365 * nanosInDay

theorem year_pos : 0 < year := by decide

variable {ε : Type}

def between (start finish : ℕ) : Outcome ε ℕ := nativeSub finish start

def annualizedSliceOf (period : ℕ) (annual : ℕ) : Outcome ε ℕ :=
  safeMul amountBits annual ⟨period, year⟩

def durationSafeMul (period : ℕ) (ratio : Ratio) : Outcome ε ℕ := do
  let res ← safeMul amountBits period ratio
  if res < 2 ^ timeBits then pure res
  else panicking (.overflow "overflow computing a fraction of duration")

def intoSlicePerRatio (period : ℕ) (amount annual : ℕ) : Outcome ε ℕ :=
  durationSafeMul period ⟨amount, annual⟩

def interest (rate : Ratio) (principal : ℕ) (period : ℕ) : Outcome ε ℕ := do
  let interestPerYear ← rate.of principal
  annualizedSliceOf period interestPerYear

def pay (rate : Ratio) (principal payment : ℕ) (period : ℕ) :
    Outcome ε (ℕ × ℕ) := do
  let interestDue ← interest rate principal period
  if interestDue = 0 then pure (0, payment)
  else
    let repayment := min interestDue payment
    let periodPaidFor ← intoSlicePerRatio period repayment interestDue
    let change ← nativeSub payment repayment
    pure (periodPaidFor, change)

def accrued (annual : ℕ) (period : ℕ) : ℕ := annual * period / year

def accruedOn (rate : Ratio) (principal : ℕ) (period : ℕ) : ℕ :=
  accrued (rate.part principal) period

def paidFor (due payment : ℕ) (period : ℕ) : ℕ :=
  if due = 0 then 0 else period * min due payment / due

theorem accrued_zero (annual : ℕ) : accrued annual 0 = 0 := by simp [accrued]

theorem accrued_mono (a b p q : ℕ) (h : a ≤ b) (k : p ≤ q) : accrued a p ≤ accrued b q :=
  Nat.div_le_div_right (Nat.mul_le_mul h k)

theorem paidFor_le (due payment period : ℕ) : paidFor due payment period ≤ period := by
  unfold paidFor
  split_ifs with h
  · omega
  · exact Nat.div_le_of_le_mul (by
      rw [Nat.mul_comm]; exact Nat.mul_le_mul_right _ (min_le_left _ _))

theorem paidFor_floor (due payment period : ℕ) (h : due ≠ 0) :
    paidFor due payment period * due ≤ period * min due payment ∧
      period * min due payment < paidFor due payment period * due + due := by
  rw [paidFor, if_neg h]
  exact ⟨Nat.div_mul_le_self _ _, Nat.lt_div_mul_add (Nat.pos_of_ne_zero h)⟩

/-- What a payment below the due leaves accrues at least the rest of that due again. -/
theorem rest_accrues (annual payment period : ℕ) :
    accrued annual period ≤
      accrued annual (period - paidFor (accrued annual period) payment period) +
        min (accrued annual period) payment := by
  by_cases h0 : accrued annual period = 0
  · omega
  · have hdays := paidFor_le (accrued annual period) payment period
    obtain ⟨hcovered, -⟩ := paidFor_floor (accrued annual period) payment period h0
    generalize paidFor (accrued annual period) payment period = covered at hdays hcovered ⊢
    generalize hdue : accrued annual period = due at h0 hcovered ⊢
    have hpos := Nat.pos_of_ne_zero h0
    have hle : min due payment ≤ due := min_le_left _ _
    generalize min due payment = paid at hle hcovered ⊢
    have haccrued : due * year ≤ annual * period := by
      rw [← hdue]
      exact Nat.div_mul_le_self _ _
    have hrest : due - paid ≤ accrued annual (period - covered) := by
      apply (Nat.le_div_iff_mul_le year_pos).2
      apply Nat.le_of_mul_le_mul_left _ hpos
      zify [hdays, hle] at hcovered haccrued ⊢
      nlinarith [mul_le_mul_of_nonneg_left hcovered (Int.natCast_nonneg annual),
        mul_le_mul_of_nonneg_right haccrued (sub_nonneg.2 (Int.ofNat_le.2 hle))]
    omega

/-- It accrues no more than that and one nanosecond. -/
theorem rest_accrues_le (annual payment period : ℕ) :
    accrued annual (period - paidFor (accrued annual period) payment period) +
        min (accrued annual period) payment ≤
      accrued annual period + (annual + (year - 1)) / year := by
  have hyear := year_pos
  have hnano : annual ≤ (annual + (year - 1)) / year * year := by
    have hround := Nat.lt_div_mul_add (a := annual + (year - 1)) year_pos
    omega
  generalize (annual + (year - 1)) / year = nano at hnano ⊢
  by_cases h0 : accrued annual period = 0
  · rw [paidFor, if_pos h0, Nat.sub_zero, h0]
    omega
  · have hdays := paidFor_le (accrued annual period) payment period
    obtain ⟨-, hcovered⟩ := paidFor_floor (accrued annual period) payment period h0
    generalize paidFor (accrued annual period) payment period = covered at hdays hcovered ⊢
    generalize hdue : accrued annual period = due at h0 hcovered ⊢
    have hpos := Nat.pos_of_ne_zero h0
    have hle : min due payment ≤ due := min_le_left _ _
    generalize min due payment = paid at hle hcovered ⊢
    have haccrued : annual * period < due * year + year := by
      rw [← hdue]
      exact Nat.lt_div_mul_add year_pos
    have hrest : accrued annual (period - covered) * year ≤ annual * (period - covered) :=
      Nat.div_mul_le_self _ _
    generalize accrued annual (period - covered) = rest at hrest ⊢
    generalize year = y at hyear hnano haccrued hrest
    by_contra hmore
    zify [hdays] at hle hpos hcovered haccrued hrest hnano hmore hyear
    have hbig : ((due : ℤ) - paid + nano + 1) * (y * due) ≤ rest * (y * due) :=
      mul_le_mul_of_nonneg_right (by omega) (by positivity)
    have hslice := mul_le_mul_of_nonneg_right hrest hpos.le
    have hcut :=
      mul_le_mul_of_nonneg_left (Int.add_one_le_of_lt hcovered) (Int.natCast_nonneg annual)
    have hall := mul_le_mul_of_nonneg_right (Int.add_one_le_of_lt haccrued) (sub_nonneg.2 hle)
    have hmost := mul_le_mul_of_nonneg_right hnano hpos.le
    have hpaid :=
      mul_le_mul_of_nonneg_right (Int.add_one_le_of_lt hyear) (Int.natCast_nonneg paid)
    nlinarith only [hbig, hslice, hcut, hall, hmost, hpaid, hpos, hle, Int.natCast_nonneg annual]

/-- Two payments below the due cover no more of the period than one for both. -/
theorem paidFor_split (annual first second period : ℕ)
    (h : first + second < accrued annual period) :
    paidFor (accrued annual period) first period +
        paidFor (accrued annual (period - paidFor (accrued annual period) first period)) second
          (period - paidFor (accrued annual period) first period) ≤
      paidFor (accrued annual period) (first + second) period := by
  have hrest := rest_accrues annual first period
  obtain ⟨hcovered, -⟩ := paidFor_floor (accrued annual period) first period (by omega)
  rw [min_eq_right (by omega)] at hcovered
  have hdays := paidFor_le (accrued annual period) first period
  rw [min_eq_right (by omega)] at hrest
  generalize paidFor (accrued annual period) first period = covered at hrest hcovered hdays ⊢
  rw [paidFor, if_neg (by omega), min_eq_right (by omega), paidFor, if_neg (by omega),
    min_eq_right h.le]
  have hnext := Nat.div_mul_le_self ((period - covered) * second)
    (accrued annual (period - covered))
  generalize (period - covered) * second / accrued annual (period - covered) = next at hnext ⊢
  generalize accrued annual period = due at h hrest hcovered ⊢
  generalize accrued annual (period - covered) = rest at hrest hnext
  apply (Nat.le_div_iff_mul_le (by omega)).2
  have hleft : 0 < due - first := by omega
  apply Nat.le_of_mul_le_mul_left _ hleft
  have hfirst : first ≤ due := by omega
  have hnext' : next * (due - first) ≤ (period - covered) * second :=
    le_trans (Nat.mul_le_mul_left _ (by omega)) hnext
  have hsecond : second ≤ due - first := by omega
  zify [hdays, hfirst] at hnext' hcovered hsecond ⊢
  nlinarith only [mul_le_mul_of_nonneg_right hnext' (Int.natCast_nonneg due),
    mul_le_mul_of_nonneg_right hsecond (sub_nonneg.2 hcovered)]

theorem interest_evaluates (rate : Ratio) (principal period : ℕ) (ht : 0 < rate.total) :
    Evaluates (interest rate principal period : Outcome ε ℕ) (accruedOn rate principal period) :=
  evaluates_bind _ _ _ _ (of_evaluates rate principal ht) (safeMul_evaluates _ _ _ year_pos)

theorem interest_fits (rate : Ratio) (principal period : ℕ) (ht : 0 < rate.total)
    (h1 : rate.part principal < 2 ^ amountBits)
    (h2 : accruedOn rate principal period < 2 ^ amountBits) :
    (interest rate principal period : Outcome ε ℕ) = .ok (accruedOn rate principal period) := by
  rw [interest, bind_ok]
  exact ⟨_, safeMul_fits _ _ _ ht h1, safeMul_fits _ _ _ year_pos h2⟩

theorem durationSafeMul_evaluates (period : ℕ) (ratio : Ratio) (ht : 0 < ratio.total) :
    Evaluates (durationSafeMul period ratio : Outcome ε ℕ) (ratio.part period) := by
  apply evaluates_bind _ _ _ _ (safeMul_evaluates _ _ _ ht)
  split_ifs
  · exact evaluates_pure _
  · exact evaluates_overflow _ _

theorem durationSafeMul_fits (period : ℕ) (ratio : Ratio) (hp : period < 2 ^ timeBits)
    (ht : 0 < ratio.total) (hle : ratio.parts ≤ ratio.total) :
    (durationSafeMul period ratio : Outcome ε ℕ) = .ok (ratio.part period) := by
  have hl := part_le ratio period hle
  have hbits : 2 ^ timeBits ≤ 2 ^ amountBits := by decide
  rw [durationSafeMul, bind_ok]
  refine ⟨_, safeMul_fits _ _ _ ht (by omega), ?_⟩
  rw [if_pos (by omega)]
  rfl

theorem pay_evaluates (rate : Ratio) (principal payment period : ℕ) (ht : 0 < rate.total) :
    Evaluates (pay rate principal payment period : Outcome ε (ℕ × ℕ))
      (paidFor (accruedOn rate principal period) payment period,
        payment - accruedOn rate principal period) := by
  apply evaluates_bind _ _ _ _ (interest_evaluates rate principal period ht)
  split_ifs with h0
  · rw [h0]
    exact evaluates_pure _
  · have hpos := Nat.pos_of_ne_zero h0
    apply evaluates_bind _ _ _ _ (durationSafeMul_evaluates _ _ hpos)
    apply evaluates_bind _ _ _ _ (nativeSub_evaluates _ _ (min_le_right _ _))
    have hchange : payment - min (accruedOn rate principal period) payment =
        payment - accruedOn rate principal period := by omega
    rw [hchange, paidFor, if_neg h0]
    exact evaluates_pure _

theorem pay_fits (rate : Ratio) (principal payment period : ℕ) (ht : 0 < rate.total)
    (hp : period < 2 ^ timeBits) (h1 : rate.part principal < 2 ^ amountBits)
    (h2 : accruedOn rate principal period < 2 ^ amountBits) :
    (pay rate principal payment period : Outcome ε (ℕ × ℕ)) =
      .ok (paidFor (accruedOn rate principal period) payment period,
        payment - accruedOn rate principal period) := by
  simp only [pay, bind_ok]
  refine ⟨_, interest_fits rate principal period ht h1 h2, ?_⟩
  split_ifs with h0
  · simp [paidFor, h0]
  · simp only [bind_ok, pure_ok, Prod.mk.injEq, nativeSub_ok]
    refine ⟨_, durationSafeMul_fits _ _ hp (Nat.pos_of_ne_zero h0) (min_le_left _ _), _,
      ⟨min_le_right _ _, rfl⟩, ?_, by omega⟩
    rw [paidFor, if_neg h0]
    rfl

end Nolus.Interest
