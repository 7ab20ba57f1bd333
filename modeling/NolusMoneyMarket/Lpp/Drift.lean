import NolusMoneyMarket.Lpp.Ledger

/-! # Drift of the aggregate interest

The interest of the loans is the source of truth while the pool accrues one
aggregate. Accruals are compared exactly, in units of interest times the
nanoseconds of a year. An opening loses less than one unit of interest to the
floor of the aggregate; a repayment may lose another one to the conversion of
the payment into time. The annual amounts of the two never drift. -/

set_option autoImplicit false

namespace Nolus.LppDrift
open Nolus.Fallible Nolus.Fraction Nolus.Interest Nolus.LppLoan Nolus.LppTotal
open Nolus.LppPool Nolus.LppEffects Nolus.LppLedger Nolus.KeyedStore Nolus.Runs

/-- The interest of a loan accrued by a time, multiplied by the length of a year. -/
def backlog (now : ℕ) (loan : Loan) : ℕ := loan.annualInterest * (now - loan.interestPaid)

theorem accrued_le (annual period : ℕ) : accrued annual period * year ≤ annual * period :=
  Nat.div_mul_le_self _ _

theorem lt_accrued_succ (annual period : ℕ) :
    annual * period < (accrued annual period + 1) * year := by
  rw [accrued, Nat.mul_comm _ year]
  exact Nat.lt_mul_div_succ _ year_pos

theorem due_le_backlog (loan : Loan) (now : ℕ) : loan.due now * year ≤ backlog now loan :=
  accrued_le _ _

/-- Paying a part of the interest takes from the backlog at least that part, up to one unit. -/
theorem backlog_paid (annual period payment : ℕ) (ha : annual ≤ year) :
    annual * (period - paidFor (accrued annual period) payment period) +
        min (accrued annual period) payment * year ≤ annual * period + year := by
  have hfloor := accrued_le annual period
  have hmin : min (accrued annual period) payment ≤ accrued annual period := min_le_left _ _
  by_cases h0 : accrued annual period = 0
  · simp [h0, paidFor]
  · have hpos := Nat.pos_of_ne_zero h0
    have hcover := Nat.lt_mul_div_succ (period * min (accrued annual period) payment) hpos
    have hle := paidFor_le (accrued annual period) payment period
    rw [paidFor, if_neg h0] at hle ⊢
    generalize min (accrued annual period) payment = paid at *
    generalize accrued annual period = due at *
    generalize period * paid / due = covered at *
    obtain ⟨rest, hrest⟩ := Nat.exists_eq_add_of_le hle
    have hsplit : period - covered = rest := by omega
    rw [hsplit]
    have hkey : paid * year ≤ annual * (covered + 1) := by
      apply Nat.le_of_mul_le_mul_right _ hpos
      calc paid * year * due = due * year * paid := by ring
        _ ≤ annual * period * paid := Nat.mul_le_mul_right _ hfloor
        _ = annual * (period * paid) := by ring
        _ ≤ annual * (due * (covered + 1)) := Nat.mul_le_mul_left _ hcover.le
        _ = annual * (covered + 1) * due := by ring
    rw [hrest]
    nlinarith

theorem repaid_annual_le (loan : Loan) (now payment : ℕ) :
    (loan.repaid now payment).annualInterest +
        loan.rate.part (loan.shares now payment).principal ≤ loan.annualInterest := by
  have hsum := part_add_le loan.rate (loan.principalDue - (loan.shares now payment).principal)
    (loan.shares now payment).principal
  rw [Nat.sub_add_cancel (principal_paid_le loan now payment)] at hsum
  exact hsum

theorem repaid_backlog (loan : Loan) (now payment : ℕ) (ha : loan.annualInterest ≤ year) :
    backlog now (loan.repaid now payment) + (loan.shares now payment).interest * year ≤
      backlog now loan + year := by
  have hrate := repaid_annual_le loan now payment
  have hpaid := backlog_paid loan.annualInterest (now - loan.interestPaid) payment ha
  have hperiod : now - (loan.repaid now payment).interestPaid =
      now - loan.interestPaid -
        paidFor (accrued loan.annualInterest (now - loan.interestPaid)) payment
          (now - loan.interestPaid) := by
    show now - (loan.interestPaid + _) = _
    rw [Nat.sub_add_eq]
    rfl
  have hle : backlog now (loan.repaid now payment) ≤ loan.annualInterest *
      (now - loan.interestPaid - paidFor (accrued loan.annualInterest (now - loan.interestPaid))
        payment (now - loan.interestPaid)) := by
    rw [backlog, hperiod]
    exact Nat.mul_le_mul_right _ (by omega)
  exact (Nat.add_le_add_right hle _).trans hpaid

theorem repaid_interestPaid_le (loan : Loan) (now payment : ℕ) (h : loan.interestPaid ≤ now) :
    (loan.repaid now payment).interestPaid ≤ now := by
  have hle := paidFor_le (loan.due now) payment (now - loan.interestPaid)
  show loan.interestPaid + _ ≤ now
  omega

def Modest (loan : Loan) : Prop := loan.annualInterest ≤ year

/-- The annual interest of the loans is covered by that of the totals, and the backlog of
the loans exceeds the interest of the totals by at most two units for an operation. -/
structure Drift (n : ℕ) (pool : Pool) : Prop where
  ledger : Ledger pool
  modest : All Modest pool.loans
  annual : sum Loan.annualInterest pool.loans ≤ pool.total.annualInterest
  paid : All (fun loan => loan.interestPaid ≤ pool.total.lastUpdateTime) pool.loans
  backlog : sum (backlog pool.total.lastUpdateTime) pool.loans ≤
    (pool.total.totalInterestDue + 2 * n) * year

theorem backlog_later (loans : Repo) (t u : ℕ) (h : t ≤ u)
    (hp : All (fun loan => loan.interestPaid ≤ t) loans) :
    sum (backlog u) loans = sum (backlog t) loans + sum Loan.annualInterest loans * (u - t) := by
  rw [← sum_mul, ← sum_add]
  apply sum_congr
  intro k loan hl
  have hle := hp k loan hl
  have hsplit : u - loan.interestPaid = t - loan.interestPaid + (u - t) := by omega
  simp only [backlog, hsplit, Nat.mul_add]

theorem annual_le_total (n : ℕ) (pool : Pool) (lease : Addr) (loan : Loan) (hd : Drift n pool)
    (h : pool.loans.lookup lease = some loan) :
    loan.annualInterest ≤ pool.total.annualInterest :=
  (le_sum Loan.annualInterest pool.loans lease loan h).trans hd.annual

theorem backlog_by (n : ℕ) (pool : Pool) (t : ℕ) (ht : pool.total.lastUpdateTime ≤ t)
    (h : Drift n pool) :
    sum (LppDrift.backlog t) pool.loans ≤ (pool.total.totalInterestDue + 2 * n) * year +
      pool.total.annualInterest * (t - pool.total.lastUpdateTime) := by
  rw [backlog_later _ _ _ ht h.paid]
  exact Nat.add_le_add h.backlog (Nat.mul_le_mul_right _ h.annual)

theorem backlog_accrued (n : ℕ) (pool : Pool) (t : ℕ) (ht : pool.total.lastUpdateTime ≤ t)
    (h : Drift n pool) :
    sum (LppDrift.backlog t) pool.loans ≤ (pool.total.interestBy t + 2 * n + 1) * year := by
  have hb := backlog_by n pool t ht h
  have hf := lt_accrued_succ pool.total.annualInterest (t - pool.total.lastUpdateTime)
  simp only [Total.interestBy]
  nlinarith

theorem interest_by_drift (n : ℕ) (pool : Pool) (t : ℕ) (ht : pool.total.lastUpdateTime ≤ t)
    (h : Drift n pool) :
    sum (fun loan => loan.due t) pool.loans ≤ pool.total.interestBy t + 2 * n := by
  have hb := backlog_by n pool t ht h
  have hdue : sum (fun loan => loan.due t) pool.loans * year ≤
      sum (LppDrift.backlog t) pool.loans := by
    rw [← sum_mul]
    apply sum_le_sum
    intro k loan _
    exact due_le_backlog loan t
  have hf := lt_accrued_succ pool.total.annualInterest (t - pool.total.lastUpdateTime)
  have hlt : sum (fun loan => loan.due t) pool.loans * year <
      (pool.total.interestBy t + 2 * n + 1) * year := by
    simp only [Total.interestBy]
    nlinarith
  have h1 := Nat.lt_of_mul_lt_mul_right hlt
  omega

theorem opened_annual (old next : Total) (now amount rate : ℕ) (ha : 0 < amount)
    (h : Borrowed old now amount rate next) :
    next.annualInterest = old.annualInterest + (percent rate).part amount := by
  rw [Total.annualInterest, h.principal, h.rate]
  exact Nat.mul_div_cancel_left _ (by omega)

theorem opened_drift (n : ℕ) (old next : Pool) (now : ℕ) (lease : Addr)
    (amount rate funds : ℕ) (h : LoanOpened old now lease amount rate funds next)
    (hm : All Modest next.loans) (hd : Drift n old) : Drift (n + 1) next := by
  have hledger := opened_ledger _ _ _ _ _ _ _ h hd.ledger
  obtain ⟨htime, hlast⟩ := h.total.time
  constructor
  · exact hledger
  · exact hm
  · have hannual := opened_annual _ _ _ _ _ h.amount_pos h.total
    have hold := hd.annual
    rw [h.loans, sum_insert_new _ _ _ _ h.fresh, hannual]
    show (percent rate).part amount + _ ≤ _
    omega
  · rw [h.loans, hlast]
    apply all_insert
    · intro k loan hl
      exact (hd.paid k loan hl).trans htime
    · exact le_refl _
  · have hold := backlog_accrued n old now htime hd
    have hfresh : LppDrift.backlog now ⟨amount, rate, now⟩ = 0 := by simp [LppDrift.backlog]
    rw [h.loans, hlast, sum_insert_new _ _ _ _ h.fresh, hfresh, h.total.interest]
    nlinarith

theorem repaid_sum_le (f : Loan → ℕ) (old next : Pool) (now : ℕ) (lease : Addr) (loan : Loan)
    (payment : ℕ) (h : LoanRepaid old now lease loan payment next) :
    sum f next.loans ≤ f (loan.repaid now payment) + sum f (old.loans.erase lease) := by
  rw [h.loans]
  split_ifs
  · exact Nat.le_add_left _ _
  · rw [sum_insert]

theorem repaid_annual (old next : Total) (now i p r : ℕ) (h : Repaid old now i p r next)
    (hpos : 0 < next.totalPrincipalDue) :
    next.annualInterest = old.annualInterest - (percent r).part p := by
  have hprincipal := h.principal
  rw [Total.annualInterest, h.rate, Total.rateAfter, if_neg (by omega), h.principal]
  exact Nat.mul_div_cancel_left _ (by omega)

theorem no_principal_no_annual (pool : Pool) (hl : Ledger pool)
    (h : pool.total.totalPrincipalDue = 0) : sum Loan.annualInterest pool.loans = 0 := by
  rw [← sum_zero pool.loans]
  apply sum_congr
  intro k loan hk
  have hle := principal_le_total pool k loan hl hk
  have hpos := hl.positive k loan hk
  omega

theorem repaid_drift (n : ℕ) (old next : Pool) (now : ℕ) (lease : Addr) (loan : Loan)
    (payment : ℕ) (h : LoanRepaid old now lease loan payment next)
    (hm : All Modest next.loans) (hd : Drift n old) : Drift (n + 1) next := by
  have hledger := repaid_ledger _ _ _ _ _ _ h hd.ledger
  obtain ⟨htime, hlast⟩ := h.total.time
  have hmodest := hd.modest lease loan h.found
  have hpaid := hd.paid lease loan h.found
  constructor
  · exact hledger
  · exact hm
  · rcases Nat.eq_zero_or_pos next.total.totalPrincipalDue with h0 | hpos
    · rw [no_principal_no_annual next hledger h0]
      exact Nat.zero_le _
    · have hnew := repaid_sum_le Loan.annualInterest _ _ _ _ _ _ h
      have hall := sum_erase Loan.annualInterest old.loans lease loan h.found
      have hone := repaid_annual_le loan now payment
      have hold := hd.annual
      rw [repaid_annual _ _ _ _ _ _ h.total hpos]
      show _ ≤ _ - loan.rate.part _
      omega
  · have hrest : All (fun l => l.interestPaid ≤ now) old.loans := by
      intro k l hl
      exact (hd.paid k l hl).trans htime
    rw [h.loans, hlast]
    split_ifs
    · exact all_erase _ _ _ hrest
    · exact all_insert _ _ _ _ hrest
        (repaid_interestPaid_le loan now payment (hpaid.trans htime))
  · have hnew := repaid_sum_le (LppDrift.backlog now) _ _ _ _ _ _ h
    have hall := sum_erase (LppDrift.backlog now) old.loans lease loan h.found
    have hone := repaid_backlog loan now payment hmodest
    have hold := backlog_accrued n old now htime hd
    rw [hlast, h.total.interest]
    have hsat : old.total.interestBy now ≤
        old.total.interestBy now - (loan.shares now payment).interest +
          (loan.shares now payment).interest := by omega
    have hscaled := Nat.mul_le_mul_right year hsat
    nlinarith

theorem same_loans_drift (n : ℕ) (old next : Pool) (ht : next.total = old.total)
    (hl : next.loans = old.loans) (hn : Ledger next) (h : Drift n old) : Drift n next := by
  constructor
  · exact hn
  · rw [hl]
    exact h.modest
  · rw [hl, ht]
    exact h.annual
  · rw [hl, ht]
    exact h.paid
  · rw [hl, ht]
    exact h.backlog

theorem effect_drift (n : ℕ) (old next : Pool) (now : ℕ) (loanOp : Bool)
    (h : Effect now old next loanOp) (hm : All Modest next.loans) (hd : Drift n old) :
    Drift (n + if loanOp then 1 else 0) next := by
  have hledger := effect_ledger _ _ _ _ h hd.ledger
  cases h with
  | opened lease amount rate funds h => exact opened_drift _ _ _ _ _ _ _ _ h hm hd
  | repaid lease loan payment h => exact repaid_drift _ _ _ _ _ _ _ h hm hd
  | deposited amount h => exact same_loans_drift _ _ _ h.total h.loans hledger hd
  | withdrawn burnt funds paid h => exact same_loans_drift _ _ _ h.total h.loans hledger hd
  | idle h => exact same_loans_drift _ _ _ h.total h.loans hledger hd

def ModestStep (chain : Chain) (label : ℕ × Event) (next : Chain) : Prop :=
  Step chain label next ∧ All Modest next.pool.loans

theorem empty_drift (chain : Chain) (h : Empty chain) : Drift 0 chain.pool := by
  have hledger := (empty_sound chain h).ledger
  obtain ⟨-, hl, -⟩ := h
  constructor
  · exact hledger
  · rw [hl]
    exact all_empty _
  · rw [hl, sum_empty]
    exact Nat.zero_le _
  · rw [hl]
    exact all_empty _
  · rw [hl, sum_empty]
    exact Nat.zero_le _

def loanOperations (labels : List (ℕ × Event)) : ℕ := labels.countP fun l => loanOperation l.2

theorem run_drift (start chain : Chain) (labels : List (ℕ × Event)) (he : Empty start)
    (h : Run ModestStep start labels chain) :
    Sound chain ∧ Drift (loanOperations labels) chain.pool := by
  apply run_preserves_counted (fun l : ℕ × Event => loanOperation l.2)
    (fun n c => Sound c ∧ Drift n c.pool) ?_ start chain labels h
  · exact ⟨empty_sound start he, empty_drift start he⟩
  · intro n c label next hstep hc
    have heff := step_effect _ _ _ hstep.1 hc.1
    exact ⟨step_sound _ _ _ hstep.1 hc.1, effect_drift _ _ _ _ _ heff hstep.2 hc.2⟩

theorem modest_due_lt (loan : Loan) (now : ℕ) (hm : Modest loan) (ht : now < 2 ^ timeBits) :
    loan.due now < 2 ^ amountBits := by
  have hle : loan.due now ≤ now - loan.interestPaid := by
    apply Nat.div_le_of_le_mul
    exact Nat.mul_le_mul_right _ hm
  have hbits : 2 ^ timeBits ≤ 2 ^ amountBits := by decide
  omega

/-- After n loan operations the interest due by the loans exceeds the interest the pool
reports by at most 2n, and the annual interest of a repaid principal never exceeds the
annual interest it is subtracted from. -/
theorem pool_interest_drift (start chain : Chain) (labels : List (ℕ × Event))
    (he : Empty start) (h : Run ModestStep start labels chain) :
    (∀ now total, chain.time ≤ now → now < 2 ^ timeBits →
        (chain.pool.total.totalInterestDueByNow now : Outcome ContractError ℕ) = .ok total →
        All (fun loan => (loan.interestDue now : Outcome ContractError ℕ) = .ok (loan.due now))
            chain.pool.loans ∧
          sum (fun loan => loan.due now) chain.pool.loans ≤
            total + 2 * loanOperations labels) ∧
      ∀ lease loan repaid shares now payment annual paid,
        chain.pool.loans.lookup lease = some loan →
        (loan.repay now payment : Outcome ContractError (Loan × RepayShares)) =
          .ok (repaid, shares) →
        (chain.pool.total.annualInterestRate.of chain.pool.total.totalPrincipalDue :
          Outcome ContractError ℕ) = .ok annual →
        ((percent loan.annualInterestRate).of shares.principal : Outcome ContractError ℕ) =
          .ok paid →
        paid ≤ annual := by
  obtain ⟨hs, hd⟩ := run_drift start chain labels he h
  constructor
  · intro now total hnow hbits htotal
    have hdue := (totalInterestDueByNow_ok _ _ _ hs.ledger.proper htotal).2
    constructor
    · intro lease loan hl
      have hm := hd.modest lease loan hl
      have hannual : loan.annualInterest < 2 ^ amountBits :=
        lt_of_le_of_lt hm (by decide)
      exact interestDue_fits loan now hannual (modest_due_lt loan now hm hbits)
    · rw [hdue]
      exact interest_by_drift _ _ _ (hs.time.trans hnow) hd
  · intro lease loan repaid shares now payment annual paid hl hr ha hp
    have hannual := of_ok _ _ _ hs.ledger.proper ha
    have hpaid := of_ok _ _ _ (percent_total_pos _) hp
    have hshares := (LppLoan.repay_ok _ _ _ _ _ hr).2
    have hcover := annual_le_total _ _ _ _ hd hl
    have hone := repaid_annual_le loan now payment
    rw [hannual, hpaid, hshares]
    exact (Nat.le_of_add_left_le hone).trans hcover

def sampleCalls : List (ℕ × Event) := [sampleDeposit, sampleOpening, sampleSecond, samplePayment]

theorem sample_modest_run : Run ModestStep sampleEmpty sampleCalls sampleHalved := by
  have hempty : All Modest (∅ : Repo) := all_empty _
  have hopened : All Modest sampleOpened.pool.loans :=
    all_insert _ _ _ _ hempty (by unfold Modest; decide)
  have hboth : All Modest sampleBoth.pool.loans :=
    all_insert _ _ _ _ hopened (by unfold Modest; decide)
  have hhalved : All Modest sampleHalved.pool.loans :=
    all_insert _ _ _ _ (all_insert _ _ _ _ hempty (by unfold Modest; decide))
      (by unfold Modest; decide)
  apply Run.next _ sampleBoth _ [sampleDeposit, sampleOpening, sampleSecond] _ _
    ⟨sample_payment, hhalved⟩
  apply Run.next _ sampleOpened _ [sampleDeposit, sampleOpening] _ _ ⟨sample_second, hboth⟩
  apply Run.next _ sampleDeposited _ [sampleDeposit] _ _ ⟨sample_opening, hopened⟩
  exact run_one _ _ _ ⟨sample_deposit, hempty⟩

theorem pool_interest_drift_halved :
    (∀ now total, sampleHalved.time ≤ now → now < 2 ^ timeBits →
        (sampleHalved.pool.total.totalInterestDueByNow now : Outcome ContractError ℕ) =
          .ok total →
        All (fun loan => (loan.interestDue now : Outcome ContractError ℕ) = .ok (loan.due now))
            sampleHalved.pool.loans ∧
          sum (fun loan => loan.due now) sampleHalved.pool.loans ≤
            total + 2 * loanOperations sampleCalls) ∧
      ∀ lease loan repaid shares now payment annual paid,
        sampleHalved.pool.loans.lookup lease = some loan →
        (loan.repay now payment : Outcome ContractError (Loan × RepayShares)) =
          .ok (repaid, shares) →
        (sampleHalved.pool.total.annualInterestRate.of
          sampleHalved.pool.total.totalPrincipalDue : Outcome ContractError ℕ) = .ok annual →
        ((percent loan.annualInterestRate).of shares.principal : Outcome ContractError ℕ) =
          .ok paid →
        paid ≤ annual :=
  pool_interest_drift sampleEmpty sampleHalved _ ⟨rfl, rfl, rfl⟩ sample_modest_run

end Nolus.LppDrift
