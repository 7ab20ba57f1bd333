import NolusMoneyMarket.Lpp.Drift

/-! # The interest left past the last loan

The pool accrues one interest for all the loans and each loan accrues its own,
both rounded down. What the pool accrues above the loans is bounded in units of
interest times the nanoseconds of a year: a repayment leaves less than one unit
of the interest behind, and at most one unit of the annual interest, for all the
time since. -/

set_option autoImplicit false

namespace Nolus.LppResidue
open Nolus.Fallible Nolus.Fraction Nolus.Interest Nolus.Prices Nolus.LppLoan Nolus.LppTotal
open Nolus.LppPool Nolus.LppEffects Nolus.LppLedger Nolus.LppDrift Nolus.KeyedStore Nolus.Runs

/-- Paying a part of the interest takes from the backlog at most that part and one unit. -/
theorem backlog_kept (annual period payment : ℕ) (h : payment < accrued annual period) :
    annual * period ≤
      annual * (period - paidFor (accrued annual period) payment period) + payment * year + year := by
  have hceil := lt_accrued_succ annual period
  have hle := paidFor_le (accrued annual period) payment period
  have hdue : accrued annual period ≠ 0 := by omega
  rw [paidFor, if_neg hdue, min_eq_right h.le] at hle ⊢
  generalize accrued annual period = due at *
  have hcovered := Nat.div_mul_le_self (period * payment) due
  generalize period * payment / due = covered at *
  obtain ⟨rest, hrest⟩ := Nat.exists_eq_add_of_le hle
  have hpos : 0 < due := by omega
  have hkey : annual * covered ≤ (payment + 1) * year := by
    apply Nat.le_of_mul_le_mul_right _ hpos
    calc annual * covered * due = annual * (covered * due) := by ring
      _ ≤ annual * (period * payment) := Nat.mul_le_mul_left _ hcovered
      _ = annual * period * payment := by ring
      _ ≤ (due + 1) * year * payment := Nat.mul_le_mul_right _ hceil.le
      _ ≤ (payment + 1) * year * due := by nlinarith
  have hsplit : period - covered = rest := by omega
  rw [hsplit, hrest]
  nlinarith

theorem repaid_backlog_kept (loan : Loan) (now payment : ℕ) :
    backlog now loan ≤
      backlog now (loan.repaid now payment) + (loan.shares now payment).interest * year + year := by
  by_cases h : payment < loan.due now
  · have hinterest : (loan.shares now payment).interest = payment := min_eq_right h.le
    have hprincipal : (loan.shares now payment).principal = 0 := by
      simp only [Loan.shares]
      omega
    have hperiod : now - (loan.repaid now payment).interestPaid =
        now - loan.interestPaid - paidFor (loan.due now) payment (now - loan.interestPaid) := by
      show now - (loan.interestPaid + _) = _
      omega
    have hannual : (loan.repaid now payment).annualInterest = loan.annualInterest := by
      simp only [Loan.annualInterest, Loan.rate, Loan.repaid, hprincipal, Nat.sub_zero]
    rw [backlog, backlog, hperiod, hannual, hinterest]
    exact backlog_kept _ _ _ h
  · have hinterest : (loan.shares now payment).interest = loan.due now :=
      min_eq_left (Nat.le_of_not_lt h)
    have hceil := lt_accrued_succ loan.annualInterest (now - loan.interestPaid)
    rw [hinterest, backlog]
    change _ < (loan.due now + 1) * year at hceil
    nlinarith

theorem part_le_add (ratio : Ratio) (a b : ℕ) (h : 0 < ratio.total) :
    ratio.part (a + b) ≤ ratio.part a + ratio.part b + 1 := by
  simp only [Ratio.part, Nat.add_mul]
  have ha := Nat.lt_mul_div_succ (a * ratio.parts) h
  have hb := Nat.lt_mul_div_succ (b * ratio.parts) h
  rw [← Nat.lt_add_one_iff]
  apply Nat.div_lt_of_lt_mul
  nlinarith

theorem repaid_annual_kept (loan : Loan) (now payment : ℕ) :
    loan.annualInterest ≤ (loan.repaid now payment).annualInterest +
      loan.rate.part (loan.shares now payment).principal + 1 := by
  have hsum := part_le_add loan.rate (loan.principalDue - (loan.shares now payment).principal)
    (loan.shares now payment).principal loan.rate_total_pos
  rw [Nat.sub_add_cancel (principal_paid_le loan now payment)] at hsum
  exact hsum

theorem repaid_sum (f : Loan → ℕ) (old next : Pool) (now : ℕ) (lease : Addr) (loan : Loan)
    (payment : ℕ) (h : LoanRepaid old now lease loan payment next)
    (hf : ∀ loan : Loan, loan.principalDue = 0 → f loan = 0) :
    sum f next.loans = f (loan.repaid now payment) + sum f (old.loans.erase lease) := by
  rw [h.loans]
  split_ifs with h0
  · rw [hf _ h0, Nat.zero_add]
  · rw [sum_insert]

theorem no_principal_annual (loan : Loan) (h : loan.principalDue = 0) :
    loan.annualInterest = 0 := by
  simp [Loan.annualInterest, Ratio.part, h]

theorem no_principal_backlog (now : ℕ) (loan : Loan) (h : loan.principalDue = 0) :
    backlog now loan = 0 := by
  simp [backlog, no_principal_annual loan h]

/-- What the pool accrues above the loans, after a number of repayments since a time. -/
structure Residual (start n : ℕ) (pool : Pool) : Prop where
  ledger : Ledger pool
  started : n = 0 ∨ start ≤ pool.total.lastUpdateTime
  paid : All (fun loan => loan.interestPaid ≤ pool.total.lastUpdateTime) pool.loans
  annual : pool.total.annualInterest ≤ sum Loan.annualInterest pool.loans + n
  interest : pool.total.totalInterestDue * year ≤
    sum (backlog pool.total.lastUpdateTime) pool.loans +
      n * (year + (pool.total.lastUpdateTime - start))

theorem interest_by_residual (start n : ℕ) (pool : Pool) (t : ℕ)
    (ht : pool.total.lastUpdateTime ≤ t) (h : Residual start n pool) :
    pool.total.interestBy t * year ≤ sum (backlog t) pool.loans + n * (year + (t - start)) := by
  have hfloor := accrued_le pool.total.annualInterest (t - pool.total.lastUpdateTime)
  have hannual := Nat.mul_le_mul_right (t - pool.total.lastUpdateTime) h.annual
  have hinterest := h.interest
  have helapsed : n * (pool.total.lastUpdateTime - start) + n * (t - pool.total.lastUpdateTime) =
      n * (t - start) := by
    rcases h.started with rfl | hstart
    · simp
    · rw [← Nat.mul_add]
      congr 1
      omega
  rw [backlog_later _ _ _ ht h.paid, Total.interestBy]
  nlinarith

theorem opened_residual (start n : ℕ) (old next : Pool) (now : ℕ) (lease : Addr)
    (amount rate funds : ℕ) (h : LoanOpened old now lease amount rate funds next)
    (hr : Residual start n old) : Residual start n next := by
  obtain ⟨htime, hlast⟩ := h.total.time
  constructor
  · exact opened_ledger _ _ _ _ _ _ _ h hr.ledger
  · rw [hlast]
    rcases hr.started with h0 | hstart
    · exact .inl h0
    · exact .inr (hstart.trans htime)
  · rw [h.loans, hlast]
    apply all_insert
    · intro k loan hl
      exact (hr.paid k loan hl).trans htime
    · exact le_refl _
  · have hannual := opened_annual _ _ _ _ _ h.amount_pos h.total
    have hold := hr.annual
    rw [h.loans, sum_insert_new _ _ _ _ h.fresh, hannual]
    show _ ≤ (percent rate).part amount + _ + n
    omega
  · have hold := interest_by_residual start n old now htime hr
    have hfresh : LppDrift.backlog now ⟨amount, rate, now⟩ = 0 := by simp [LppDrift.backlog]
    rw [h.loans, hlast, sum_insert_new _ _ _ _ h.fresh, hfresh, h.total.interest, Nat.zero_add]
    exact hold

theorem repaid_residual (start n : ℕ) (old next : Pool) (now : ℕ) (lease : Addr) (loan : Loan)
    (payment : ℕ) (h : LoanRepaid old now lease loan payment next) (hstart : start ≤ now)
    (hr : Residual start n old) : Residual start (n + 1) next := by
  obtain ⟨htime, hlast⟩ := h.total.time
  have hpaid := hr.paid lease loan h.found
  constructor
  · exact repaid_ledger _ _ _ _ _ _ h hr.ledger
  · rw [hlast]
    exact .inr hstart
  · have hrest : All (fun l => l.interestPaid ≤ now) old.loans := by
      intro k l hl
      exact (hr.paid k l hl).trans htime
    rw [h.loans, hlast]
    split_ifs
    · exact all_erase _ _ _ hrest
    · exact all_insert _ _ _ _ hrest
        (repaid_interestPaid_le loan now payment (hpaid.trans htime))
  · rcases Nat.eq_zero_or_pos next.total.totalPrincipalDue with h0 | hpos
    · rw [Total.annualInterest, h0]
      simp [Ratio.part]
    · have hnew := repaid_sum Loan.annualInterest _ _ _ _ _ _ h no_principal_annual
      have hall := sum_erase Loan.annualInterest old.loans lease loan h.found
      have hone := repaid_annual_kept loan now payment
      have hold := hr.annual
      rw [repaid_annual _ _ _ _ _ _ h.total hpos]
      show _ - loan.rate.part _ ≤ _
      omega
  · have hnew := repaid_sum (LppDrift.backlog now) _ _ _ _ _ _ h (no_principal_backlog now)
    have hall := sum_erase (LppDrift.backlog now) old.loans lease loan h.found
    have hone := repaid_backlog_kept loan now payment
    have hold := interest_by_residual start n old now htime hr
    rw [hlast, h.total.interest, Nat.sub_mul, hnew]
    have hgrown : (n + 1) * (year + (now - start)) =
        n * (year + (now - start)) + year + (now - start) := by ring
    omega

theorem same_loans_residual (start n : ℕ) (old next : Pool) (ht : next.total = old.total)
    (hl : next.loans = old.loans) (hn : Ledger next) (h : Residual start n old) :
    Residual start n next := by
  constructor
  · exact hn
  · rw [ht]
    exact h.started
  · rw [hl, ht]
    exact h.paid
  · rw [hl, ht]
    exact h.annual
  · rw [hl, ht]
    exact h.interest

theorem residual_later (start n : ℕ) (pool : Pool) (hstart : start ≤ pool.total.lastUpdateTime)
    (h : Residual start n pool) : Residual start (n + 1) pool := by
  have hannual := h.annual
  have hinterest := h.interest
  constructor
  · exact h.ledger
  · exact .inr hstart
  · exact h.paid
  · omega
  · nlinarith

def repayment : Event → Bool
  | .execute ⟨_, _, _, .repayLoan⟩ => true
  | _ => false

theorem no_operation_no_repayment (event : Event) (h : loanOperation event = false) :
    repayment event = false := by
  unfold repayment
  split
  · cases h
  · rfl

theorem repaid_effect_residual (start n : ℕ) (old next : Pool) (now : ℕ)
    (h : Effect now old next true) (hstart : start ≤ now) (hr : Residual start n old) :
    Residual start (n + 1) next := by
  cases h with
  | opened lease amount rate funds h =>
    apply residual_later
    · rw [h.total.time.2]
      exact hstart
    · exact opened_residual _ _ _ _ _ _ _ _ _ h hr
  | repaid lease loan payment h => exact repaid_residual _ _ _ _ _ _ _ _ h hstart hr

theorem other_effect_residual (start n : ℕ) (old next : Pool) (now : ℕ)
    (h : Effect now old next false) (hr : Residual start n old) : Residual start n next := by
  have hledger := effect_ledger _ _ _ _ h hr.ledger
  cases h with
  | deposited amount h => exact same_loans_residual _ _ _ _ h.total h.loans hledger hr
  | withdrawn burnt funds paid h => exact same_loans_residual _ _ _ _ h.total h.loans hledger hr
  | idle h => exact same_loans_residual _ _ _ _ h.total h.loans hledger hr

theorem handle_residual (start n : ℕ) (pool next : Pool) (now : ℕ) (event : Event)
    (h : pool.handle now event = .ok next) (hstart : start ≤ now) (hr : Residual start n pool) :
    Residual start (n + if repayment event then 1 else 0) next := by
  have hproper := hr.ledger.proper
  have heff := handle_effect _ _ _ _ hproper h
  cases hop : loanOperation event with
  | false =>
    rw [hop] at heff
    rw [no_operation_no_repayment event hop]
    exact other_effect_residual _ _ _ _ _ heff hr
  | true =>
    rw [hop] at heff
    match event, hop with
    | .execute ⟨sender, code, funds, .openLoan amount⟩, _ =>
      obtain ⟨rate, hopened⟩ :=
        openLoan_opens pool next now ⟨sender, code, funds, .openLoan amount⟩ amount hproper rfl h
      exact opened_residual _ _ _ _ _ _ _ _ _ hopened hr
    | .execute ⟨sender, code, funds, .repayLoan⟩, _ =>
      exact repaid_effect_residual _ _ _ _ _ heff hstart hr

theorem borrow_fits (self next : Total) (ctime amount rate : ℕ)
    (h : self.borrow ctime amount rate = .ok next) : next.totalInterestDue < 2 ^ amountBits := by
  simp only [Total.borrow, Total.totalInterestDueByNow, bind_ok, coinAdd_ok, pure_ok] at h
  obtain ⟨i, ⟨_, _, _, _, hlt, rfl⟩, _, _, _, _, _, _, _, _, rfl⟩ := h
  exact hlt

theorem repay_fits (self next : Total) (ctime i p rate : ℕ)
    (h : (self.repay ctime i p rate : Outcome ContractError Total) = .ok next) :
    next.totalInterestDue < 2 ^ amountBits := by
  simp only [Total.repay, Total.totalInterestDueByNow, bind_ok, coinAdd_ok, pure_ok] at h
  obtain ⟨_, ⟨_, _, _, _, hlt, rfl⟩, _, _, _, _, rfl⟩ := h
  exact lt_of_le_of_lt (Nat.sub_le _ _) hlt

/-- The interest the totals keep is an amount. -/
theorem handle_fits (pool next : Pool) (now : ℕ) (event : Event) (hp : pool.total.Proper)
    (h : pool.handle now event = .ok next) (hfits : pool.total.totalInterestDue < 2 ^ amountBits) :
    next.total.totalInterestDue < 2 ^ amountBits := by
  have heff := handle_effect _ _ _ _ hp h
  cases hop : loanOperation event with
  | false =>
    rw [hop] at heff
    cases heff with
    | deposited amount h => rwa [h.total]
    | withdrawn burnt funds paid h => rwa [h.total]
    | idle h => rwa [h.total]
  | true =>
    match event, hop with
    | .execute ⟨sender, code, funds, .openLoan amount⟩, _ =>
      simp only [Pool.handle, Pool.execute, Pool.tryOpenLoan, bind_ok] at h
      obtain ⟨_, _, _, _, _, _, _, _, _, _, total, ht, h⟩ := h
      obtain ⟨-, rfl⟩ := sendLpn_ok _ _ _ h
      exact borrow_fits _ _ _ _ _ ht
    | .execute ⟨sender, code, funds, .repayLoan⟩, _ =>
      simp only [Pool.handle, Pool.execute, Pool.tryRepayLoan, bind_ok] at h
      obtain ⟨_, _, _, _, _, _, _, _, _, _, total, ht, h⟩ := h
      obtain ⟨-, rfl⟩ := sendLpn_ok _ _ _ h
      exact repay_fits _ _ _ _ _ _ ht

structure Kept (start n : ℕ) (chain : Chain) : Prop where
  sound : Sound chain
  started : start ≤ chain.time
  residual : Residual start n chain.pool
  fits : chain.pool.total.totalInterestDue < 2 ^ amountBits

theorem step_kept (start n : ℕ) (chain : Chain) (label : ℕ × Event) (next : Chain)
    (h : Step chain label next) (hk : Kept start n chain) :
    Kept start (n + if repayment label.2 then 1 else 0) next := by
  have hstart := hk.started.trans h.1
  constructor
  · exact step_sound _ _ _ h hk.sound
  · rw [h.2.2]
    exact hstart
  · exact handle_residual _ _ _ _ _ _ h.2.1 hstart hk.residual
  · exact handle_fits _ _ _ _ hk.sound.ledger.proper h.2.1 hk.fits

theorem empty_kept (chain : Chain) (h : Empty chain) : Kept chain.time 0 chain := by
  have hs := empty_sound chain h
  obtain ⟨ht, hl, -⟩ := h
  constructor
  · exact hs
  · exact le_refl _
  · constructor
    · exact hs.ledger
    · exact .inl rfl
    · rw [hl]
      exact all_empty _
    · rw [ht]
      exact Nat.zero_le _
    · rw [ht]
      exact Nat.zero_le _
  · rw [ht]
    decide

def repayments (labels : List (ℕ × Event)) : ℕ := labels.countP fun l => repayment l.2

theorem run_kept (start chain : Chain) (labels : List (ℕ × Event)) (he : Empty start)
    (h : Run Step start labels chain) : Kept start.time (repayments labels) chain :=
  run_preserves_counted (fun l : ℕ × Event => repayment l.2) (Kept start.time)
    (fun n => step_kept start.time n) start chain labels h (empty_kept start he)

theorem no_loans_residue (start n : ℕ) (pool : Pool) (hl : pool.loans = ∅)
    (h : Residual start n pool) : pool.total.totalPrincipalDue = 0 ∧
      pool.total.totalInterestDue * year ≤ n * (year + (pool.total.lastUpdateTime - start)) := by
  have hprincipal := h.ledger.principal
  have hinterest := h.interest
  rw [hl, sum_empty] at hprincipal hinterest
  exact ⟨hprincipal, by omega⟩

theorem no_principal_interest (self : Total) (now : ℕ) (hp : self.Proper)
    (h0 : self.totalPrincipalDue = 0) (ht : self.lastUpdateTime ≤ now)
    (hf : self.totalInterestDue < 2 ^ amountBits) :
    (self.totalInterestDueByNow now : Outcome ContractError ℕ) = .ok self.totalInterestDue := by
  have haccrued : ∀ period, accruedOn self.annualInterestRate 0 period = 0 := by
    intro period
    simp [accruedOn, Ratio.part, accrued]
  have hpart : self.annualInterestRate.part 0 < 2 ^ amountBits := by simp [Ratio.part]
  have hzero : ∀ period, (interest self.annualInterestRate 0 period : Outcome ContractError ℕ) =
      .ok 0 := by
    intro period
    have hfits := @interest_fits ContractError self.annualInterestRate 0 period hp hpart
      (by rw [haccrued]; decide)
    rwa [haccrued] at hfits
  simp only [Total.totalInterestDueByNow, bind_ok, between, nativeSub_ok, coinAdd_ok, h0]
  exact ⟨_, ⟨ht, rfl⟩, 0, hzero _, by omega, by omega⟩

/-- The whole supply at a price over it makes the whole worth. -/
theorem total_supply (supply worth : ℕ) (hs : 0 < supply) (hf : worth < 2 ^ amountBits) :
    ∃ price, (Price.new supply worth : Outcome ContractError Price) = .ok price ∧
      (Prices.total supply price : Outcome ContractError ℕ) = .ok worth := by
  have hgcd : Nat.gcd supply worth ≠ 0 := Nat.gcd_ne_zero_left (by omega)
  obtain ⟨price, hprice⟩ : ∃ price,
      (Price.new supply worth : Outcome ContractError Price) = .ok price := by
    simp [Price.new, intoCoprimeWith, hgcd, pure, Except.pure, bind, Except.bind]
  have hpos := new_amount_pos supply worth price hs hprice
  obtain ⟨-, hamount, hquote⟩ := new_ok supply worth price hprice
  have hpart : Ratio.part ⟨supply, price.amount⟩ price.amountQuote = worth := by
    calc price.amountQuote * supply / price.amount
        = price.amountQuote * (price.amount * Nat.gcd supply worth) / price.amount := by
          rw [hamount]
      _ = price.amount * (price.amountQuote * Nat.gcd supply worth) / price.amount := by ring_nf
      _ = price.amountQuote * Nat.gcd supply worth := Nat.mul_div_cancel_left _ hpos
      _ = worth := hquote
  refine ⟨price, hprice, ?_⟩
  have hfits := @safeMul_fits ContractError amountBits price.amountQuote ⟨supply, price.amount⟩ hpos
    (by rw [hpart]; exact hf)
  rwa [hpart] at hfits

/-- The redemption of all receipts asks for the whole worth of the pool. -/
theorem redeem_all (pool : Pool) (now residue : ℕ) (h0 : pool.total.totalPrincipalDue = 0)
    (hi : (pool.total.totalInterestDueByNow now : Outcome ContractError ℕ) = .ok residue)
    (hs : 0 < pool.supply) (hf : pool.balance + residue < 2 ^ amountBits) :
    pool.withdrawLpn now pool.supply =
      if residue = 0 then .ok pool.balance else failing .noLiquidity := by
  have hworth : pool.totalLpn now 0 = .ok (pool.balance + residue) := by
    simp only [Pool.totalLpn, Pool.commitedBalance, Pool.totalDue, bind_ok, nativeSub_ok,
      coinAdd_ok, hi, h0, Except.ok.injEq]
    exact ⟨_, ⟨Nat.zero_le _, rfl⟩, residue, ⟨residue, rfl, by omega, by omega⟩, hf, rfl⟩
  obtain ⟨price, hprice, htotal⟩ := total_supply pool.supply _ hs hf
  have hcalculated : pool.calculatePrice now 0 = .ok price := by
    unfold Pool.calculatePrice
    have hsupply : pool.lenders.globals.balanceNlpn ≠ 0 := Nat.ne_of_gt hs
    rw [if_neg hsupply]
    exact (bind_ok _ _ _).2 ⟨_, hworth, hprice⟩
  have hredeemed : pool.withdrawLpn now pool.supply =
      if pool.balance < pool.balance + residue then failing .noLiquidity
      else pure (pool.balance + residue) := by
    unfold Pool.withdrawLpn
    rw [hcalculated]
    change (Prices.total pool.supply price >>= _) = _
    rw [htotal]
    rfl
  rw [hredeemed]
  by_cases hzero : residue = 0
  · subst hzero
    rw [if_neg (by omega), if_pos rfl]
    rfl
  · rw [if_pos (by omega), if_neg hzero]

/-- With no loan stored the interest of the totals is the same at every later time, and at most a
unit for each repayment so far and one more for each repayment and year. It is all that the worth
of the pool has above its balance, and the lenders can redeem all their receipts when it is zero. -/
theorem no_loans_interest (start chain : Chain) (labels : List (ℕ × Event)) (he : Empty start)
    (h : Run Step start labels chain) (hl : chain.pool.loans = ∅) :
    ∃ residue, residue * year ≤ repayments labels * (year + (chain.time - start.time)) ∧
      ∀ now, chain.time ≤ now →
        (chain.pool.total.totalInterestDueByNow now : Outcome ContractError ℕ) = .ok residue ∧
          chain.pool.worth now = chain.pool.balance + residue ∧
          (0 < chain.pool.supply → chain.pool.balance + residue < 2 ^ amountBits →
            chain.pool.withdrawLpn now chain.pool.supply =
              if residue = 0 then .ok chain.pool.balance else failing .noLiquidity) := by
  have hk := run_kept start chain labels he h
  obtain ⟨h0, hresidue⟩ := no_loans_residue _ _ _ hl hk.residual
  have htime := hk.sound.time
  have helapsed : year + (chain.pool.total.lastUpdateTime - start.time) ≤
      year + (chain.time - start.time) := by omega
  refine ⟨chain.pool.total.totalInterestDue, hresidue.trans (Nat.mul_le_mul_left _ helapsed), ?_⟩
  intro now hnow
  have hproper := hk.sound.ledger.proper
  have hinterest := no_principal_interest _ now hproper h0 (htime.trans hnow) hk.fits
  have hby := (totalInterestDueByNow_ok _ _ _ hproper hinterest).2
  refine ⟨hinterest, ?_, redeem_all _ _ _ h0 hinterest⟩
  rw [Pool.worth, h0, ← hby, Nat.zero_add]

def samplePartial : ℕ × Event := (10, .execute ⟨5, some 1, [⟨.lpn, 10⟩], .repayLoan⟩)

def sampleFull : ℕ × Event := (10 + year, .execute ⟨5, some 1, [⟨.lpn, 96⟩], .repayLoan⟩)

def samplePartlyRepaid : Chain :=
  ⟨⟨sampleConfig, 0, ⟨90, 0, ⟨7, 90⟩, 10⟩, AList.insert 5 ⟨90, 73, 10⟩ ∅, sampleLenders, 910, 0⟩,
    10⟩

def sampleRepaid : Chain :=
  ⟨⟨sampleConfig, 0, ⟨0, 1, zeroInterestRate, 10 + year⟩, ∅, sampleLenders, 1006, 0⟩, 10 + year⟩

theorem sample_partial : Step sampleOpened samplePartial samplePartlyRepaid :=
  ⟨by decide, rfl, rfl⟩

theorem sample_full : Step samplePartlyRepaid sampleFull sampleRepaid :=
  ⟨by decide, rfl, rfl⟩

def sampleRepayments : List (ℕ × Event) :=
  [sampleDeposit, sampleOpening] ++ [samplePartial] ++ [sampleFull]

theorem sample_repaid_run : Run Step sampleEmpty sampleRepayments sampleRepaid := by
  apply Run.next _ _ _ _ _ _ sample_full
  apply Run.next _ _ _ _ _ _ sample_partial
  exact Run.next _ sampleDeposited _ [sampleDeposit] _ (run_one _ _ _ sample_deposit) sample_opening

theorem no_loans_interest_repaid :
    ∃ residue, residue * year ≤
        repayments sampleRepayments * (year + (sampleRepaid.time - sampleEmpty.time)) ∧
      ∀ now, sampleRepaid.time ≤ now →
        (sampleRepaid.pool.total.totalInterestDueByNow now : Outcome ContractError ℕ) =
            .ok residue ∧
          sampleRepaid.pool.worth now = sampleRepaid.pool.balance + residue ∧
          (0 < sampleRepaid.pool.supply →
            sampleRepaid.pool.balance + residue < 2 ^ amountBits →
            sampleRepaid.pool.withdrawLpn now sampleRepaid.pool.supply =
              if residue = 0 then .ok sampleRepaid.pool.balance else failing .noLiquidity) :=
  no_loans_interest sampleEmpty sampleRepaid sampleRepayments ⟨rfl, rfl, rfl⟩ sample_repaid_run rfl

/-- Past a partial and a full repayment of the only loan there is a unit of interest left that
nobody owes, and the lender cannot redeem all the receipts. -/
theorem interest_of_no_loan :
    ∃ chain, Reachable Step Empty chain ∧ chain.pool.loans = ∅ ∧
      (chain.pool.total.totalInterestDueByNow chain.time : Outcome ContractError ℕ) = .ok 1 ∧
      chain.pool.worth chain.time = chain.pool.balance + 1 ∧
      chain.pool.withdrawLpn chain.time chain.pool.supply = failing .noLiquidity :=
  ⟨sampleRepaid, ⟨sampleEmpty, _, ⟨rfl, rfl, rfl⟩, sample_repaid_run⟩, rfl, rfl, by decide, rfl⟩

end Nolus.LppResidue
