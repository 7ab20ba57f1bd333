import NolusMoneyMarket.Lpp.Loan

/-! # Pool totals

The pool keeps one total principal, one total interest and one averaged annual
rate for all loans. Interest is accrued on every change; the payments of the
loans are the source of truth and are subtracted with saturation, the
principal is subtracted under an expectation. -/

set_option autoImplicit false

namespace Nolus.LppTotal
open Nolus.Fallible Nolus.Fraction Nolus.Interest Nolus.LppLoan

structure Total where
  totalPrincipalDue : ℕ
  totalInterestDue : ℕ
  annualInterestRate : Ratio
  lastUpdateTime : ℕ
deriving DecidableEq, Repr

def zeroInterestRate : Ratio := ⟨0, 1000⟩

def Total.new : Total := ⟨0, 0, zeroInterestRate, 0⟩

variable {ε : Type}

def Total.totalInterestDueByNow (self : Total) (ctime : ℕ) : Outcome ε ℕ := do
  let period ← between self.lastUpdateTime ctime
  let accruedNow ← interest self.annualInterestRate self.totalPrincipalDue period
  coinAdd accruedNow self.totalInterestDue

def Total.borrow (self : Total) (ctime amount loanInterestRate : ℕ) :
    Outcome ContractError Total := do
  let totalInterestDue ← self.totalInterestDueByNow ctime
  let newTotalPrincipalDue ← okOr (checkedAdd amountBits self.totalPrincipalDue amount)
    (.overflowError "Total principal due overflow")
  let annual ← self.annualInterestRate.of self.totalPrincipalDue
  let loanAnnual ← (percent loanInterestRate).of amount
  let newAnnualInterest ← okOr (checkedAdd amountBits annual loanAnnual)
    (.overflowError "Annual interest calculation overflow")
  pure ⟨newTotalPrincipalDue, totalInterestDue, ⟨newAnnualInterest, newTotalPrincipalDue⟩, ctime⟩

def principalUnderflow : Panic := .underflow
  "Unexpected overflow when subtracting loan principal payment from total principal due"

def Total.rateRepaid (self : Total)
    (newTotalPrincipalDue loanPrincipalPayment loanInterestRate : ℕ) : Outcome ε Ratio :=
  if newTotalPrincipalDue = 0 then pure zeroInterestRate
  else do
    let annual ← self.annualInterestRate.of self.totalPrincipalDue
    let loanAnnual ← (percent loanInterestRate).of loanPrincipalPayment
    pure ⟨annual - loanAnnual, newTotalPrincipalDue⟩

def Total.repay (self : Total)
    (ctime loanInterestPayment loanPrincipalPayment loanInterestRate : ℕ) :
    Outcome ε Total := do
  let interestDue ← self.totalInterestDueByNow ctime
  let newTotalPrincipalDue ← expect (checkedSub self.totalPrincipalDue loanPrincipalPayment)
    principalUnderflow
  let rate ← self.rateRepaid newTotalPrincipalDue loanPrincipalPayment loanInterestRate
  pure ⟨newTotalPrincipalDue, interestDue - loanInterestPayment, rate, ctime⟩

/-- The rate of the totals is a ratio over the total principal, hence its
denominator is never zero. -/
def Total.Proper (self : Total) : Prop := 0 < self.annualInterestRate.total

instance (self : Total) : Decidable self.Proper := Nat.decLt _ _

def Total.annualInterest (self : Total) : ℕ :=
  self.annualInterestRate.part self.totalPrincipalDue

def Total.interestBy (self : Total) (ctime : ℕ) : ℕ :=
  accrued self.annualInterest (ctime - self.lastUpdateTime) + self.totalInterestDue

theorem new_proper : Total.new.Proper := by decide

theorem interestBy_mono (self : Total) (t u : ℕ) (h : t ≤ u) :
    self.interestBy t ≤ self.interestBy u := by
  have hp : t - self.lastUpdateTime ≤ u - self.lastUpdateTime := by omega
  exact Nat.add_le_add_right (accrued_mono _ _ _ _ (le_refl _) hp) _

theorem interestBy_last (self : Total) :
    self.interestBy self.lastUpdateTime = self.totalInterestDue := by
  simp [Total.interestBy, accrued_zero]

theorem totalInterestDueByNow_evaluates (self : Total) (ctime : ℕ) (hp : self.Proper)
    (ht : self.lastUpdateTime ≤ ctime) :
    Evaluates (self.totalInterestDueByNow ctime : Outcome ε ℕ) (self.interestBy ctime) := by
  apply evaluates_bind _ _ _ _ (nativeSub_evaluates _ _ ht)
  apply evaluates_bind _ _ _ _ (interest_evaluates _ _ _ hp)
  exact coinAdd_evaluates _ _

theorem totalInterestDueByNow_ok (self : Total) (ctime v : ℕ) (hp : self.Proper)
    (h : (self.totalInterestDueByNow ctime : Outcome ε ℕ) = .ok v) :
    self.lastUpdateTime ≤ ctime ∧ v = self.interestBy ctime := by
  have ht : self.lastUpdateTime ≤ ctime := by
    simp only [Total.totalInterestDueByNow, bind_ok, between, nativeSub_ok] at h
    obtain ⟨_, ⟨ht, _⟩, _⟩ := h
    exact ht
  exact ⟨ht, evaluates_ok _ _ _ (totalInterestDueByNow_evaluates self ctime hp ht) h⟩

def Total.rateAfter (self : Total) (principal payment loanInterestRate : ℕ) : Ratio :=
  if principal = 0 then zeroInterestRate
  else ⟨self.annualInterest - (percent loanInterestRate).part payment, principal⟩

structure Borrowed (old : Total) (ctime amount loanInterestRate : ℕ) (next : Total) : Prop where
  time : old.lastUpdateTime ≤ ctime ∧ next.lastUpdateTime = ctime
  principal : next.totalPrincipalDue = old.totalPrincipalDue + amount
  interest : next.totalInterestDue = old.interestBy ctime
  rate : next.annualInterestRate = ⟨old.annualInterest + (percent loanInterestRate).part amount,
    old.totalPrincipalDue + amount⟩

structure Repaid (old : Total)
    (ctime loanInterestPayment loanPrincipalPayment loanInterestRate : ℕ) (next : Total) :
    Prop where
  time : old.lastUpdateTime ≤ ctime ∧ next.lastUpdateTime = ctime
  covered : loanPrincipalPayment ≤ old.totalPrincipalDue
  principal : next.totalPrincipalDue = old.totalPrincipalDue - loanPrincipalPayment
  interest : next.totalInterestDue = old.interestBy ctime - loanInterestPayment
  rate : next.annualInterestRate = old.rateAfter
    (old.totalPrincipalDue - loanPrincipalPayment) loanPrincipalPayment loanInterestRate

theorem borrow_ok (self next : Total) (ctime amount loanInterestRate : ℕ) (hp : self.Proper)
    (h : self.borrow ctime amount loanInterestRate = .ok next) :
    Borrowed self ctime amount loanInterestRate next := by
  simp only [Total.borrow, bind_ok, okOr_ok, checkedAdd_some, pure_ok] at h
  obtain ⟨i, hi, p, ⟨_, rfl⟩, a, ha, l, hl, n, ⟨_, rfl⟩, rfl⟩ := h
  obtain ⟨ht, rfl⟩ := totalInterestDueByNow_ok _ _ _ hp hi
  have hae := of_ok _ _ _ hp ha
  have hle := of_ok _ _ _ (percent_total_pos _) hl
  subst hae hle
  exact ⟨⟨ht, rfl⟩, rfl, rfl, rfl⟩

theorem rateRepaid_evaluates (self : Total) (n p r : ℕ) (hp : self.Proper) :
    Evaluates (self.rateRepaid n p r : Outcome ε Ratio) (self.rateAfter n p r) := by
  unfold Total.rateRepaid Total.rateAfter
  split_ifs
  · exact evaluates_pure _
  · apply evaluates_bind _ _ _ _ (of_evaluates _ _ hp)
    apply evaluates_bind _ _ _ _ (of_evaluates _ _ (percent_total_pos r))
    exact evaluates_pure _

theorem repay_evaluates (self : Total) (ctime i p r : ℕ) (hp : p ≤ self.totalPrincipalDue)
    (ht : self.lastUpdateTime ≤ ctime) (hr : self.Proper) :
    Evaluates (self.repay ctime i p r : Outcome ε Total)
      ⟨self.totalPrincipalDue - p, self.interestBy ctime - i,
        self.rateAfter (self.totalPrincipalDue - p) p r, ctime⟩ := by
  apply evaluates_bind _ _ _ _ (totalInterestDueByNow_evaluates self ctime hr ht)
  rw [checkedSub, if_pos hp]
  apply evaluates_bind _ _ _ _ (.inl rfl)
  apply evaluates_bind _ _ _ _ (rateRepaid_evaluates self _ p r hr)
  exact evaluates_pure _

theorem repay_ok (self next : Total) (ctime i p r : ℕ) (hp : self.Proper)
    (h : (self.repay ctime i p r : Outcome ε Total) = .ok next) :
    Repaid self ctime i p r next := by
  have hpre : self.lastUpdateTime ≤ ctime ∧ p ≤ self.totalPrincipalDue := by
    simp only [Total.repay, bind_ok, expect_ok, checkedSub_some] at h
    obtain ⟨n, hn, _, ⟨hc, _⟩, _⟩ := h
    exact ⟨(totalInterestDueByNow_ok _ _ _ hp hn).1, hc⟩
  have he := evaluates_ok _ _ _ (repay_evaluates self ctime i p r hpre.2 hpre.1 hp) h
  rw [he]
  exact ⟨⟨hpre.1, rfl⟩, hpre.2, rfl, rfl, rfl⟩

theorem borrowed_proper (self next : Total) (t a r : ℕ) (ha : 0 < a)
    (h : Borrowed self t a r next) : next.Proper := by
  rw [Total.Proper, h.rate]
  show 0 < self.totalPrincipalDue + a
  omega

theorem repaid_proper (self next : Total) (t i p r : ℕ) (h : Repaid self t i p r next) :
    next.Proper := by
  rw [Total.Proper, h.rate, Total.rateAfter]
  split_ifs with h0
  · decide
  · exact Nat.pos_of_ne_zero h0

end Nolus.LppTotal
