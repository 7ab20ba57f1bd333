import NolusMoneyMarket.Lpp.Loan

/-! # Paying never forgives debt

A payment below the interest due is turned into the time it covers, and the
interest due is then computed from the time left. Both are floored, the former
for the borrower to owe no less and by less than a nanosecond more. -/

set_option autoImplicit false

namespace Nolus.LppRepayment
open Nolus.Fallible Nolus.Fraction Nolus.Interest Nolus.LppLoan

variable {ε : Type}

def owed (loan : Loan) (by_ : ℕ) : ℕ := loan.principalDue + loan.due by_

def nanosecondInterest (loan : Loan) : ℕ := (loan.annualInterest + (year - 1)) / year

def payAll (loan : Loan) (by_ : ℕ) : List ℕ → Outcome ε Loan
  | [] => pure loan
  | payment :: payments => do
    let (loan, _) ← loan.repay by_ payment
    payAll loan by_ payments

def paidAll (loan : Loan) (by_ : ℕ) (payments : List ℕ) : Loan :=
  payments.foldl (fun loan payment => loan.repaid by_ payment) loan

theorem period_left (loan : Loan) (by_ payment : ℕ) :
    by_ - (loan.repaid by_ payment).interestPaid =
      by_ - loan.interestPaid - paidFor (loan.due by_) payment (by_ - loan.interestPaid) :=
  (Nat.sub_sub _ _ _).symm

theorem interest_only (loan : Loan) (by_ payment : ℕ) (h : payment ≤ loan.due by_) :
    (loan.repaid by_ payment).principalDue = loan.principalDue ∧
      (loan.repaid by_ payment).due by_ = accrued loan.annualInterest
        (by_ - loan.interestPaid - paidFor (loan.due by_) payment (by_ - loan.interestPaid)) := by
  have hprincipal : (loan.repaid by_ payment).principalDue = loan.principalDue := by
    simp [Loan.repaid, Loan.shares, Nat.sub_eq_zero_of_le h]
  refine ⟨hprincipal, ?_⟩
  rw [Loan.due, period_left]
  simp only [Loan.annualInterest, Loan.rate, hprincipal]
  rfl

theorem interest_paid (loan : Loan) (by_ payment : ℕ) (h : loan.due by_ ≤ payment) :
    (loan.repaid by_ payment).due by_ = 0 := by
  rw [Loan.due, period_left]
  by_cases h0 : loan.due by_ = 0
  · rw [h0, paidFor, if_pos rfl, Nat.sub_zero]
    have hle : (loan.repaid by_ payment).annualInterest ≤ loan.annualInterest :=
      part_mono _ _ _ (Nat.sub_le _ _)
    have hmono := accrued_mono _ _ _ _ hle (le_refl (by_ - loan.interestPaid))
    rw [Loan.due] at h0
    omega
  · rw [paidFor, if_neg h0, min_eq_left h, Nat.mul_div_cancel _ (Nat.pos_of_ne_zero h0),
      Nat.sub_self, accrued_zero]

theorem owed_not_less (loan : Loan) (by_ payment : ℕ) :
    owed loan by_ ≤ owed (loan.repaid by_ payment) by_ +
      (payment - (loan.shares by_ payment).excess) := by
  unfold owed
  rcases le_total payment (loan.due by_) with h | h
  · obtain ⟨hprincipal, hdue⟩ := interest_only loan by_ payment h
    have hrest := rest_accrues loan.annualInterest payment (by_ - loan.interestPaid)
    have hexcess : (loan.shares by_ payment).excess = 0 := by
      simp only [Loan.shares]
      omega
    rw [hprincipal, hdue, hexcess]
    simp only [Loan.due] at h ⊢
    omega
  · rw [interest_paid loan by_ payment h]
    simp only [Loan.repaid, Loan.shares]
    omega

theorem owed_hardly_more (loan : Loan) (by_ payment : ℕ) :
    owed (loan.repaid by_ payment) by_ + (payment - (loan.shares by_ payment).excess) ≤
      owed loan by_ + nanosecondInterest loan := by
  unfold owed
  rcases le_total payment (loan.due by_) with h | h
  · obtain ⟨hprincipal, hdue⟩ := interest_only loan by_ payment h
    have hrest := rest_accrues_le loan.annualInterest payment (by_ - loan.interestPaid)
    have hexcess : (loan.shares by_ payment).excess = 0 := by
      simp only [Loan.shares]
      omega
    rw [hprincipal, hdue, hexcess]
    simp only [Loan.due, nanosecondInterest] at h ⊢
    omega
  · rw [interest_paid loan by_ payment h]
    simp only [Loan.repaid, Loan.shares]
    omega

/-- Paying in two leaves no less than paying at once. -/
theorem owed_split (loan : Loan) (by_ first second : ℕ) :
    owed (loan.repaid by_ (first + second)) by_ ≤
      owed ((loan.repaid by_ first).repaid by_ second) by_ := by
  rcases lt_or_ge (first + second) (loan.due by_) with h | h
  · -- all of it is interest, so it is the time covered that counts
    obtain ⟨honceP, honce⟩ := interest_only loan by_ _ h.le
    obtain ⟨hfirstP, hfirst⟩ := interest_only loan by_ first (by omega)
    have hrest := rest_accrues loan.annualInterest first (by_ - loan.interestPaid)
    have hsecond : second ≤ (loan.repaid by_ first).due by_ := by
      rw [hfirst]
      simp only [Loan.due] at h ⊢
      omega
    obtain ⟨hsecondP, htwice⟩ := interest_only (loan.repaid by_ first) by_ second hsecond
    have hannual : (loan.repaid by_ first).annualInterest = loan.annualInterest := by
      simp only [Loan.annualInterest, Loan.rate, hfirstP]
      rfl
    have hcover := paidFor_split loan.annualInterest first second (by_ - loan.interestPaid) h
    unfold owed
    rw [honceP, hsecondP, hfirstP, honce, htwice, hannual, hfirst, period_left]
    apply Nat.add_le_add_left
    apply accrued_mono _ _ _ _ (le_refl _)
    simp only [Loan.due]
    omega
  · -- the principal left at once is exactly what remains of the owed
    have hfirst := owed_not_less loan by_ first
    have hsecond := owed_not_less (loan.repaid by_ first) by_ second
    have honce := interest_paid loan by_ (first + second) h
    simp only [owed, honce] at *
    simp only [Loan.repaid, Loan.shares] at *
    omega

theorem owed_all (loan : Loan) (by_ : ℕ) (payments : List ℕ) :
    owed (loan.repaid by_ payments.sum) by_ ≤ owed (paidAll loan by_ payments) by_ := by
  induction payments generalizing loan with
  | nil =>
    obtain ⟨hprincipal, hdue⟩ := interest_only loan by_ 0 (Nat.zero_le _)
    simp only [List.sum_nil, paidAll, List.foldl_nil, owed, hprincipal, hdue]
    simp [paidFor, Loan.due]
  | cons payment payments ih =>
    rw [List.sum_cons]
    exact le_trans (owed_split loan by_ payment payments.sum) (ih _)

/-! ## Repayments that return -/

structure InRange (loan : Loan) (by_ : ℕ) : Prop where
  annual : loan.annualInterest < 2 ^ amountBits
  interest : loan.due by_ < 2 ^ amountBits

theorem repaid_inRange (loan : Loan) (by_ payment : ℕ) (h : InRange loan by_) :
    InRange (loan.repaid by_ payment) by_ := by
  have hannual : (loan.repaid by_ payment).annualInterest ≤ loan.annualInterest :=
    part_mono _ _ _ (Nat.sub_le _ _)
  have hdue : (loan.repaid by_ payment).due by_ ≤ loan.due by_ := by
    apply accrued_mono _ _ _ _ hannual
    rw [period_left]
    exact Nat.sub_le _ _
  exact ⟨hannual.trans_lt h.annual, hdue.trans_lt h.interest⟩

theorem paidAll_inRange (loan : Loan) (by_ : ℕ) (payments : List ℕ) (h : InRange loan by_) :
    InRange (paidAll loan by_ payments) by_ := by
  induction payments generalizing loan with
  | nil => exact h
  | cons payment payments ih => exact ih _ (repaid_inRange loan by_ payment h)

theorem due_inRange (loan : Loan) (by_ : ℕ) (h : InRange loan by_) :
    (loan.interestDue by_ : Outcome ε ℕ) = .ok (loan.due by_) :=
  interestDue_fits _ _ h.annual h.interest

theorem repay_inRange (loan repaid : Loan) (by_ payment : ℕ) (shares : RepayShares)
    (hp : loan.principalDue < 2 ^ amountBits)
    (h : (loan.repay by_ payment : Outcome ε (Loan × RepayShares)) = .ok (repaid, shares)) :
    InRange loan by_ := by
  simp only [Loan.repay, pay, interest, annualizedSliceOf, Ratio.of, bind_ok, duePeriod_ok] at h
  obtain ⟨_, rfl, _, ⟨_, ⟨annual, hannual, hinterest⟩, _⟩, _⟩ := h
  have hbelow := safeMul_lt _ _ _ _ hp hannual
  have hin := safeMul_lt _ _ _ _ hbelow hinterest
  have hannual' : annual = loan.annualInterest :=
    safeMul_ok _ _ _ _ loan.rate_total_pos hannual
  subst hannual'
  rw [safeMul_ok _ _ _ _ year_pos hinterest] at hin
  exact ⟨hbelow, hin⟩

theorem payAll_ok (loan split : Loan) (by_ : ℕ) (payments : List ℕ)
    (h : (payAll loan by_ payments : Outcome ε Loan) = .ok split) :
    split = paidAll loan by_ payments := by
  induction payments generalizing loan with
  | nil => exact ((pure_ok _ _).1 h).symm
  | cons payment payments ih =>
    obtain ⟨⟨repaid, shares⟩, hrepay, hrest⟩ := (bind_ok _ _ _).1 h
    obtain ⟨rfl, _⟩ := repay_ok _ _ _ _ _ hrepay
    exact ih _ hrest

/-- What is owed past a payment and what is kept of it make up at least what was owed, and at most
the interest of a nanosecond more. Payments made apart leave no less than one of their sum. -/
theorem paying_forgives_nothing (loan : Loan) (by_ : ℕ)
    (hp : loan.principalDue < 2 ^ amountBits) :
    (∀ payment repaid shares,
      (loan.repay by_ payment : Outcome ε (Loan × RepayShares)) = .ok (repaid, shares) →
      ∃ before after, (loan.interestDue by_ : Outcome ε ℕ) = .ok before ∧
        (repaid.interestDue by_ : Outcome ε ℕ) = .ok after ∧ shares.excess ≤ payment ∧
        loan.principalDue + before ≤ repaid.principalDue + after + (payment - shares.excess) ∧
        repaid.principalDue + after + (payment - shares.excess) ≤
          loan.principalDue + before + nanosecondInterest loan) ∧
    ∀ payments split once shares, (payAll loan by_ payments : Outcome ε Loan) = .ok split →
      (loan.repay by_ payments.sum : Outcome ε (Loan × RepayShares)) = .ok (once, shares) →
      ∃ apart atOnce, (split.interestDue by_ : Outcome ε ℕ) = .ok apart ∧
        (once.interestDue by_ : Outcome ε ℕ) = .ok atOnce ∧
        once.principalDue + atOnce ≤ split.principalDue + apart := by
  constructor
  · intro payment repaid shares h
    have hin := repay_inRange loan repaid by_ payment shares hp h
    obtain ⟨rfl, rfl⟩ := repay_ok _ _ _ _ _ h
    have hsum := shares_sum loan by_ payment
    exact ⟨_, _, due_inRange _ _ hin, due_inRange _ _ (repaid_inRange loan by_ payment hin),
      by omega, owed_not_less loan by_ payment, owed_hardly_more loan by_ payment⟩
  · intro payments split once shares hsplit honce
    have hin := repay_inRange loan once by_ _ shares hp honce
    obtain ⟨rfl, _⟩ := repay_ok _ _ _ _ _ honce
    obtain rfl := payAll_ok loan split by_ payments hsplit
    exact ⟨_, _, due_inRange _ _ (paidAll_inRange loan by_ payments hin),
      due_inRange _ _ (repaid_inRange loan by_ _ hin), owed_all loan by_ payments⟩

def halfYear : Loan := ⟨1000, 101, 0⟩

/-- Of the 50 due for half a year 25 are paid, at once and in two parts. -/
theorem paying_forgives_nothing_sample :
    halfYear.principalDue < 2 ^ amountBits ∧ ∃ split once before after apart atOnce,
      (halfYear.repay (year / 2) 25 : Outcome Empty (Loan × RepayShares)) =
        .ok (once, ⟨25, 0, 0⟩) ∧
      (payAll halfYear (year / 2) [12, 13] : Outcome Empty Loan) = .ok split ∧
      (halfYear.interestDue (year / 2) : Outcome Empty ℕ) = .ok before ∧
      (once.interestDue (year / 2) : Outcome Empty ℕ) = .ok after ∧
      1000 + before ≤ once.principalDue + after + 25 ∧
      (split.interestDue (year / 2) : Outcome Empty ℕ) = .ok apart ∧
      (once.interestDue (year / 2) : Outcome Empty ℕ) = .ok atOnce ∧
      once.principalDue + atOnce ≤ split.principalDue + apart := by
  have hp : halfYear.principalDue < 2 ^ amountBits := by decide
  have honce : (halfYear.repay (year / 2) 25 : Outcome Empty (Loan × RepayShares)) =
      .ok (halfYear.repaid (year / 2) 25, ⟨25, 0, 0⟩) := by rfl
  have hsplit : (payAll halfYear (year / 2) [12, 13] : Outcome Empty Loan) =
      .ok (paidAll halfYear (year / 2) [12, 13]) := by rfl
  obtain ⟨hpay, happart⟩ := @paying_forgives_nothing Empty halfYear (year / 2) hp
  obtain ⟨before, after, hbefore, hafter, _, hless, _⟩ := hpay 25 _ _ honce
  obtain ⟨apart, atOnce, hapart, hatOnce, hle⟩ := happart [12, 13] _ _ _ hsplit honce
  exact ⟨hp, _, _, before, after, apart, atOnce, honce, hsplit, hbefore, hafter, hless, hapart,
    hatOnce, hle⟩

end Nolus.LppRepayment
