import NolusMoneyMarket.Lease.Split

/-! # The dues of a lease

The state of a lease loan takes what is overdue off what has accrued. The two
time points interest is paid by come in any order, so the end of the overdue
period may well precede the time the interest of the pool is paid by; the pool
then finds nothing due by it. -/

set_option autoImplicit false

namespace Nolus.LeaseDues
open Nolus.Fallible Nolus.Fraction Nolus.Interest Nolus.Periods
open Nolus.LppLoan Nolus.LeaseLoan Nolus.LeaseSplit

variable {ε : Type}

structure InRange (loan : LeaseLoan.Loan) (now : ℕ) : Prop where
  time : now < 2 ^ timeBits
  interestAnnual : loan.lppLoan.loan.annualInterest < 2 ^ amountBits
  interest : loan.lppLoan.loan.due now < 2 ^ amountBits
  marginAnnual : loan.marginAnnual < 2 ^ amountBits
  margin : loan.marginDue now < 2 ^ amountBits

theorem overduePeriod_fits (start now maxDue : ℕ) (h : start ≤ now) (hd : maxDue ≤ now - start)
    (hb : now < 2 ^ timeBits) :
    (overduePeriod ⟨start, now - start⟩ maxDue : Outcome ε Period) =
      .ok ⟨start, now - start - maxDue⟩ := by
  unfold overduePeriod
  split_ifs with he
  · simp only at he
    have hfits := @tillLength_fits ε start 0 (by omega) (Nat.zero_le _)
    rw [hfits, Nat.sub_zero, Nat.sub_self, he, Nat.sub_self]
  · simp only at he
    simp only [bind_ok]
    refine ⟨now, till_fits start now h hb, _, tillLength_fits now maxDue hb (by omega), ?_⟩
    rw [cut_suffix_fits start (now - maxDue) now (by omega) (Nat.sub_le _ _) hb]
    congr 2
    omega

theorem margin_fits (self : LeaseLoan.Loan) (now period : ℕ) (hr : InRange self now)
    (hp : period ≤ self.elapsed now) :
    (Interest.interest (percent self.marginInterest) self.lppLoan.loan.principalDue period :
      Outcome ε ℕ) = .ok (accrued self.marginAnnual period) := by
  apply interest_fits _ _ _ (percent_total_pos _) hr.marginAnnual
  exact lt_of_le_of_lt (accrued_mono _ _ _ _ (le_refl _) hp) hr.margin

theorem interest_fits_by (self : LeaseLoan.Loan) (now by_ : ℕ) (hr : InRange self now)
    (hb : by_ ≤ now) :
    (self.lppLoan.loan.interestDue by_ : Outcome ε ℕ) = .ok (self.lppLoan.loan.due by_) :=
  interestDue_fits _ _ hr.interestAnnual (lt_of_le_of_lt (due_mono _ _ _ hb) hr.interest)

theorem overdue_fits (self : LeaseLoan.Loan) (now : ℕ) (h : self.marginPaidBy ≤ now)
    (hr : InRange self now) :
    (Overdue.new ⟨self.marginPaidBy, self.elapsed now⟩ self.duePeriod self.marginInterest
      self.lppLoan : Outcome ε Overdue) = .ok (self.overdueAt now) := by
  unfold Overdue.new Loan.overdueAt
  split_ifs with hlt
  · simp only [bind_ok, nativeSub_ok, pure_ok]
    exact ⟨_, ⟨le_of_lt hlt, rfl⟩, rfl⟩
  · have hd : self.duePeriod ≤ now - self.marginPaidBy := Nat.le_of_not_lt hlt
    have htill : self.overdueTill now ≤ now := by
      simp only [Loan.overdueTill, Loan.elapsed]
      omega
    have hadd : (Period.till ⟨self.marginPaidBy, self.elapsed now - self.duePeriod⟩ :
        Outcome ε ℕ) = .ok (self.overdueTill now) :=
      (nativeAdd_ok _ _ _ _).2 ⟨lt_of_le_of_lt htill hr.time, rfl⟩
    simp only [bind_ok, pure_ok]
    exact ⟨_, overduePeriod_fits _ _ _ h hd hr.time, _,
      margin_fits self now _ hr (Nat.sub_le _ _), _, hadd, _,
      interest_fits_by self now _ hr htill, rfl⟩

theorem state_fits (self : LeaseLoan.Loan) (now : ℕ) (h : self.marginPaidBy ≤ now)
    (hr : InRange self now) :
    (self.state now : Outcome ε State) = .ok (self.stateAt now) := by
  simp only [LeaseLoan.Loan.state, bind_ok, pure_ok, nativeSub_ok]
  exact ⟨_, fromTill_fits _ _ h, _, overdue_fits self now h hr, _,
    margin_fits self now _ hr (le_refl _), _, ⟨overdue_margin_le self now, rfl⟩, _,
    till_fits _ _ h hr.time, _, interest_fits_by self now now hr (le_refl _), _,
    ⟨overdue_interest_le self now h, rfl⟩, rfl⟩

theorem overdue_starts_iff (self : LeaseLoan.Loan) (now : ℕ) :
    (∃ period, 0 < period ∧ self.overdueAt now = .startIn period) ↔
      self.elapsed now < self.duePeriod := by
  unfold Loan.overdueAt
  split_ifs with hlt
  · simp only [hlt, iff_true]
    exact ⟨_, Nat.sub_pos_of_lt hlt, rfl⟩
  · simp [hlt]

theorem overdue_positive (self : LeaseLoan.Loan) (now period : ℕ)
    (h : self.overdueAt now = .startIn period) : 0 < period := by
  unfold Loan.overdueAt at h
  split_ifs at h with hlt
  cases h
  exact Nat.sub_pos_of_lt hlt

/-- The state of a loan only overflows, and it does not when all that accrues is in range. The
overdue and the due margin make up what has accrued since the margin was paid, the overdue and
the due interest what is due to the pool, and the overdue starts in some time exactly when less
than the due period has elapsed. -/
theorem lease_dues (self : LeaseLoan.Loan) (now : ℕ) (h : self.marginPaidBy ≤ now) :
    FaultsIn Overflows (self.state now : Outcome ε State) ∧
    (InRange self now → ∃ state, (self.state now : Outcome ε State) = .ok state) ∧
    ∀ state, (self.state now : Outcome ε State) = .ok state →
      (Interest.interest (percent self.marginInterest) self.lppLoan.loan.principalDue
        (now - self.marginPaidBy) : Outcome ε ℕ) =
          .ok (state.overdue.margin + state.dueMarginInterest) ∧
      (self.lppLoan.loan.interestDue now : Outcome ε ℕ) =
        .ok (state.overdue.interest + state.dueInterest) ∧
      ((∃ period, 0 < period ∧ state.overdue = .startIn period) ↔
        now - self.marginPaidBy < self.duePeriod) ∧
      ∀ period, state.overdue = .startIn period → 0 < period := by
  refine ⟨evaluates_faults _ _ (state_evaluates self now h), ?_, ?_⟩
  · intro hr
    exact ⟨_, state_fits self now h hr⟩
  · intro state hstate
    have hat : state = self.stateAt now := evaluates_ok _ _ _ (state_evaluates self now h) hstate
    simp only [LeaseLoan.Loan.state, Period.fromTill, Period.till, between, bind_ok, nativeSub_ok,
      nativeAdd_ok, pure_ok] at hstate
    obtain ⟨_, ⟨_, ⟨_, rfl⟩, rfl⟩, overdue, _, margin, hmargin, _, ⟨hmarginLe, rfl⟩, till,
      ⟨_, htill⟩, interest, hinterest, _, ⟨hinterestLe, rfl⟩, rfl⟩ := hstate
    have hnow : till = now := by
      simp only at htill
      omega
    have hoverdue : overdue = self.overdueAt now := congrArg State.overdue hat
    subst hnow
    simp only
    rw [Nat.add_sub_cancel' hmarginLe, Nat.add_sub_cancel' hinterestLe, hoverdue]
    exact ⟨hmargin, hinterest, overdue_starts_iff self till, overdue_positive self till⟩

/-- The margin is paid by an earlier time than the interest of the pool, and some of it is
overdue. -/
theorem lease_dues_sample :
    sampleLoan.marginPaidBy ≤ year ∧ ∃ state : State,
      (sampleLoan.state year : Outcome Empty State) = .ok state ∧
        state.overdue = .accrued 25 25 ∧ state.dueInterest = 50 ∧ state.dueMarginInterest = 25 ∧
        (sampleLoan.lppLoan.loan.interestDue year : Outcome Empty ℕ) = .ok 75 := by
  have hle : sampleLoan.marginPaidBy ≤ year := Nat.zero_le _
  have hr : InRange sampleLoan year := ⟨by decide, by decide, by decide, by decide, by decide⟩
  obtain ⟨_, hreturns, hdues⟩ := @lease_dues Empty sampleLoan year hle
  obtain ⟨state, hstate⟩ := hreturns hr
  obtain ⟨_, hinterest, _⟩ := hdues state hstate
  have hat := evaluates_ok _ _ _ (state_evaluates sampleLoan year hle) hstate
  subst hat
  exact ⟨hle, _, hstate, rfl, rfl, rfl, hinterest⟩

end Nolus.LeaseDues
