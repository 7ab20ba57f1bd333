import NolusMoneyMarket.Lease.Position

/-! # The estimate of the overdue collection

The time until the interest due reaches a minimum inverts the interest of a
year. It is floored, hence before that time the interest stays below the
minimum. The overdue may start later than that, and nothing is collected until
then no matter how much is due. -/

set_option autoImplicit false

namespace Nolus.LeaseOverdue
open Nolus.Fallible Nolus.Fraction Nolus.Interest Nolus.LeaseLoan Nolus.LeasePosition

variable {ε : Type}

def totalInterest (state : State) : ℕ :=
  state.dueInterest + state.dueMarginInterest + state.overdue.interest + state.overdue.margin

def annualRate (state : State) : Ratio :=
  percent (state.annualInterest + state.annualInterestMargin)

def interestAYear (state : State) : ℕ := (annualRate state).part state.principalDue

def interestPast (state : State) (period : ℕ) : ℕ :=
  totalInterest state + accruedOn (annualRate state) state.principalDue period

def timeToReach (state : State) (minAmount : ℕ) : ℕ :=
  if minAmount ≤ totalInterest state then 0
  else if interestAYear state = 0 then durationMax
  else Ratio.part ⟨minAmount - totalInterest state, interestAYear state⟩ year

def collection (state : State) (minAmount : ℕ) : OverdueCollection :=
  let timeToCollect := max (Overdue.startsIn state.overdue) (timeToReach state minAmount)
  if timeToCollect = 0 then .overdue (totalInterest state) else .startIn timeToCollect

structure Estimable (state : State) (minAmount : ℕ) : Prop where
  interest : totalInterest state < 2 ^ amountBits
  rate : totalInterest state < minAmount →
    state.annualInterest + state.annualInterestMargin < 2 ^ percentBits
  aYear : totalInterest state < minAmount → interestAYear state < 2 ^ amountBits
  time : totalInterest state < minAmount →
    Ratio.part ⟨minAmount - totalInterest state, interestAYear state⟩ year < 2 ^ timeBits

theorem accrued_year (annual : ℕ) : accrued annual year = annual :=
  Nat.mul_div_cancel annual year_pos

theorem totalDueInterest_ok (state : State) (v : ℕ) :
    (State.totalDueInterest state : Outcome ε ℕ) = .ok v ↔
      totalInterest state < 2 ^ amountBits ∧ totalInterest state = v := by
  simp only [State.totalDueInterest, totalInterest, bind_ok, coinAdd_ok]
  constructor
  · rintro ⟨_, ⟨-, rfl⟩, _, ⟨-, rfl⟩, hfits, rfl⟩
    exact ⟨hfits, rfl⟩
  · rintro ⟨hfits, rfl⟩
    exact ⟨_, ⟨by omega, rfl⟩, _, ⟨by omega, rfl⟩, hfits, rfl⟩

theorem totalDueInterest_evaluates (state : State) :
    Evaluates (State.totalDueInterest state : Outcome ε ℕ) (totalInterest state) := by
  apply evaluates_bind _ _ _ _ (coinAdd_evaluates _ _)
  apply evaluates_bind _ _ _ _ (coinAdd_evaluates _ _)
  exact coinAdd_evaluates _ _

theorem yearly_evaluates (state : State) :
    Evaluates (interest (annualRate state) state.principalDue year : Outcome ε ℕ)
      (interestAYear state) := by
  have h := @interest_evaluates ε (annualRate state) state.principalDue year (percent_total_pos _)
  rwa [accruedOn, accrued_year] at h

theorem timeToAccrue_evaluates (state : State) (minAmount : ℕ) :
    Evaluates (State.timeToAccrue state minAmount (totalInterest state) : Outcome ε ℕ)
      (timeToReach state minAmount) := by
  unfold State.timeToAccrue timeToReach
  split_ifs with hmin hzero
  · exact evaluates_pure _
  · apply evaluates_bind _ _ _ _ (nativeSub_evaluates _ _ (by omega))
    apply evaluates_bind _ _ _ _ (nativeAdd_evaluates _ _ _)
    apply evaluates_bind _ _ _ _ (yearly_evaluates state)
    rw [if_pos hzero]
    exact evaluates_pure _
  · apply evaluates_bind _ _ _ _ (nativeSub_evaluates _ _ (by omega))
    apply evaluates_bind _ _ _ _ (nativeAdd_evaluates _ _ _)
    apply evaluates_bind _ _ _ _ (yearly_evaluates state)
    rw [if_neg hzero]
    exact durationSafeMul_evaluates year ⟨_, _⟩ (Nat.pos_of_ne_zero hzero)

theorem collection_evaluates (state : State) (minAmount : ℕ) :
    Evaluates ((State.due state : Due ε).overdueCollection minAmount)
      (collection state minAmount) := by
  apply evaluates_bind _ _ _ _ (totalDueInterest_evaluates state)
  apply evaluates_bind _ _ _ _ (timeToAccrue_evaluates state minAmount)
  exact evaluates_pure _

/-! ## When it returns -/

theorem yearly_ok (state : State) (v : ℕ) (hp : state.principalDue < 2 ^ amountBits) :
    (interest (annualRate state) state.principalDue year : Outcome ε ℕ) = .ok v ↔
      interestAYear state < 2 ^ amountBits ∧ interestAYear state = v := by
  constructor
  · intro h
    obtain ⟨annual, hof, hslice⟩ := (bind_ok _ _ _).1 h
    have hlt := safeMul_lt _ _ _ _ hp hof
    have heq := of_ok _ _ _ (percent_total_pos _) hof
    subst heq
    have hv := safeMul_ok _ _ _ _ year_pos hslice
    exact ⟨hlt, by rw [hv]; exact (accrued_year _).symm⟩
  · rintro ⟨hlt, rfl⟩
    have hyear := accrued_year (interestAYear state)
    have h := @interest_fits ε (annualRate state) state.principalDue year (percent_total_pos _) hlt
      (by rw [accruedOn, ← interestAYear, hyear]; exact hlt)
    rwa [accruedOn, ← interestAYear, hyear] at h

theorem intoSlice_ok (amount annual v : ℕ) (ha : 0 < annual) :
    (intoSlicePerRatio year amount annual : Outcome ε ℕ) = .ok v ↔
      Ratio.part ⟨amount, annual⟩ year < 2 ^ timeBits ∧ Ratio.part ⟨amount, annual⟩ year = v :=
  narrowed_ok timeBits year v ⟨amount, annual⟩ _ ha (by decide)

theorem timeToAccrue_fits (state : State) (minAmount : ℕ)
    (hp : state.principalDue < 2 ^ amountBits) (h : Estimable state minAmount) :
    ∃ time, (State.timeToAccrue state minAmount (totalInterest state) : Outcome ε ℕ) = .ok time := by
  unfold State.timeToAccrue
  split_ifs with hmin
  · exact ⟨0, rfl⟩
  · have hbelow : totalInterest state < minAmount := by omega
    have hyear := (@yearly_ok ε state _ hp).2 ⟨h.aYear hbelow, rfl⟩
    simp only [bind_ok, nativeSub_ok, nativeAdd_ok]
    by_cases hzero : interestAYear state = 0
    · refine ⟨durationMax, _, ⟨hbelow.le, rfl⟩, _, ⟨h.rate hbelow, rfl⟩, _, hyear, ?_⟩
      rw [if_pos hzero]
      rfl
    · refine ⟨Ratio.part ⟨minAmount - totalInterest state, interestAYear state⟩ year, _,
        ⟨hbelow.le, rfl⟩, _, ⟨h.rate hbelow, rfl⟩, _, hyear, ?_⟩
      rw [if_neg hzero]
      exact (intoSlice_ok _ _ _ (Nat.pos_of_ne_zero hzero)).2 ⟨h.time hbelow, rfl⟩

/-- The estimate returns exactly when all it computes fits. -/
theorem collection_returns_iff (state : State) (minAmount : ℕ)
    (hp : state.principalDue < 2 ^ amountBits) :
    (∃ c, (State.due state : Due ε).overdueCollection minAmount = .ok c) ↔
      Estimable state minAmount := by
  simp only [State.due, bind_ok, pure_ok, totalDueInterest_ok]
  constructor
  · rintro ⟨_, _, ⟨hinterest, rfl⟩, time, htime, -⟩
    unfold State.timeToAccrue at htime
    split_ifs at htime with hmin
    · exact ⟨hinterest, by omega, by omega, by omega⟩
    · simp only [bind_ok, nativeSub_ok, nativeAdd_ok] at htime
      obtain ⟨_, ⟨-, rfl⟩, _, ⟨hrate, rfl⟩, annual, hannual, htime⟩ := htime
      obtain ⟨hyear, rfl⟩ := (yearly_ok state annual hp).1 hannual
      refine ⟨hinterest, fun _ => hrate, fun _ => hyear, fun _ => ?_⟩
      split_ifs at htime with hzero
      · rw [hzero, Ratio.part, Nat.div_zero]
        exact Nat.two_pow_pos _
      · exact ((intoSlice_ok _ _ _ (Nat.pos_of_ne_zero hzero)).1 htime).1
  · intro h
    obtain ⟨time, htime⟩ := @timeToAccrue_fits ε state minAmount hp h
    exact ⟨_, _, ⟨h.interest, rfl⟩, time, htime, rfl⟩

/-! ## What it estimates -/

/-- The floored inverse: before the time to reach the minimum less than what is left accrues. -/
theorem accrued_before (left annual period : ℕ)
    (h : period < Ratio.part ⟨left, annual⟩ year) : accrued annual period < left := by
  have hmul : (period + 1) * annual ≤ year * left := by
    have hfloor := Nat.div_mul_le_self (year * left) annual
    exact le_trans (Nat.mul_le_mul_right annual h) hfloor
  have hpos : 0 < annual := by
    rcases Nat.eq_zero_or_pos annual with h0 | hpos
    · rw [h0, Ratio.part, Nat.div_zero] at h
      omega
    · exact hpos
  apply (Nat.div_lt_iff_lt_mul year_pos).2
  calc annual * period < (period + 1) * annual := by
        rw [Nat.mul_comm annual]
        exact Nat.mul_lt_mul_of_pos_right (Nat.lt_succ_self _) hpos
    _ ≤ left * year := by rwa [Nat.mul_comm left]

theorem interest_before (state : State) (minAmount period : ℕ)
    (h : period < timeToReach state minAmount) : interestPast state period < minAmount := by
  unfold timeToReach at h
  have hpast : interestPast state period =
      totalInterest state + accrued (interestAYear state) period := rfl
  split_ifs at h with hmin hzero
  · omega
  · rw [hpast, hzero, accrued, Nat.zero_mul, Nat.zero_div]
    omega
  · have hleft := accrued_before _ _ _ h
    omega

/-- The collection of an overdue is estimated to be due at once only when the overdue has
started and the rest up to the minimum, if any, accrues within a nanosecond. -/
theorem collectable_now (state : State) (minAmount amount : ℕ)
    (h : collection state minAmount = .overdue amount) :
    Overdue.startsIn state.overdue = 0 ∧ amount = totalInterest state ∧
      (minAmount ≤ amount ∨ year * (minAmount - amount) < interestAYear state) := by
  unfold collection at h
  simp only at h
  split_ifs at h with hzero
  obtain rfl := OverdueCollection.overdue.inj h
  obtain ⟨hstart, hreach⟩ := Nat.max_eq_zero_iff.1 hzero
  refine ⟨hstart, rfl, ?_⟩
  unfold timeToReach at hreach
  split_ifs at hreach with hmin hannual
  · exact .inl hmin
  · exact absurd hreach (by decide)
  · right
    exact (Nat.div_eq_zero_iff.1 hreach).resolve_left hannual

theorem collectable_later (state : State) (minAmount period : ℕ)
    (h : collection state minAmount = .startIn period) :
    0 < period ∧ (period = Overdue.startsIn state.overdue ∨
      ∀ earlier < period, interestPast state earlier < minAmount) := by
  unfold collection at h
  simp only at h
  split_ifs at h with hzero
  obtain rfl := OverdueCollection.startIn.inj h
  refine ⟨Nat.pos_of_ne_zero hzero, ?_⟩
  rcases Nat.le_total (timeToReach state minAmount) (Overdue.startsIn state.overdue) with hle | hle
  · exact .inl (max_eq_left hle)
  · right
    rw [max_eq_right hle]
    exact interest_before state minAmount

/-- The estimate of the overdue collection only overflows, and it does not when all it computes
fits. An amount is collectable only past the due period and when it reaches the minimum, but for
what accrues within a nanosecond. Collection in some time starts at the end of the due period,
or the interest stays below the minimum before that time. -/
theorem overdue_collection_sound (state : State) (minAmount : ℕ)
    (hp : state.principalDue < 2 ^ amountBits) :
    FaultsIn Overflows ((State.due state : Due ε).overdueCollection minAmount) ∧
    (Estimable state minAmount →
      ∃ c, (State.due state : Due ε).overdueCollection minAmount = .ok c) ∧
    (∀ amount, (State.due state : Due ε).overdueCollection minAmount = .ok (.overdue amount) →
      Overdue.startsIn state.overdue = 0 ∧ amount = totalInterest state ∧
        (minAmount ≤ amount ∨ year * (minAmount - amount) < interestAYear state)) ∧
    ∀ period, (State.due state : Due ε).overdueCollection minAmount = .ok (.startIn period) →
      0 < period ∧ (period = Overdue.startsIn state.overdue ∨
        ∀ earlier < period, interestPast state earlier < minAmount) := by
  have heval := @collection_evaluates ε state minAmount
  refine ⟨evaluates_faults _ _ heval, (collection_returns_iff state minAmount hp).2, ?_, ?_⟩
  · intro amount h
    exact collectable_now state minAmount amount (evaluates_ok _ _ _ heval h).symm
  · intro period h
    exact collectable_later state minAmount period (evaluates_ok _ _ _ heval h).symm

def earlyState : State := ⟨200, 50, 100000, 10, 5, .startIn (3 * nanosInDay)⟩

theorem overdue_collection_sound_sample :
    earlyState.principalDue < 2 ^ amountBits ∧
    (State.due earlyState : Due Empty).overdueCollection 14 = .ok (.startIn (3 * nanosInDay)) ∧
      (3 * nanosInDay = Overdue.startsIn earlyState.overdue ∨
        ∀ earlier < 3 * nanosInDay, interestPast earlyState earlier < 14) := by
  have hp : earlyState.principalDue < 2 ^ amountBits := by decide
  have hc : (State.due earlyState : Due Empty).overdueCollection 14 =
      .ok (.startIn (3 * nanosInDay)) := by rfl
  exact ⟨hp, hc, ((@overdue_collection_sound Empty earlyState 14 hp).2.2.2 _ hc).2⟩

/-- Before the end of the due period the interest may well be above the minimum. -/
theorem interest_above_before_collection :
    ¬ ∀ period, (State.due earlyState : Due Empty).overdueCollection 14 = .ok (.startIn period) →
      ∀ earlier < period, interestPast earlyState earlier < 14 := by
  intro h
  have hc : (State.due earlyState : Due Empty).overdueCollection 14 =
      .ok (.startIn (3 * nanosInDay)) := by rfl
  have habove := h _ hc 0 (by decide)
  exact absurd habove (by decide)

end Nolus.LeaseOverdue
