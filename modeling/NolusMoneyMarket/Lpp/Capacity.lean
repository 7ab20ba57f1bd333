import NolusMoneyMarket.Finance.Product
import NolusMoneyMarket.Lpp.Effects

/-! # Capacity of the pool for deposits

A deposit lowers the utilization, and the pool takes no more than what keeps
it at the configured minimum. The utilization before a deposit is floored to
permille, and the worth the due may be a minimum of is floored as well. A
deposit in the balance already is left out of both, and an empty pool counts
as utilized in full. -/

set_option autoImplicit false

namespace Nolus.LppCapacity
open Nolus.Fallible Nolus.Fraction Nolus.Prices Nolus.PriceProducts Nolus.LppLoan Nolus.LppTotal
open Nolus.LppConfig Nolus.LppDeposit Nolus.LppPool Nolus.LppEffects

variable {ε : Type}

def dueBy (self : Pool) (now : ℕ) : ℕ := self.total.totalPrincipalDue + self.total.interestBy now

def utilizationAt (balance due : ℕ) : ℕ :=
  if balance = 0 then hundred else Ratio.part ⟨due, due + balance⟩ hundred

def capacityAt (minUtilization balance due : ℕ) : ℕ :=
  if minUtilization < utilizationAt balance due then
    Ratio.part ⟨hundred, minUtilization⟩ due - balance - due
  else 0

def AtLeast (level balance due : ℕ) : Prop := level * (balance + due) ≤ hundred * due

theorem utilizationAt_le (balance due : ℕ) : utilizationAt balance due ≤ hundred := by
  unfold utilizationAt
  split_ifs
  · exact le_refl _
  · exact part_le _ _ (Nat.le_add_right _ _)

theorem headroom (minUtilization balance due : ℕ) (hmin : 0 < minUtilization)
    (h : minUtilization < utilizationAt balance due) :
    balance + due ≤ Ratio.part ⟨hundred, minUtilization⟩ due := by
  rw [Ratio.part, Nat.le_div_iff_mul_le hmin]
  unfold utilizationAt at h
  split_ifs at h with h0
  · rw [h0, Nat.zero_add]
    exact Nat.mul_le_mul_left _ h.le
  · have hpos : 0 < due + balance := by omega
    have hfloor := (Nat.le_div_iff_mul_le hpos).1 h.le
    rw [Nat.mul_comm, Nat.add_comm balance, Nat.mul_comm due]
    exact hfloor

theorem within_capacity (minUtilization balance due deposit : ℕ) (hmin : 0 < minUtilization)
    (hpos : 0 < deposit) (h : deposit ≤ capacityAt minUtilization balance due) :
    AtLeast minUtilization (balance + deposit) due := by
  unfold capacityAt at h
  split_ifs at h with habove
  · have hroom := headroom minUtilization balance due hmin habove
    have hsum : balance + deposit + due ≤ Ratio.part ⟨hundred, minUtilization⟩ due := by omega
    rw [Ratio.part, Nat.le_div_iff_mul_le hmin] at hsum
    rw [AtLeast, Nat.mul_comm, Nat.mul_comm hundred]
    exact hsum
  · omega

theorem past_capacity (minUtilization balance due deposit : ℕ) (hmin : 0 < minUtilization)
    (h : capacityAt minUtilization balance due < deposit) :
    ¬ AtLeast (minUtilization + 1) (balance + deposit) due := by
  unfold AtLeast
  unfold capacityAt at h
  split_ifs at h with habove
  · have hroom := headroom minUtilization balance due hmin habove
    have hsum : Ratio.part ⟨hundred, minUtilization⟩ due < balance + deposit + due := by omega
    rw [Ratio.part, Nat.div_lt_iff_lt_mul hmin] at hsum
    rw [Nat.mul_comm hundred, not_le]
    apply lt_of_lt_of_le hsum
    rw [Nat.mul_comm]
    exact Nat.mul_le_mul_right _ (Nat.le_succ _)
  · have hlevel : utilizationAt balance due < minUtilization + 1 := by omega
    rw [not_le]
    unfold utilizationAt at hlevel
    split_ifs at hlevel with h0
    · calc hundred * due ≤ (minUtilization + 1) * due := Nat.mul_le_mul_right _ hlevel.le
        _ < (minUtilization + 1) * (balance + deposit + due) :=
          Nat.mul_lt_mul_of_pos_left (by omega) (Nat.succ_pos _)
    · have hpos : 0 < due + balance := by omega
      have hfloor := (Nat.div_lt_iff_lt_mul hpos).1 hlevel
      apply lt_of_lt_of_le hfloor
      exact Nat.mul_le_mul_left _ (by omega)

/-! ## What is computed -/

theorem totalDue_evaluates (self : Pool) (now : ℕ) (hp : self.total.Proper)
    (ht : self.total.lastUpdateTime ≤ now) : Evaluates (self.totalDue now) (dueBy self now) := by
  apply evaluates_bind _ _ _ _ (totalInterestDueByNow_evaluates _ _ hp ht)
  exact coinAdd_evaluates _ _

theorem utilization_evaluates (balance due : ℕ) :
    Evaluates (Pool.utilization balance due) (utilizationAt balance due) := by
  have hle := utilizationAt_le balance due
  have hbits : hundred < 2 ^ percentBits := by decide
  unfold Pool.utilization
  unfold utilizationAt at hle ⊢
  split_ifs at hle ⊢ with h0
  · exact evaluates_pure _
  · apply evaluates_bind _ _ _ _ (coinAdd_evaluates _ _)
    have hpos : 0 < due + balance := by omega
    exact .inl ((percentFromRatio_ok due (due + balance) _ hpos).2 ⟨by omega, rfl⟩)

theorem depositCapacity_evaluates (self : Pool) (now pending : ℕ) (hp : self.total.Proper)
    (ht : self.total.lastUpdateTime ≤ now) (hpending : pending ≤ self.balance)
    (hmin : 0 < self.config.minUtilization) :
    Evaluates (self.depositCapacity now pending)
      (some (capacityAt self.config.minUtilization (self.balance - pending) (dueBy self now))) := by
  rw [Pool.depositCapacity, if_neg (by omega)]
  apply evaluates_bind _ _ _ _ (totalDue_evaluates self now hp ht)
  apply evaluates_bind _ _ _ _ (nativeSub_evaluates _ _ hpending)
  apply evaluates_bind _ _ _ _ (utilization_evaluates _ _)
  unfold capacityAt
  split_ifs with habove
  · have hroom := headroom _ _ _ hmin habove
    apply evaluates_bind _ _ _ _ (of_evaluates ⟨hundred, self.config.minUtilization⟩ _ hmin)
    apply evaluates_bind _ _ _ _ (nativeSub_evaluates _ _ (Nat.le_of_add_right_le hroom))
    apply evaluates_bind _ _ _ _ (nativeSub_evaluates _ _ (Nat.le_sub_of_add_le' hroom))
    exact evaluates_pure _
  · exact evaluates_pure _

theorem capacity_ok (self : Pool) (now pending : ℕ) (capacity : Option ℕ) (hp : self.total.Proper)
    (ht : self.total.lastUpdateTime ≤ now) (hpending : pending ≤ self.balance)
    (hmin : 0 < self.config.minUtilization)
    (h : self.depositCapacity now pending = .ok capacity) :
    (self.totalDue now = .ok (dueBy self now)) ∧ capacity =
      some (capacityAt self.config.minUtilization (self.balance - pending) (dueBy self now)) := by
  refine ⟨?_, evaluates_ok _ _ _ (depositCapacity_evaluates self now pending hp ht hpending hmin) h⟩
  rw [Pool.depositCapacity, if_neg (by omega)] at h
  obtain ⟨due, hdue, -⟩ := (bind_ok _ _ _).1 h
  rw [hdue, evaluates_ok _ _ _ (totalDue_evaluates self now hp ht) hdue]

/-! ## Rejections -/

def Other (e : Fault ContractError) : Prop := e ≠ .error .utilizationBelowMinimalRates

theorem panics_other {α : Type} (x : Outcome ContractError α) (h : FaultsIn Panics x) :
    FaultsIn Other x := by
  apply faultsIn_mono Panics Other x _ h
  rintro _ ⟨cause, rfl⟩ hne
  cases hne

theorem receivedOne_other (denom : Denom) (funds : List CwCoin) :
    FaultsIn Other (receivedOne denom funds) := by
  unfold receivedOne
  split
  · exact faultsIn_error _ _ (by simp [Other])
  · split_ifs
    · exact faultsIn_pure _ _
    · exact faultsIn_error _ _ (by simp [Other])
  · exact faultsIn_error _ _ (by simp [Other])

theorem price_other (self : Pool) (now pending : ℕ) (hp : self.total.Proper)
    (ht : self.total.lastUpdateTime ≤ now) (hpending : pending ≤ self.balance) :
    FaultsIn Other (self.calculatePrice now pending) := by
  unfold Pool.calculatePrice
  split_ifs
  · exact faultsIn_pure _ _
  · have hworth : Evaluates (self.totalLpn now pending)
        (self.balance - pending + dueBy self now) := by
      apply evaluates_bind _ _ _ _ (nativeSub_evaluates _ _ hpending)
      apply evaluates_bind _ _ _ _ (totalDue_evaluates self now hp ht)
      exact coinAdd_evaluates _ _
    apply faultsIn_bind _ _ _ (panics_other _ (panics_of_evaluates _ _ hworth))
    intro worth _
    exact panics_other _ (new_panics _ _)

theorem rewardOf_panics (amount : ℕ) (rewardPerToken : Option Price) :
    FaultsIn Panics (rewardOf amount rewardPerToken : Outcome ε ℕ) := by
  cases rewardPerToken with
  | none => exact faultsIn_pure _ _
  | some price => exact safeMul_panics _ _ _

theorem updateRewards_panics (self : DepositData) (globals : DepositsGlobals) :
    FaultsIn Panics (self.updateRewards globals : Outcome ε DepositData) := by
  apply faultsIn_bind
  · apply faultsIn_bind _ _ _ (rewardOf_panics _ _)
    intro globalReward _
    apply faultsIn_bind _ _ _ (rewardOf_panics _ _)
    intro depositReward _
    apply faultsIn_bind _ _ _ (panics_of_evaluates _ _ (coinAdd_evaluates _ _))
    intro reward _
    exact nativeSub_panics _ _
  · intro pending _
    exact faultsIn_pure _ _

theorem deposit_other (self : Deposits) (addr : Addr) (amountLpn : ℕ) (price : Price) :
    FaultsIn Other (self.deposit addr amountLpn price) := by
  unfold Deposits.deposit
  split_ifs
  · exact faultsIn_error _ _ (by simp [Other])
  · apply faultsIn_bind _ _ _ (panics_other _ (updateRewards_panics _ _))
    intro data _
    apply faultsIn_bind _ _ _ (panics_other _ (safeMul_panics _ _ _))
    intro minted _
    apply faultsIn_bind _ _ _
      (panics_other _ (panics_of_evaluates _ _ (nativeAdd_evaluates _ _ _)))
    intro newDeposited _
    apply faultsIn_bind Other _ _ (faultsIn_okOr Other _ _ (by simp [Other]))
    intro newBalance _
    exact faultsIn_pure _ _

/-- A deposit is rejected for the utilization exactly by its capacity. -/
theorem rejected_capacity (self : Pool) (now : ℕ) (lender : Addr) (funds : List CwCoin)
    (hp : self.total.Proper) (ht : self.total.lastUpdateTime ≤ now)
    (hfunds : fundsOf .lpn funds ≤ self.balance) (hmin : 0 < self.config.minUtilization)
    (h : self.tryDeposit now lender funds = failing .utilizationBelowMinimalRates) :
    ∃ limit, self.depositCapacity now (fundsOf .lpn funds) = .ok (some limit) ∧
      limit < fundsOf .lpn funds := by
  rcases (bind_error _ _ _).1 h with hreceived | ⟨pending, hpending, h⟩
  · exact absurd rfl (receivedOne_other _ _ _ hreceived)
  have hamount := receivedOne_funds _ _ _ hpending
  subst hamount
  have heval := depositCapacity_evaluates self now _ hp ht hfunds hmin
  rcases (bind_error _ _ _).1 h with hcapacity | ⟨capacity, hcapacity, h⟩
  · exact absurd rfl (panics_other _ (panics_of_evaluates _ _ heval) _ hcapacity)
  have hlimit := evaluates_ok _ _ _ heval hcapacity
  subst hlimit
  refine ⟨_, hcapacity, ?_⟩
  by_contra hwithin
  rcases (bind_error _ _ _).1 h with hensure | ⟨_, -, h⟩
  · rw [ensure, if_pos (by simpa using hwithin)] at hensure
    cases hensure
  rcases (bind_error _ _ _).1 h with hprice | ⟨price, -, h⟩
  · exact absurd rfl (price_other self now _ hp ht hfunds _ hprice)
  rcases (bind_error _ _ _).1 h with hdeposit | ⟨⟨lenders, minted⟩, -, h⟩
  · exact absurd rfl (deposit_other _ _ _ _ _ hdeposit)
  · exact absurd h (pure_error _ _)

theorem accepted_utilization (self next : Pool) (now : ℕ) (call : Call)
    (hp : self.total.Proper) (ht : self.total.lastUpdateTime ≤ now)
    (hmin : 0 < self.config.minUtilization) (hm : call.msg = .deposit)
    (h : self.execute now call = .ok next) :
    next.totalDue now = .ok (dueBy next now) ∧
      AtLeast self.config.minUtilization next.balance (dueBy next now) := by
  simp only [Pool.execute, hm, Pool.tryDeposit, bind_ok, ensure_ok, pure_ok] at h
  obtain ⟨amount, hreceived, capacity, hcapacity, _, hlimit, price, -, ⟨lenders, minted⟩, hdeposit,
    rfl⟩ := h
  have hfunds := receivedOne_funds _ _ _ hreceived
  obtain ⟨hpos, -⟩ := deposit_ok _ _ _ _ _ _ hdeposit
  have hbalance : (self.credit call.funds).balance = self.balance + amount := by
    rw [← hfunds]
    rfl
  obtain ⟨hdue, rfl⟩ := capacity_ok (self.credit call.funds) now amount capacity hp ht
    (by omega) hmin hcapacity
  refine ⟨hdue, ?_⟩
  have hwithin := within_capacity _ _ _ amount hmin hpos (hlimit _ rfl)
  have hbefore : (self.credit call.funds).balance - amount + amount =
      (self.credit call.funds).balance := by omega
  rw [hbefore] at hwithin
  exact hwithin

theorem rejected_utilization (self : Pool) (now : ℕ) (call : Call)
    (hp : self.total.Proper) (ht : self.total.lastUpdateTime ≤ now)
    (hmin : 0 < self.config.minUtilization) (hm : call.msg = .deposit)
    (h : self.execute now call = failing .utilizationBelowMinimalRates) :
    self.totalDue now = .ok (dueBy self now) ∧
      ¬ AtLeast (self.config.minUtilization + 1) (self.balance + fundsOf .lpn call.funds)
        (dueBy self now) := by
  have hfunds : fundsOf .lpn call.funds ≤ (self.credit call.funds).balance := Nat.le_add_left _ _
  simp only [Pool.execute, hm] at h
  obtain ⟨limit, hcapacity, hlt⟩ :=
    rejected_capacity (self.credit call.funds) now call.sender call.funds hp ht hfunds hmin h
  obtain ⟨hdue, hlimit⟩ :=
    capacity_ok (self.credit call.funds) now _ _ hp ht hfunds hmin hcapacity
  rw [Option.some.inj hlimit] at hlt
  have hbefore : (self.credit call.funds).balance - fundsOf .lpn call.funds = self.balance :=
    Nat.add_sub_cancel _ _
  rw [hbefore] at hlt
  exact ⟨hdue, past_capacity _ _ _ _ hmin hlt⟩

/-- With a minimum of the utilization the capacity only overflows. An accepted deposit leaves the
utilization at the minimum or above it, and one rejected for the capacity would leave it less than
a permille above the minimum, if not below. -/
theorem deposits_keep_utilization (self : Pool) (now : ℕ) (hp : self.total.Proper)
    (ht : self.total.lastUpdateTime ≤ now) (hmin : 0 < self.config.minUtilization) :
    (∀ pending ≤ self.balance, FaultsIn Overflows (self.depositCapacity now pending)) ∧
    ∀ call : Call, call.msg = .deposit →
      (∀ next, self.execute now call = .ok next → next.totalDue now = .ok (dueBy next now) ∧
        AtLeast self.config.minUtilization next.balance (dueBy next now)) ∧
      (self.execute now call = failing .utilizationBelowMinimalRates →
        self.totalDue now = .ok (dueBy self now) ∧
          ¬ AtLeast (self.config.minUtilization + 1) (self.balance + fundsOf .lpn call.funds)
            (dueBy self now)) := by
  refine ⟨?_, fun call hm => ⟨fun next => ?_, ?_⟩⟩
  · intro pending hpending
    exact evaluates_faults _ _ (depositCapacity_evaluates self now pending hp ht hpending hmin)
  · exact accepted_utilization self next now call hp ht hmin hm
  · exact rejected_utilization self now call hp ht hmin hm

def utilizedConfig : Config where
  leaseCode := 1
  borrowRate := ⟨60, 650, 30, by decide, by decide, by decide, by decide⟩
  minUtilization := 400
  min_utilization_le := by decide

def utilizedPool (balance : ℕ) (lenders : Deposits) : Pool :=
  ⟨utilizedConfig, 0, ⟨5, 0, ⟨1, 5⟩, 10⟩, AList.insert 5 ⟨5, 200, 10⟩ ∅, lenders, balance, 0⟩

def utilizedLenders : Deposits := ⟨AList.insert 9 ⟨10, none, 0⟩ ∅, ⟨10, none⟩⟩

def toppedUp : Deposits := ⟨AList.insert 9 ⟨12, none, 0⟩ ∅, ⟨12, none⟩⟩

def deposits (amount : ℕ) : Call := ⟨9, none, [⟨.lpn, amount⟩], .deposit⟩

set_option maxRecDepth 4000 in
/-- The whole of the capacity is accepted, and a unit more than it is not. -/
theorem deposits_keep_utilization_sample :
    (utilizedPool 5 utilizedLenders).execute 10 (deposits 2) = .ok (utilizedPool 7 toppedUp) ∧
    (utilizedPool 5 utilizedLenders).execute 10 (deposits 3) =
      failing .utilizationBelowMinimalRates ∧
    AtLeast 400 7 5 ∧ ¬ AtLeast 401 (5 + 3) 5 := by
  have haccepted : (utilizedPool 5 utilizedLenders).execute 10 (deposits 2) =
      .ok (utilizedPool 7 toppedUp) := by rfl
  have hrejected : (utilizedPool 5 utilizedLenders).execute 10 (deposits 3) =
      failing .utilizationBelowMinimalRates := by rfl
  have hkeeps := (deposits_keep_utilization (utilizedPool 5 utilizedLenders) 10 (by decide)
    (by decide) (by decide)).2
  exact ⟨haccepted, hrejected, ((hkeeps (deposits 2) rfl).1 _ haccepted).2,
    ((hkeeps (deposits 3) rfl).2 hrejected).2⟩

end Nolus.LppCapacity
