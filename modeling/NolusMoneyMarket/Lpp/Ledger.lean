import NolusMoneyMarket.Lpp.Effects

/-! # The two ledgers of the pool

The loans and the totals are updated by different code with different clamps.
In every reachable state the total principal is the sum of the principals of
the loans, and the receipts of the lenders sum up to the global balance. -/

set_option autoImplicit false

namespace Nolus.LppLedger
open Nolus.Fallible Nolus.Fraction Nolus.LppLoan Nolus.LppTotal Nolus.LppConfig
open Nolus.LppDeposit Nolus.LppPool Nolus.LppEffects Nolus.KeyedStore Nolus.Runs
open Nolus.Interest (year)

structure Ledger (pool : Pool) : Prop where
  proper : pool.total.Proper
  principal : pool.total.totalPrincipalDue = sum Loan.principalDue pool.loans
  positive : All (fun loan => 0 < loan.principalDue) pool.loans
  receipts : pool.lenders.receipts = pool.supply

theorem opened_ledger (old next : Pool) (now : ℕ) (lease : Addr) (amount rate funds : ℕ)
    (h : LoanOpened old now lease amount rate funds next) (hl : Ledger old) : Ledger next := by
  have hsum : sum Loan.principalDue next.loans = amount + sum Loan.principalDue old.loans := by
    rw [h.loans, sum_insert_new _ _ _ _ h.fresh]
  have hprincipal := h.total.principal
  have hold := hl.principal
  constructor
  · exact borrowed_proper _ _ _ _ _ h.amount_pos h.total
  · omega
  · rw [h.loans]
    exact all_insert _ _ _ _ hl.positive h.amount_pos
  · rw [Pool.supply, h.lenders]
    exact hl.receipts

theorem principal_le_total (pool : Pool) (lease : Addr) (loan : Loan) (hl : Ledger pool)
    (h : pool.loans.lookup lease = some loan) :
    loan.principalDue ≤ pool.total.totalPrincipalDue := by
  rw [hl.principal]
  exact le_sum Loan.principalDue pool.loans lease loan h

theorem repaid_ledger (old next : Pool) (now : ℕ) (lease : Addr) (loan : Loan) (payment : ℕ)
    (h : LoanRepaid old now lease loan payment next) (hl : Ledger old) : Ledger next := by
  have herase := sum_erase Loan.principalDue old.loans lease loan h.found
  have hpaid := principal_paid_le loan now payment
  have hleft : (loan.repaid now payment).principalDue =
      loan.principalDue - (loan.shares now payment).principal := rfl
  have hprincipal := h.total.principal
  have hold := hl.principal
  constructor
  · exact repaid_proper _ _ _ _ _ _ h.total
  · rw [h.loans]
    split_ifs with h0
    · omega
    · rw [sum_insert]
      omega
  · rw [h.loans]
    split_ifs with h0
    · exact all_erase _ _ _ hl.positive
    · exact all_insert _ _ _ _ hl.positive (Nat.pos_of_ne_zero h0)
  · rw [Pool.supply, h.lenders]
    exact hl.receipts

theorem same_loans_ledger (old next : Pool) (ht : next.total = old.total)
    (hl : next.loans = old.loans) (hr : next.lenders.receipts = next.supply)
    (h : Ledger old) : Ledger next := by
  constructor
  · rw [ht]
    exact h.proper
  · rw [ht, hl]
    exact h.principal
  · rw [hl]
    exact h.positive
  · exact hr

theorem effect_ledger (old next : Pool) (now : ℕ) (loanOp : Bool)
    (h : Effect now old next loanOp) (hl : Ledger old) : Ledger next := by
  have hr := hl.receipts
  cases h with
  | opened lease amount rate funds h => exact opened_ledger _ _ _ _ _ _ _ h hl
  | repaid lease loan payment h => exact repaid_ledger _ _ _ _ _ _ h hl
  | deposited amount h =>
    have hs := h.supply
    have hn := h.receipts
    exact same_loans_ledger _ _ h.total h.loans (by omega) hl
  | withdrawn burnt funds paid h =>
    have hs := h.supply
    have hn := h.receipts
    exact same_loans_ledger _ _ h.total h.loans (by omega) hl
  | idle h =>
    have hs := h.supply
    have hn := h.receipts
    exact same_loans_ledger _ _ h.total h.loans (by omega) hl

theorem effect_time (old next : Pool) (now : ℕ) (loanOp : Bool)
    (h : Effect now old next loanOp) :
    next.total.lastUpdateTime = now ∨ next.total = old.total := by
  cases h with
  | opened lease amount rate funds h => exact .inl h.total.time.2
  | repaid lease loan payment h => exact .inl h.total.time.2
  | deposited amount h => exact .inr h.total
  | withdrawn burnt funds paid h => exact .inr h.total
  | idle h => exact .inr h.total

/-- The ledgers agree, and the totals were not updated later than the last block. -/
structure Sound (chain : Chain) : Prop where
  ledger : Ledger chain.pool
  time : chain.pool.total.lastUpdateTime ≤ chain.time

theorem step_effect (chain : Chain) (label : ℕ × Event) (next : Chain)
    (h : Step chain label next) (hs : Sound chain) :
    Effect label.1 chain.pool next.pool (loanOperation label.2) :=
  handle_effect _ _ _ _ hs.ledger.proper h.2.1

theorem step_sound (chain : Chain) (label : ℕ × Event) (next : Chain)
    (h : Step chain label next) (hs : Sound chain) : Sound next := by
  have heff := step_effect _ _ _ h hs
  obtain ⟨htime, -, hclock⟩ := h
  have hold := hs.time
  constructor
  · exact effect_ledger _ _ _ _ heff hs.ledger
  · rcases effect_time _ _ _ _ heff with hl | hl
    · omega
    · rw [hl]
      omega

theorem empty_sound (chain : Chain) (h : Empty chain) : Sound chain := by
  obtain ⟨ht, hl, hd⟩ := h
  constructor
  · constructor
    · rw [ht]
      exact new_proper
    · rw [ht, hl, sum_empty]
      rfl
    · rw [hl]
      exact all_empty _
    · rw [Pool.supply, hd, Deposits.receipts, sum_empty]
      rfl
  · rw [ht]
    exact Nat.zero_le _

theorem reachable_sound (chain : Chain) (h : Reachable Step Empty chain) : Sound chain :=
  reachable_induction Empty Sound empty_sound step_sound chain h

def Foreseen (e : Fault ContractError) : Prop := e ≠ .panic principalUnderflow

theorem evaluates_foreseen {α : Type} (x : Outcome ContractError α) (v : α)
    (h : Evaluates x v) : FaultsIn Foreseen x := by
  intro e he
  obtain ⟨message, rfl⟩ := evaluates_faults x v h e he
  simp [Foreseen, principalUnderflow]

theorem receivedOne_foreseen (denom : Denom) (funds : List CwCoin) :
    FaultsIn Foreseen (receivedOne denom funds) := by
  intro e he
  match funds with
  | [] =>
    simp only [receivedOne, failing, Except.error.injEq] at he
    simp [Foreseen, ← he]
  | [coin] =>
    simp only [receivedOne] at he
    split_ifs at he
    · simp at he
    · simp only [failing, Except.error.injEq] at he
      simp [Foreseen, ← he]
  | _ :: _ :: _ =>
    simp only [receivedOne, failing, Except.error.injEq] at he
    simp [Foreseen, ← he]

theorem save_foreseen (loans : Repo) (addr : Addr) (loan : Loan) :
    FaultsIn Foreseen (loans.save addr loan) := by
  unfold Repo.save
  split_ifs
  · exact faultsIn_pure _ _
  · apply faultsIn_bind
    · exact faultsIn_okOr _ _ _ (by simp [Foreseen])
    intro loaded _
    exact faultsIn_pure _ _

theorem sendLpn_foreseen (pool : Pool) (amount : ℕ) :
    FaultsIn Foreseen (pool.sendLpn amount) := by
  unfold Pool.sendLpn
  split_ifs
  · exact faultsIn_pure _ _
  · exact faultsIn_error _ _ (by simp [Foreseen])

/-- Whatever a repayment fails with, it is not the expectation on the principal. -/
theorem repayLoan_foreseen (pool : Pool) (now : ℕ) (lease : Addr) (code : Option ℕ)
    (funds : List CwCoin) (hl : Ledger pool) (ht : pool.total.lastUpdateTime ≤ now) :
    FaultsIn Foreseen (pool.tryRepayLoan now lease code funds) := by
  apply faultsIn_bind
  · exact receivedOne_foreseen _ _
  intro amount _
  apply faultsIn_bind
  · apply faultsIn_bind
    · exact faultsIn_okOr _ _ _ (by simp [Foreseen])
    intro id _
    exact faultsIn_ensure _ _ _ fun _ => by simp [Foreseen]
  intro _ _
  apply faultsIn_bind
  · exact faultsIn_okOr _ _ _ (by simp [Foreseen])
  intro loan hload
  apply faultsIn_bind
  · exact evaluates_foreseen _ _ (LppLoan.repay_evaluates loan now amount)
  intro ⟨repaid, payment⟩ hr
  have hshares := (LppLoan.repay_ok _ _ _ _ _ hr).2
  apply faultsIn_bind
  · exact save_foreseen _ _ _
  intro loans _
  apply faultsIn_bind
  · have hpaid := principal_paid_le loan now amount
    have htotal := principal_le_total _ _ _ hl ((load_ok _ _ _).1 hload)
    rw [← hshares] at hpaid
    exact evaluates_foreseen _ _
      (LppTotal.repay_evaluates _ _ _ _ _ (hpaid.trans htotal) ht hl.proper)
  intro total _
  exact sendLpn_foreseen _ _

theorem credit_ledger (pool : Pool) (funds : List CwCoin) (h : Ledger pool) :
    Ledger (pool.credit funds) :=
  same_loans_ledger pool (pool.credit funds) rfl rfl h.receipts h

/-- The total principal is the sum of the principals of the stored loans, none of which
is zero, and subtracting the principal of a repayment never underflows. -/
theorem total_principal_matches_loans (chain : Chain) (h : Reachable Step Empty chain) :
    chain.pool.total.totalPrincipalDue = sum Loan.principalDue chain.pool.loans ∧
      All (fun loan => loan.principalDue ≠ 0) chain.pool.loans ∧
      ∀ now call, chain.time ≤ now → call.msg = .repayLoan →
        chain.pool.execute now call ≠ .error (.panic principalUnderflow) := by
  have hs := reachable_sound chain h
  have hl := hs.ledger
  constructor
  · exact hl.principal
  constructor
  · intro lease loan hfound
    exact (hl.positive lease loan hfound).ne'
  · intro now call hnow hm hfail
    simp only [Pool.execute, hm] at hfail
    have ht := hs.time
    exact repayLoan_foreseen (chain.pool.credit call.funds) now call.sender call.senderCode
      call.funds (credit_ledger _ _ hl) (ht.trans hnow) _ hfail rfl

def sampleConfig : Config where
  leaseCode := 1
  borrowRate := ⟨70, 700, 20, by decide, by decide, by decide, by decide⟩
  minUtilization := 0
  min_utilization_le := by decide

def sampleEmpty : Chain :=
  ⟨⟨sampleConfig, 0, Total.new, ∅, ⟨∅, DepositsGlobals.default⟩, 0, 0⟩, 0⟩

def sampleLenders : Deposits := ⟨AList.insert 9 ⟨1000, none, 0⟩ ∅, ⟨1000, none⟩⟩

def sampleDeposited : Chain := ⟨⟨sampleConfig, 0, Total.new, ∅, sampleLenders, 1000, 0⟩, 5⟩

def sampleOpened : Chain :=
  ⟨⟨sampleConfig, 0, ⟨100, 0, ⟨7, 100⟩, 10⟩, AList.insert 5 ⟨100, 73, 10⟩ ∅, sampleLenders,
    900, 0⟩, 10⟩

def sampleDeposit : ℕ × Event := (5, .execute ⟨9, none, [⟨.lpn, 1000⟩], .deposit⟩)
def sampleOpening : ℕ × Event := (10, .execute ⟨5, some 1, [], .openLoan 100⟩)

theorem sample_deposit : Step sampleEmpty sampleDeposit sampleDeposited :=
  ⟨by decide, rfl, rfl⟩

theorem sample_opening : Step sampleDeposited sampleOpening sampleOpened :=
  ⟨by decide, rfl, rfl⟩

def sampleBoth : Chain :=
  ⟨⟨sampleConfig, 0, ⟨400, 0, ⟨33, 400⟩, 10⟩,
    AList.insert 6 ⟨300, 89, 10⟩ (AList.insert 5 ⟨100, 73, 10⟩ ∅), sampleLenders, 600, 0⟩, 10⟩

def sampleHalved : Chain :=
  ⟨⟨sampleConfig, 0, ⟨350, 26, ⟨30, 350⟩, 10 + year⟩,
    AList.insert 5 ⟨50, 73, 10 + year⟩ (AList.insert 6 ⟨300, 89, 10⟩ ∅), sampleLenders, 657, 0⟩,
    10 + year⟩

def sampleSecond : ℕ × Event := (10, .execute ⟨6, some 1, [], .openLoan 300⟩)
def samplePayment : ℕ × Event :=
  (10 + year, .execute ⟨5, some 1, [⟨.lpn, 57⟩], .repayLoan⟩)

theorem sample_second : Step sampleOpened sampleSecond sampleBoth := ⟨by decide, rfl, rfl⟩

theorem sample_payment : Step sampleBoth samplePayment sampleHalved := ⟨by decide, rfl, rfl⟩

theorem sample_reachable : Reachable Step Empty sampleHalved := by
  refine ⟨sampleEmpty, [sampleDeposit, sampleOpening, sampleSecond, samplePayment],
    ⟨rfl, rfl, rfl⟩, ?_⟩
  refine Run.next _ sampleBoth _ [sampleDeposit, sampleOpening, sampleSecond] _ ?_ sample_payment
  refine Run.next _ sampleOpened _ [sampleDeposit, sampleOpening] _ ?_ sample_second
  exact Run.next _ sampleDeposited _ [sampleDeposit] _ (run_one _ _ _ sample_deposit) sample_opening

theorem total_principal_matches_loans_halved :
    sampleHalved.pool.total.totalPrincipalDue =
        sum Loan.principalDue sampleHalved.pool.loans ∧
      All (fun loan => loan.principalDue ≠ 0) sampleHalved.pool.loans ∧
      ∀ now call, sampleHalved.time ≤ now → call.msg = .repayLoan →
        sampleHalved.pool.execute now call ≠ .error (.panic principalUnderflow) :=
  total_principal_matches_loans sampleHalved sample_reachable

end Nolus.LppLedger
