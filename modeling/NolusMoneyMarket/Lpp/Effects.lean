import NolusMoneyMarket.Lpp.Pool

/-! # Effects of the pool messages

What each successful message does to the loans, the totals, the receipts and
the balance of the pool, stated once with the exact values. The invariants are
derived from these effects and never look into the message handlers again. -/

set_option autoImplicit false

namespace Nolus.LppEffects
open Nolus.Fallible Nolus.Fraction Nolus.Prices Nolus.LppLoan Nolus.LppTotal
open Nolus.LppConfig Nolus.LppDeposit Nolus.LppPool Nolus.KeyedStore

structure LoanOpened (old : Pool) (now : ℕ) (lease : Addr) (amount rate funds : ℕ)
    (next : Pool) : Prop where
  amount_pos : 0 < amount
  fresh : old.loans.lookup lease = none
  loans : next.loans = old.loans.insert lease ⟨amount, rate, now⟩
  total : Borrowed old.total now amount rate next.total
  lenders : next.lenders = old.lenders
  balance : next.balance + amount = old.balance + funds

structure LoanRepaid (old : Pool) (now : ℕ) (lease : Addr) (loan : Loan) (payment : ℕ)
    (next : Pool) : Prop where
  found : old.loans.lookup lease = some loan
  loans : next.loans = if (loan.repaid now payment).principalDue = 0 then old.loans.erase lease
    else old.loans.insert lease (loan.repaid now payment)
  total : Repaid old.total now (loan.shares now payment).interest
    (loan.shares now payment).principal loan.annualInterestRate next.total
  lenders : next.lenders = old.lenders
  balance : next.balance + (loan.shares now payment).excess = old.balance + payment

structure Deposited (old : Pool) (now amount : ℕ) (next : Pool) : Prop where
  amount_pos : 0 < amount
  total : next.total = old.total
  loans : next.loans = old.loans
  time : 0 < old.supply → old.total.lastUpdateTime ≤ now
  supply : next.supply = old.supply + old.minted now amount
  receipts : next.lenders.receipts = old.lenders.receipts + old.minted now amount
  balance : next.balance = old.balance + amount

structure Withdrawn (old : Pool) (now burnt funds paid : ℕ) (next : Pool) : Prop where
  total : next.total = old.total
  loans : next.loans = old.loans
  covered : burnt ≤ old.supply
  supply : next.supply = old.supply - burnt
  receipts : next.lenders.receipts + burnt = old.lenders.receipts
  price : paid = if old.supply = 0 then burnt
    else (old.worth now + funds) * burnt / old.supply
  balance : next.balance + paid = old.balance + funds

structure Idle (old next : Pool) : Prop where
  total : next.total = old.total
  loans : next.loans = old.loans
  supply : next.supply = old.supply
  receipts : next.lenders.receipts = old.lenders.receipts
  balance : old.balance ≤ next.balance

/-- The effect of an event, indexed by whether the event is a loan operation. -/
inductive Effect (now : ℕ) (old next : Pool) : Bool → Prop
  | opened (lease : Addr) (amount rate funds : ℕ) :
      LoanOpened old now lease amount rate funds next → Effect now old next true
  | repaid (lease : Addr) (loan : Loan) (payment : ℕ) :
      LoanRepaid old now lease loan payment next → Effect now old next true
  | deposited (amount : ℕ) : Deposited old now amount next → Effect now old next false
  | withdrawn (burnt funds paid : ℕ) :
      Withdrawn old now burnt funds paid next → Effect now old next false
  | idle : Idle old next → Effect now old next false

def loanOperation : Event → Bool
  | .execute ⟨_, _, _, .openLoan _⟩ => true
  | .execute ⟨_, _, _, .repayLoan⟩ => true
  | _ => false

theorem receivedOne_funds (denom : Denom) (funds : List CwCoin) (amount : ℕ)
    (h : receivedOne denom funds = .ok amount) : fundsOf denom funds = amount := by
  match funds with
  | [] => simp [receivedOne] at h
  | [coin] =>
    simp only [receivedOne] at h
    split_ifs at h with hd
    · simpa [fundsOf, hd] using h
    · simp at h
  | _ :: _ :: _ => simp [receivedOne] at h

theorem sendLpn_ok (self next : Pool) (amount : ℕ) (h : self.sendLpn amount = .ok next) :
    amount ≤ self.balance ∧ next = { self with balance := self.balance - amount } := by
  unfold Pool.sendLpn at h
  split_ifs at h with hb
  · exact ⟨hb, ((pure_ok _ _).1 h).symm⟩
  · simp at h

theorem sendNls_ok (self next : Pool) (amount : ℕ) (h : self.sendNls amount = .ok next) :
    amount ≤ self.balanceNls ∧ next = { self with balanceNls := self.balanceNls - amount } := by
  unfold Pool.sendNls at h
  split_ifs at h with hb
  · exact ⟨hb, ((pure_ok _ _).1 h).symm⟩
  · simp at h

theorem totalLpn_ok (self : Pool) (now pending v : ℕ) (hp : self.total.Proper)
    (h : self.totalLpn now pending = .ok v) :
    pending ≤ self.balance ∧ self.total.lastUpdateTime ≤ now ∧
      v = self.balance - pending + (self.total.totalPrincipalDue + self.total.interestBy now) := by
  simp only [Pool.totalLpn, Pool.commitedBalance, Pool.totalDue, bind_ok, nativeSub_ok,
    coinAdd_ok] at h
  obtain ⟨_, ⟨hb, rfl⟩, _, ⟨i, hi, _, rfl⟩, _, rfl⟩ := h
  obtain ⟨ht, rfl⟩ := totalInterestDueByNow_ok _ _ _ hp hi
  exact ⟨hb, ht, rfl⟩

theorem openLoan_opens (self next : Pool) (now : ℕ) (call : Call) (amount : ℕ)
    (hp : self.total.Proper) (hm : call.msg = .openLoan amount)
    (h : self.execute now call = .ok next) :
    ∃ rate, LoanOpened self now call.sender amount rate (fundsOf .lpn call.funds) next := by
  simp only [Pool.execute, hm, Pool.tryOpenLoan, bind_ok, ensure_ok, okOr_ok] at h
  obtain ⟨_, _, _, ha, quote, hq, rate, rfl, loans, hl, total, ht, h⟩ := h
  obtain ⟨hb, rfl⟩ := sendLpn_ok _ _ _ h
  obtain ⟨hf, rfl⟩ := openLoan_ok _ _ _ _ hl
  exact ⟨rate, Nat.pos_of_ne_zero ha, hf, rfl, borrow_ok _ _ _ _ _ hp ht, rfl,
    Nat.sub_add_cancel hb⟩

theorem openLoan_effect (self next : Pool) (now : ℕ) (call : Call) (amount : ℕ)
    (hp : self.total.Proper) (hm : call.msg = .openLoan amount)
    (h : self.execute now call = .ok next) : Effect now self next true := by
  obtain ⟨rate, hopened⟩ := openLoan_opens self next now call amount hp hm h
  exact Effect.opened _ _ _ _ hopened

theorem repayLoan_effect (self next : Pool) (now : ℕ) (call : Call)
    (hp : self.total.Proper) (hm : call.msg = .repayLoan)
    (h : self.execute now call = .ok next) : Effect now self next true := by
  simp only [Pool.execute, hm, Pool.tryRepayLoan, bind_ok] at h
  obtain ⟨payment, hf, _, _, loan, hl, ⟨loan', shares⟩, hr, loans, hs, total, ht, h⟩ := h
  have hfound := (load_ok _ _ _).1 hl
  obtain ⟨rfl, rfl⟩ := LppLoan.repay_ok _ _ _ _ _ hr
  dsimp only at hs ht h
  have hsave := save_ok _ _ _ loan (loan.repaid now payment) hfound rfl hs
  obtain ⟨hb, rfl⟩ := sendLpn_ok _ _ _ h
  apply Effect.repaid call.sender loan payment
  have hfunds := receivedOne_funds _ _ _ hf
  refine ⟨hfound, hsave, LppTotal.repay_ok _ _ _ _ _ _ hp ht, rfl, ?_⟩
  simp only [Pool.credit, hfunds] at hb ⊢
  exact Nat.sub_add_cancel hb

theorem calculatePrice_ok (self : Pool) (now pending : ℕ) (price : Price)
    (hp : self.total.Proper) (h : self.calculatePrice now pending = .ok price) :
    (self.supply = 0 ∧ price = Price.identity) ∨
      (0 < self.supply ∧ pending ≤ self.balance ∧ self.total.lastUpdateTime ≤ now ∧
        (Price.new self.supply (self.worth now - pending) :
          Outcome ContractError Price) = .ok price) := by
  unfold Pool.calculatePrice at h
  split_ifs at h with h0
  · exact .inl ⟨h0, ((pure_ok _ _).1 h).symm⟩
  · simp only [bind_ok] at h
    obtain ⟨w, hw, hn⟩ := h
    obtain ⟨hb, ht, hwe⟩ := totalLpn_ok _ _ _ _ hp hw
    have hworth : w = self.worth now - pending := by
      rw [hwe, Pool.worth]
      omega
    rw [hworth] at hn
    exact .inr ⟨Nat.pos_of_ne_zero h0, hb, ht, hn⟩

theorem minted_ok (self : Pool) (now pending minted : ℕ) (price : Price) (ha : 0 < pending)
    (hp : self.total.Proper) (hc : self.calculatePrice now pending = .ok price)
    (h : (Prices.total pending price.inv : Outcome ContractError ℕ) = .ok minted) :
    minted = (if self.supply = 0 then pending
        else self.supply * pending / (self.worth now - pending)) ∧
      (0 < self.supply → self.total.lastUpdateTime ≤ now) := by
  rcases calculatePrice_ok _ _ _ _ hp hc with ⟨h0, rfl⟩ | ⟨hs, hb, ht, hn⟩
  · have hv := of_ok ⟨pending, 1⟩ 1 minted Nat.one_pos h
    have hpos : ¬ 0 < self.supply := by omega
    simp [hv, Ratio.part, h0]
  · have hq : 0 < self.worth now - pending := by
      have hpos := safeMul_total_pos _ _ _ _ ha h
      obtain ⟨hg, _, h2⟩ := new_ok _ _ _ hn
      rw [← h2]
      exact Nat.mul_pos hpos hg
    have hv := total_inv_new _ _ _ _ _ hq hn h
    rw [if_neg (by omega), hv]
    exact ⟨rfl, fun _ => ht⟩

theorem deposit_deposits (self next : Pool) (now : ℕ) (call : Call)
    (hp : self.total.Proper) (hm : call.msg = .deposit)
    (h : self.execute now call = .ok next) :
    Deposited self now (fundsOf .lpn call.funds) next ∧
      (next.lenders.loadOrDefault call.sender).depositedNlpn =
        (self.lenders.loadOrDefault call.sender).depositedNlpn +
          self.minted now (fundsOf .lpn call.funds) := by
  simp only [Pool.execute, hm, Pool.tryDeposit, bind_ok, ensure_ok, pure_ok] at h
  obtain ⟨amount, hf, _, _, _, _, price, hc, ⟨lenders, minted⟩, hd, rfl⟩ := h
  have hfunds := receivedOne_funds _ _ _ hf
  obtain ⟨ha, ht, hg, hr, hl⟩ := deposit_ok _ _ _ _ _ _ hd
  obtain ⟨hmint, hlast⟩ := minted_ok (self.credit call.funds) now amount minted price ha hp hc ht
  have hworth : (self.credit call.funds).worth now - amount = self.worth now := by
    simp only [Pool.worth, Pool.credit, hfunds]
    omega
  have hminted : minted = self.minted now amount := by
    rw [hmint, hworth]
    rfl
  rw [hminted] at hg hr hl
  rw [hfunds]
  exact ⟨⟨ha, rfl, rfl, hlast, hg, hr, by simp [Pool.credit, hfunds]⟩, hl⟩

theorem deposit_effect (self next : Pool) (now : ℕ) (call : Call)
    (hp : self.total.Proper) (hm : call.msg = .deposit)
    (h : self.execute now call = .ok next) : Effect now self next false :=
  Effect.deposited _ (deposit_deposits self next now call hp hm h).1

theorem redeemed_ok (self : Pool) (now burnt paid : ℕ) (hp : self.total.Proper)
    (h : self.withdrawLpn now burnt = .ok paid) :
    paid = if self.supply = 0 then burnt else self.worth now * burnt / self.supply := by
  simp only [Pool.withdrawLpn, bind_ok] at h
  obtain ⟨price, hc, amount, ha, h⟩ := h
  split_ifs at h with hb
  · simp at h
  have he := (pure_ok _ _).1 h
  subst he
  rcases calculatePrice_ok _ _ _ _ hp hc with ⟨h0, rfl⟩ | ⟨hs, _, _, hn⟩
  · have hv := of_ok ⟨burnt, 1⟩ 1 amount Nat.one_pos ha
    rw [if_pos h0, hv]
    simp [Ratio.part]
  · have hv := total_new _ _ _ _ _ hs hn ha
    rw [if_neg (by omega), hv]
    rfl

theorem withdraw_effect (self next : Pool) (now : ℕ) (call : Call) (amount : ℕ)
    (hp : self.total.Proper) (hm : call.msg = .burn amount)
    (h : self.execute now call = .ok next) : Effect now self next false := by
  simp only [Pool.execute, hm, Pool.tryWithdraw, bind_ok, ensure_ok] at h
  obtain ⟨_, _, paid, hw, data, hl, ⟨lenders, reward⟩, hd, mid, hs, h⟩ := h
  have hpaid := redeemed_ok _ _ _ _ (by exact hp) hw
  have hfound := (okOr_ok _ _ _).1 hl
  obtain ⟨hc, hg, hr⟩ := withdraw_ok _ _ _ _ _ _ hfound hd
  obtain ⟨hb, rfl⟩ := sendLpn_ok _ _ _ hs
  obtain ⟨-, rfl⟩ := sendNls_ok _ _ _ h
  have hworth : (self.credit call.funds).worth now = self.worth now + fundsOf .lpn call.funds := by
    simp only [Pool.worth, Pool.credit]
    omega
  rw [hworth] at hpaid
  apply Effect.withdrawn amount (fundsOf .lpn call.funds) paid
  exact ⟨rfl, rfl, hc, hg, hr, hpaid, Nat.sub_add_cancel hb⟩

theorem rewards_effect (self next : Pool) (now : ℕ) (call : Call)
    (hm : call.msg = .distributeRewards ∨ call.msg = .claimRewards ∨
      ∃ code, call.msg = .newLeaseCode code)
    (h : self.execute now call = .ok next) : Effect now self next false := by
  apply Effect.idle
  rcases hm with hm | hm | ⟨code, hm⟩
  · simp only [Pool.execute, hm, Pool.tryDistributeRewards, bind_ok, pure_ok] at h
    obtain ⟨_, _, lenders, hd, rfl⟩ := h
    obtain ⟨h1, h2⟩ := distributeRewards_ok _ _ _ hd
    exact ⟨rfl, rfl, h2, by simp [Deposits.receipts, h1, Pool.credit], Nat.le_add_right _ _⟩
  · simp only [Pool.execute, hm, Pool.tryClaimRewards, bind_ok, ensure_ok] at h
    obtain ⟨data, hl, ⟨lenders, reward⟩, hc, _, _, h⟩ := h
    obtain ⟨h1, h2⟩ := claimRewards_ok _ _ _ _ _ ((okOr_ok _ _ _).1 hl) hc
    obtain ⟨-, rfl⟩ := sendNls_ok _ _ _ h
    exact ⟨rfl, rfl, by simp [Pool.supply, h1, Pool.credit], h2, Nat.le_add_right _ _⟩
  · simp only [Pool.execute, hm, Pool.newLeaseCode, bind_ok, ensure_ok, pure_ok] at h
    obtain ⟨_, _, rfl⟩ := h
    exact ⟨rfl, rfl, rfl, rfl, Nat.le_add_right _ _⟩

/-- Every successful event has one of the five effects, and it changes the loans
exactly when it is a loan operation. -/
theorem handle_effect (self next : Pool) (now : ℕ) (event : Event) (hp : self.total.Proper)
    (h : self.handle now event = .ok next) : Effect now self next (loanOperation event) := by
  match event with
  | .execute ⟨sender, code, funds, msg⟩ =>
    have he : self.execute now ⟨sender, code, funds, msg⟩ = .ok next := h
    cases msg with
    | newLeaseCode c =>
      exact rewards_effect _ _ _ ⟨sender, code, funds, _⟩ (.inr (.inr ⟨c, rfl⟩)) he
    | distributeRewards => exact rewards_effect _ _ _ ⟨sender, code, funds, _⟩ (.inl rfl) he
    | claimRewards => exact rewards_effect _ _ _ ⟨sender, code, funds, _⟩ (.inr (.inl rfl)) he
    | openLoan amount => exact openLoan_effect _ _ _ ⟨sender, code, funds, _⟩ amount hp rfl he
    | repayLoan => exact repayLoan_effect _ _ _ ⟨sender, code, funds, _⟩ hp rfl he
    | deposit => exact deposit_effect _ _ _ ⟨sender, code, funds, _⟩ hp rfl he
    | burn amount => exact withdraw_effect _ _ _ ⟨sender, code, funds, _⟩ amount hp rfl he
  | .newBorrowRate rate =>
    have he := (pure_ok _ _).1 h
    subst he
    exact Effect.idle ⟨rfl, rfl, rfl, rfl, le_refl _⟩
  | .minUtilization level bound =>
    have he := (pure_ok _ _).1 h
    subst he
    exact Effect.idle ⟨rfl, rfl, rfl, rfl, le_refl _⟩
  | .transfer funds =>
    have he := (pure_ok _ _).1 h
    subst he
    exact Effect.idle ⟨rfl, rfl, rfl, rfl, Nat.le_add_right _ _⟩

end Nolus.LppEffects
