import NolusMoneyMarket.Finance.Price
import NolusMoneyMarket.Lpp.Loan

/-! # Lenders' deposits

A deposit is kept in pool receipts together with the rewards accounted so far.
The receipts of all deposits are also kept as one global balance, which the
operations change along with the deposit they touch. -/

set_option autoImplicit false

namespace Nolus.LppDeposit
open Nolus.Fallible Nolus.Fraction Nolus.Prices Nolus.LppLoan Nolus.KeyedStore

structure DepositData where
  depositedNlpn : ℕ
  rewardPerToken : Option Price
  pendingRewardsNls : ℕ
deriving DecidableEq, Repr

structure DepositsGlobals where
  balanceNlpn : ℕ
  rewardPerToken : Option Price
deriving DecidableEq, Repr

def DepositData.default : DepositData := ⟨0, none, 0⟩
def DepositsGlobals.default : DepositsGlobals := ⟨0, none⟩

structure Deposits where
  deposits : Store Addr DepositData
  globals : DepositsGlobals

def Deposits.loadOrDefault (self : Deposits) (addr : Addr) : DepositData :=
  (self.deposits.lookup addr).getD DepositData.default

def Deposits.load (self : Deposits) (addr : Addr) : Outcome ContractError DepositData :=
  okOr (self.deposits.lookup addr) .noDeposit

variable {ε : Type}

def rewardOf (amount : ℕ) (rewardPerToken : Option Price) : Outcome ε ℕ :=
  match rewardPerToken with
  | some price => total amount price
  | none => pure 0

def DepositData.calculateReward (self : DepositData) (globals : DepositsGlobals) :
    Outcome ε ℕ := do
  let globalReward ← rewardOf self.depositedNlpn globals.rewardPerToken
  let depositReward ← rewardOf self.depositedNlpn self.rewardPerToken
  let reward ← coinAdd self.pendingRewardsNls globalReward
  nativeSub reward depositReward

def DepositData.updateRewards (self : DepositData) (globals : DepositsGlobals) :
    Outcome ε DepositData := do
  let pending ← self.calculateReward globals
  pure ⟨self.depositedNlpn, globals.rewardPerToken, pending⟩

def Deposits.deposit (self : Deposits) (addr : Addr) (amountLpn : ℕ) (price : Price) :
    Outcome ContractError (Deposits × ℕ) :=
  if amountLpn = 0 then failing .zeroDepositFunds
  else do
    let data ← (self.loadOrDefault addr).updateRewards self.globals
    let depositedNlpn ← total amountLpn price.inv
    let newDeposited ← nativeAdd amountBits data.depositedNlpn depositedNlpn
    let newBalance ← okOr (checkedAdd amountBits self.globals.balanceNlpn depositedNlpn)
      (.overflowError "Balance overflow")
    pure (⟨self.deposits.insert addr { data with depositedNlpn := newDeposited },
      { self.globals with balanceNlpn := newBalance }⟩, depositedNlpn)

/-- The withdrawal of receipts, with the rewards to pay out when the deposit is closed. -/
def Deposits.withdraw (self : Deposits) (addr : Addr) (old : DepositData) (amountNlpn : ℕ) :
    Outcome ContractError (Deposits × Option ℕ) :=
  if old.depositedNlpn < amountNlpn then failing .insufficientBalance
  else do
    let data ← old.updateRewards self.globals
    let newDeposited ← nativeSub data.depositedNlpn amountNlpn
    let newBalance ← nativeSub self.globals.balanceNlpn amountNlpn
    let globals := { self.globals with balanceNlpn := newBalance }
    if newDeposited = 0 then
      pure (⟨self.deposits.erase addr, globals⟩, some data.pendingRewardsNls)
    else
      pure (⟨self.deposits.insert addr { data with depositedNlpn := newDeposited }, globals⟩, none)

def rewardPerTokenAdd (current : Option Price) (partialPrice : Price) : Outcome ε Price :=
  match current with
  | some price => price.add partialPrice
  | none => pure partialPrice

def Deposits.distributeRewards (self : Deposits) (rewards : ℕ) :
    Outcome ContractError Deposits :=
  if self.globals.balanceNlpn = 0 then failing .zeroBalanceRewards
  else if rewards = 0 then failing .zeroRewardsFunds
  else do
    let partialPrice ← Price.new self.globals.balanceNlpn rewards
    let rewardPerToken ← rewardPerTokenAdd self.globals.rewardPerToken partialPrice
    pure { self with globals := { self.globals with rewardPerToken := some rewardPerToken } }

def Deposits.claimRewards (self : Deposits) (addr : Addr) (old : DepositData) :
    Outcome ContractError (Deposits × ℕ) := do
  let data ← old.updateRewards self.globals
  pure ({ self with deposits := self.deposits.insert addr { data with pendingRewardsNls := 0 } },
    data.pendingRewardsNls)

def Deposits.receipts (self : Deposits) : ℕ := sum DepositData.depositedNlpn self.deposits

def Deposits.Balanced (self : Deposits) : Prop := self.receipts = self.globals.balanceNlpn

theorem updateRewards_deposited (old data : DepositData) (globals : DepositsGlobals)
    (h : (old.updateRewards globals : Outcome ε DepositData) = .ok data) :
    data.depositedNlpn = old.depositedNlpn := by
  simp only [DepositData.updateRewards, bind_ok, pure_ok] at h
  obtain ⟨_, _, rfl⟩ := h
  rfl

theorem receipts_insert (self : Deposits) (addr : Addr) (data : DepositData) :
    (self.loadOrDefault addr).depositedNlpn +
        sum DepositData.depositedNlpn (self.deposits.insert addr data) =
      data.depositedNlpn + self.receipts :=
  sum_write DepositData.depositedNlpn self.deposits addr DepositData.default data rfl

theorem deposit_ok (self next : Deposits) (addr : Addr) (amountLpn minted : ℕ) (price : Price)
    (h : self.deposit addr amountLpn price = .ok (next, minted)) :
    0 < amountLpn ∧ (total amountLpn price.inv : Outcome ContractError ℕ) = .ok minted ∧
      next.globals.balanceNlpn = self.globals.balanceNlpn + minted ∧
      next.receipts = self.receipts + minted ∧
      (next.loadOrDefault addr).depositedNlpn =
        (self.loadOrDefault addr).depositedNlpn + minted := by
  unfold Deposits.deposit at h
  split_ifs at h with h0
  · simp at h
  simp only [bind_ok, nativeAdd_ok, okOr_ok, checkedAdd_some, pure_ok, Prod.mk.injEq] at h
  obtain ⟨data, hd, m, hm, _, ⟨_, rfl⟩, _, ⟨_, rfl⟩, rfl, rfl⟩ := h
  have hsum := receipts_insert self addr { data with depositedNlpn := data.depositedNlpn + m }
  rw [updateRewards_deposited _ _ _ hd] at hsum ⊢
  refine ⟨Nat.pos_of_ne_zero h0, hm, rfl, ?_, ?_⟩
  · simp only [Deposits.receipts] at hsum ⊢
    omega
  · rw [Deposits.loadOrDefault, AList.lookup_insert]
    rfl

theorem withdraw_ok (self next : Deposits) (addr : Addr) (old : DepositData) (amountNlpn : ℕ)
    (reward : Option ℕ) (ho : self.deposits.lookup addr = some old)
    (h : self.withdraw addr old amountNlpn = .ok (next, reward)) :
    amountNlpn ≤ self.globals.balanceNlpn ∧
      next.globals.balanceNlpn = self.globals.balanceNlpn - amountNlpn ∧
      next.receipts + amountNlpn = self.receipts := by
  unfold Deposits.withdraw at h
  split_ifs at h with h0
  · simp at h
  simp only [bind_ok, nativeSub_ok] at h
  obtain ⟨data, hd, _, ⟨hle, rfl⟩, _, ⟨hb, rfl⟩, h⟩ := h
  have hdep := updateRewards_deposited _ _ _ hd
  split_ifs at h with h1
  · simp only [pure_ok, Prod.mk.injEq] at h
    obtain ⟨rfl, _⟩ := h
    have hs := sum_erase DepositData.depositedNlpn self.deposits addr old ho
    refine ⟨hb, rfl, ?_⟩
    simp only [Deposits.receipts]
    omega
  · simp only [pure_ok, Prod.mk.injEq] at h
    obtain ⟨rfl, _⟩ := h
    have hs := sum_replace DepositData.depositedNlpn self.deposits addr old
      { data with depositedNlpn := data.depositedNlpn - amountNlpn } ho
    refine ⟨hb, rfl, ?_⟩
    simp only [Deposits.receipts] at hs ⊢
    omega

theorem distributeRewards_ok (self next : Deposits) (rewards : ℕ)
    (h : self.distributeRewards rewards = .ok next) :
    next.deposits = self.deposits ∧ next.globals.balanceNlpn = self.globals.balanceNlpn := by
  unfold Deposits.distributeRewards at h
  split_ifs at h with h0 h1
  · simp at h
  · simp at h
  · simp only [bind_ok, pure_ok] at h
    obtain ⟨_, _, _, _, rfl⟩ := h
    exact ⟨rfl, rfl⟩

theorem claimRewards_ok (self next : Deposits) (addr : Addr) (old : DepositData) (reward : ℕ)
    (ho : self.deposits.lookup addr = some old)
    (h : self.claimRewards addr old = .ok (next, reward)) :
    next.globals = self.globals ∧ next.receipts = self.receipts := by
  simp only [Deposits.claimRewards, bind_ok, pure_ok, Prod.mk.injEq] at h
  obtain ⟨data, hd, rfl, _⟩ := h
  have hdep := updateRewards_deposited _ _ _ hd
  have hs := sum_replace DepositData.depositedNlpn self.deposits addr old
    { data with pendingRewardsNls := 0 } ho
  refine ⟨rfl, ?_⟩
  simp only [Deposits.receipts] at hs ⊢
  omega

end Nolus.LppDeposit
