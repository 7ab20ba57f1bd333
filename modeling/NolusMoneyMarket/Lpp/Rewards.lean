import NolusMoneyMarket.Base.RewardIndex
import NolusMoneyMarket.Finance.Accuracy
import NolusMoneyMarket.Lpp.Ledger

/-! # Rewards of the lenders

The reward per token is an index over the receipts, and a deposit is an
account of it. Every successful event either distributes rewards, or settles
one deposit, or leaves the rewards alone. The index is a sum of prices, which
is rounded down when it does not fit, so it may drop below the one a deposit
recorded; then the rewards of that deposit underflow. -/

set_option autoImplicit false

namespace Nolus.LppRewards
open Nolus.Fallible Nolus.Fraction Nolus.Prices Nolus.PriceAccuracy Nolus.LppLoan
open Nolus.LppTotal Nolus.LppDeposit Nolus.LppPool Nolus.LppEffects Nolus.LppLedger
open Nolus.KeyedStore Nolus.RewardIndex Nolus.Runs

variable {ε : Type}

def perToken (rewardPerToken : Option Price) : ℚ :=
  match rewardPerToken with
  | some price => value price
  | none => 0

def Priced (rewardPerToken : Option Price) : Prop :=
  ∀ price, rewardPerToken = some price → 0 < price.amount

def account (data : DepositData) : Account :=
  ⟨data.depositedNlpn, perToken data.rewardPerToken, data.pendingRewardsNls⟩

def index (lenders : Deposits) : ℚ := perToken lenders.globals.rewardPerToken

theorem perToken_nonneg (rewardPerToken : Option Price) : 0 ≤ perToken rewardPerToken := by
  cases rewardPerToken with
  | none => exact le_refl _
  | some price => exact value_nonneg price

theorem index_nonneg (lenders : Deposits) : 0 ≤ index lenders := perToken_nonneg _

/-! ## The code computes what is due -/

theorem rewardOf_evaluates (amount : ℕ) (rewardPerToken : Option Price)
    (h : Priced rewardPerToken) :
    Evaluates (rewardOf amount rewardPerToken : Outcome ε ℕ)
      (accrued amount (perToken rewardPerToken)) := by
  cases rewardPerToken with
  | none =>
    apply evaluates_pure_eq
    simp [accrued, perToken]
  | some price =>
    have hpart : accrued amount (value price) =
        Ratio.part ⟨amount, price.amount⟩ price.amountQuote := by
      rw [accrued, value, Ratio.part, ← Nat.floor_div_eq_div (K := ℚ), mul_div_assoc']
      congr 2
      push_cast
      ring
    simp only [rewardOf, perToken, hpart]
    exact of_evaluates ⟨amount, price.amount⟩ price.amountQuote (h price rfl)

theorem calculateReward_evaluates (data : DepositData) (globals : DepositsGlobals)
    (hg : Priced globals.rewardPerToken) (hd : Priced data.rewardPerToken)
    (h : (account data).Ahead (perToken globals.rewardPerToken)) :
    Evaluates (data.calculateReward globals : Outcome ε ℕ)
      ((account data).due (perToken globals.rewardPerToken)) := by
  apply evaluates_bind _ _ _ _ (rewardOf_evaluates _ _ hg)
  apply evaluates_bind _ _ _ _ (rewardOf_evaluates _ _ hd)
  apply evaluates_bind _ _ _ _ (coinAdd_evaluates _ _)
  exact nativeSub_evaluates _ _ h

theorem calculateReward_ok (data : DepositData) (globals : DepositsGlobals) (reward : ℕ)
    (hg : Priced globals.rewardPerToken) (hd : Priced data.rewardPerToken)
    (h : (data.calculateReward globals : Outcome ε ℕ) = .ok reward) :
    (account data).Ahead (perToken globals.rewardPerToken) ∧
      reward = (account data).due (perToken globals.rewardPerToken) := by
  simp only [DepositData.calculateReward, bind_ok, coinAdd_ok, nativeSub_ok] at h
  obtain ⟨global, h1, recorded, h2, sum, ⟨_, rfl⟩, hle, rfl⟩ := h
  have e1 := evaluates_ok _ _ _ (rewardOf_evaluates _ _ hg) h1
  have e2 := evaluates_ok _ _ _ (rewardOf_evaluates _ _ hd) h2
  subst e1
  subst e2
  exact ⟨hle, rfl⟩

theorem updateRewards_ok (old data : DepositData) (globals : DepositsGlobals)
    (h : (old.updateRewards globals : Outcome ε DepositData) = .ok data) :
    ∃ reward, (old.calculateReward globals : Outcome ε ℕ) = .ok reward ∧
      data = ⟨old.depositedNlpn, globals.rewardPerToken, reward⟩ := by
  simp only [DepositData.updateRewards, bind_ok, pure_ok] at h
  obtain ⟨reward, hr, rfl⟩ := h
  exact ⟨reward, hr, rfl⟩

/-! ## Effects on the rewards -/

structure Distributed (old next : Deposits) (rewards : ℕ) (share price : Price) : Prop where
  supply_pos : 0 < old.globals.balanceNlpn
  rewards_pos : 0 < rewards
  priced : (Price.new old.globals.balanceNlpn rewards : Outcome ContractError Price) = .ok share
  summed : (rewardPerTokenAdd old.globals.rewardPerToken share : Outcome ContractError Price) =
    .ok price
  deposits : next.deposits = old.deposits
  changed : next.globals.rewardPerToken = some price

structure Settled (old next : Deposits) (addr : Addr) (reward paid deposited : ℕ) : Prop where
  computed : ((old.loadOrDefault addr).calculateReward old.globals : Outcome ContractError ℕ) =
    .ok reward
  covered : paid ≤ reward
  deposits : next.deposits =
    old.deposits.insert addr ⟨deposited, old.globals.rewardPerToken, reward - paid⟩
  unchanged : next.globals.rewardPerToken = old.globals.rewardPerToken

structure Closed (old next : Deposits) (addr : Addr) (data : DepositData) (reward : ℕ) :
    Prop where
  found : old.deposits.lookup addr = some data
  computed : (data.calculateReward old.globals : Outcome ContractError ℕ) = .ok reward
  deposits : next.deposits = old.deposits.erase addr
  unchanged : next.globals.rewardPerToken = old.globals.rewardPerToken

/-- The effect on the rewards, indexed by the rewards distributed, the rewards paid, and
whether the receipts of an open deposit change. -/
inductive RewardEffect (old next : Deposits) : ℕ → ℕ → Bool → Prop
  | same : next.deposits = old.deposits →
      next.globals.rewardPerToken = old.globals.rewardPerToken → RewardEffect old next 0 0 false
  | distributed (rewards : ℕ) (share price : Price) :
      Distributed old next rewards share price → RewardEffect old next rewards 0 false
  | claimed (addr : Addr) (reward : ℕ) :
      Settled old next addr reward reward (old.loadOrDefault addr).depositedNlpn →
      RewardEffect old next 0 reward false
  | resized (addr : Addr) (reward deposited : ℕ) :
      Settled old next addr reward 0 deposited → RewardEffect old next 0 0 true
  | closed (addr : Addr) (data : DepositData) (reward : ℕ) :
      Closed old next addr data reward → RewardEffect old next 0 reward false

def attached (event : Event) : List CwCoin :=
  match event with
  | .execute call => call.funds
  | .transfer funds => funds
  | _ => []

def distributedBy (event : Event) : ℕ :=
  match event with
  | .execute ⟨_, _, funds, .distributeRewards⟩ => fundsOf .nls funds
  | _ => 0

def paidBy (old : Pool) (event : Event) (next : Pool) : ℕ :=
  old.balanceNls + fundsOf .nls (attached event) - next.balanceNls

/-- A deposit, and a withdrawal of a part, change the receipts of an open deposit. -/
def resizes (old : Pool) (event : Event) : Bool :=
  match event with
  | .execute ⟨_, _, _, .deposit⟩ => true
  | .execute ⟨sender, _, _, .burn amount⟩ =>
    decide ((old.lenders.loadOrDefault sender).depositedNlpn ≠ amount)
  | _ => false

theorem loadOrDefault_found (lenders : Deposits) (addr : Addr) (data : DepositData)
    (h : lenders.deposits.lookup addr = some data) : lenders.loadOrDefault addr = data := by
  rw [Deposits.loadOrDefault, h]
  rfl

theorem deposit_settled (self next : Deposits) (addr : Addr) (amountLpn minted : ℕ)
    (price : Price)
    (h : self.deposit addr amountLpn price = .ok (next, minted)) :
    ∃ reward deposited, Settled self next addr reward 0 deposited := by
  unfold Deposits.deposit at h
  split_ifs at h with h0
  · simp at h
  simp only [bind_ok, pure_ok, Prod.mk.injEq] at h
  obtain ⟨data, hd, m, _, deposited, _, balance, _, rfl, _⟩ := h
  obtain ⟨reward, hr, rfl⟩ := updateRewards_ok _ _ _ hd
  exact ⟨reward, deposited, hr, Nat.zero_le _, rfl, rfl⟩

theorem claimRewards_settled (self next : Deposits) (addr : Addr) (old : DepositData)
    (reward : ℕ) (ho : self.deposits.lookup addr = some old)
    (h : self.claimRewards addr old = .ok (next, reward)) :
    Settled self next addr reward reward (self.loadOrDefault addr).depositedNlpn := by
  simp only [Deposits.claimRewards, bind_ok, pure_ok, Prod.mk.injEq] at h
  obtain ⟨data, hd, rfl, rfl⟩ := h
  obtain ⟨reward, hr, rfl⟩ := updateRewards_ok _ _ _ hd
  have hload := loadOrDefault_found _ _ _ ho
  rw [← hload] at hr
  constructor
  · exact hr
  · exact le_refl _
  · simp only [hload, Nat.sub_self]
  · rfl

theorem withdraw_settled (self next : Deposits) (addr : Addr) (old : DepositData)
    (amountNlpn : ℕ) (paid : Option ℕ) (ho : self.deposits.lookup addr = some old)
    (h : self.withdraw addr old amountNlpn = .ok (next, paid)) :
    RewardEffect self next 0 (paid.getD 0) (decide (old.depositedNlpn ≠ amountNlpn)) := by
  unfold Deposits.withdraw at h
  split_ifs at h with hlt
  · simp at h
  simp only [bind_ok, nativeSub_ok] at h
  obtain ⟨data, hd, left, ⟨hle, rfl⟩, balance, _, h⟩ := h
  obtain ⟨reward, hr, rfl⟩ := updateRewards_ok _ _ _ hd
  simp only at hle h
  split_ifs at h with h0
  · have heq : old.depositedNlpn = amountNlpn := by omega
    simp only [pure_ok, Prod.mk.injEq] at h
    obtain ⟨rfl, rfl⟩ := h
    simp only [heq, ne_eq, not_true_eq_false, decide_false]
    exact RewardEffect.closed addr old reward ⟨ho, hr, rfl, rfl⟩
  · have hne : old.depositedNlpn ≠ amountNlpn := by omega
    simp only [pure_ok, Prod.mk.injEq] at h
    obtain ⟨rfl, rfl⟩ := h
    rw [decide_eq_true hne]
    rw [← loadOrDefault_found _ _ _ ho] at hr
    exact RewardEffect.resized addr reward _ ⟨hr, Nat.zero_le _, rfl, rfl⟩

theorem distributeRewards_distributed (self next : Deposits) (rewards : ℕ)
    (h : self.distributeRewards rewards = .ok next) :
    ∃ share price, Distributed self next rewards share price := by
  unfold Deposits.distributeRewards at h
  split_ifs at h with h0 h1
  · simp at h
  · simp at h
  simp only [bind_ok, pure_ok] at h
  obtain ⟨share, hs, price, hp, rfl⟩ := h
  exact ⟨share, price, Nat.pos_of_ne_zero h0, Nat.pos_of_ne_zero h1, hs, hp, rfl, rfl⟩

theorem openLoan_lenders (self next : Pool) (now : ℕ) (call : Call) (amount : ℕ)
    (hm : call.msg = .openLoan amount) (h : self.execute now call = .ok next) :
    next.lenders = self.lenders ∧ next.balanceNls = self.balanceNls + fundsOf .nls call.funds := by
  simp only [Pool.execute, hm, Pool.tryOpenLoan, bind_ok] at h
  obtain ⟨_, _, _, _, _, _, _, _, _, _, _, _, h⟩ := h
  obtain ⟨_, rfl⟩ := sendLpn_ok _ _ _ h
  exact ⟨rfl, rfl⟩

theorem repayLoan_lenders (self next : Pool) (now : ℕ) (call : Call)
    (hm : call.msg = .repayLoan) (h : self.execute now call = .ok next) :
    next.lenders = self.lenders ∧ next.balanceNls = self.balanceNls + fundsOf .nls call.funds := by
  simp only [Pool.execute, hm, Pool.tryRepayLoan, bind_ok] at h
  obtain ⟨_, _, _, _, _, _, _, _, _, _, _, _, h⟩ := h
  obtain ⟨_, rfl⟩ := sendLpn_ok _ _ _ h
  exact ⟨rfl, rfl⟩

theorem deposit_rewards (self next : Pool) (now : ℕ) (call : Call) (hm : call.msg = .deposit)
    (h : self.execute now call = .ok next) :
    RewardEffect self.lenders next.lenders 0 0 true ∧
      next.balanceNls = self.balanceNls + fundsOf .nls call.funds := by
  simp only [Pool.execute, hm, Pool.tryDeposit, bind_ok, pure_ok] at h
  obtain ⟨amount, _, _, _, _, _, price, _, ⟨lenders, minted⟩, hd, rfl⟩ := h
  obtain ⟨reward, deposited, hs⟩ := deposit_settled _ _ _ _ _ _ hd
  exact ⟨RewardEffect.resized call.sender reward deposited hs, rfl⟩

theorem withdraw_rewards (self next : Pool) (now : ℕ) (call : Call) (amount : ℕ)
    (hm : call.msg = .burn amount) (h : self.execute now call = .ok next) :
    ∃ paid, next.balanceNls + paid = self.balanceNls + fundsOf .nls call.funds ∧
      RewardEffect self.lenders next.lenders 0 paid
        (decide ((self.lenders.loadOrDefault call.sender).depositedNlpn ≠ amount)) := by
  simp only [Pool.execute, hm, Pool.tryWithdraw, bind_ok] at h
  obtain ⟨_, _, paidLpn, _, data, hl, ⟨lenders, reward⟩, hd, mid, hs, h⟩ := h
  have hfound := (okOr_ok _ _ _).1 hl
  have heffect := withdraw_settled _ _ _ _ _ _ hfound hd
  obtain ⟨_, rfl⟩ := sendLpn_ok _ _ _ hs
  obtain ⟨hb, rfl⟩ := sendNls_ok _ _ _ h
  use reward.getD 0
  constructor
  · exact Nat.sub_add_cancel hb
  have hload := loadOrDefault_found self.lenders call.sender data hfound
  rw [hload]
  exact heffect

theorem distribute_rewards (self next : Pool) (now : ℕ) (call : Call)
    (hm : call.msg = .distributeRewards) (h : self.execute now call = .ok next) :
    (∃ share price, Distributed self.lenders next.lenders (fundsOf .nls call.funds) share price) ∧
      next.balanceNls = self.balanceNls + fundsOf .nls call.funds := by
  simp only [Pool.execute, hm, Pool.tryDistributeRewards, bind_ok, pure_ok] at h
  obtain ⟨amount, hf, lenders, hd, rfl⟩ := h
  rw [receivedOne_funds _ _ _ hf]
  obtain ⟨share, price, hdist⟩ := distributeRewards_distributed _ _ _ hd
  constructor
  · exact ⟨share, price, hdist⟩
  · simp only [Pool.credit, receivedOne_funds _ _ _ hf]

theorem claim_rewards (self next : Pool) (now : ℕ) (call : Call)
    (hm : call.msg = .claimRewards) (h : self.execute now call = .ok next) :
    ∃ paid, next.balanceNls + paid = self.balanceNls + fundsOf .nls call.funds ∧
      RewardEffect self.lenders next.lenders 0 paid false := by
  simp only [Pool.execute, hm, Pool.tryClaimRewards, bind_ok] at h
  obtain ⟨data, hl, ⟨lenders, reward⟩, hc, _, _, h⟩ := h
  have hsettled := claimRewards_settled _ _ _ _ _ ((okOr_ok _ _ _).1 hl) hc
  obtain ⟨hb, rfl⟩ := sendNls_ok _ _ _ h
  exact ⟨reward, Nat.sub_add_cancel hb, RewardEffect.claimed call.sender reward hsettled⟩

theorem paid_of_balance (old next funds paid : ℕ) (h : next + paid = old + funds) :
    old + funds - next = paid := by
  omega

/-- Every successful event has one of the effects on the rewards, and what it pays in the
reward currency is what the effect says. -/
theorem handle_rewards (self next : Pool) (now : ℕ) (event : Event)
    (h : self.handle now event = .ok next) :
    RewardEffect self.lenders next.lenders (distributedBy event) (paidBy self event next)
      (resizes self event) := by
  have hunpaid : ∀ (pool : Pool) (e : Event),
      pool.balanceNls = self.balanceNls + fundsOf .nls (attached e) →
      paidBy self e pool = 0 := by
    intro pool e hb
    simp only [paidBy, hb, Nat.sub_self]
  match event with
  | .execute ⟨sender, code, funds, msg⟩ =>
    have he : self.execute now ⟨sender, code, funds, msg⟩ = .ok next := h
    cases msg with
    | newLeaseCode c =>
      simp only [Pool.execute, Pool.newLeaseCode, bind_ok, pure_ok] at he
      obtain ⟨_, _, rfl⟩ := he
      rw [hunpaid _ _ rfl]
      exact RewardEffect.same rfl rfl
    | distributeRewards =>
      obtain ⟨⟨share, price, hdist⟩, hb⟩ :=
        distribute_rewards _ _ _ ⟨sender, code, funds, _⟩ rfl he
      rw [hunpaid _ _ hb]
      exact RewardEffect.distributed _ share price hdist
    | claimRewards =>
      obtain ⟨paid, hb, heffect⟩ := claim_rewards _ _ _ ⟨sender, code, funds, _⟩ rfl he
      rw [paidBy, attached, paid_of_balance _ _ _ _ hb]
      exact heffect
    | openLoan amount =>
      obtain ⟨hl, hb⟩ := openLoan_lenders _ _ _ ⟨sender, code, funds, _⟩ amount rfl he
      rw [hunpaid _ _ hb, hl]
      exact RewardEffect.same rfl rfl
    | repayLoan =>
      obtain ⟨hl, hb⟩ := repayLoan_lenders _ _ _ ⟨sender, code, funds, _⟩ rfl he
      rw [hunpaid _ _ hb, hl]
      exact RewardEffect.same rfl rfl
    | deposit =>
      obtain ⟨heffect, hb⟩ := deposit_rewards _ _ _ ⟨sender, code, funds, _⟩ rfl he
      rw [hunpaid _ _ hb]
      exact heffect
    | burn amount =>
      obtain ⟨paid, hb, heffect⟩ := withdraw_rewards _ _ _ ⟨sender, code, funds, _⟩ amount rfl he
      rw [paidBy, attached, paid_of_balance _ _ _ _ hb]
      exact heffect
  | .newBorrowRate rate =>
    have he := (pure_ok _ _).1 h
    subst he
    rw [hunpaid _ _ rfl]
    exact RewardEffect.same rfl rfl
  | .minUtilization level bound =>
    have he := (pure_ok _ _).1 h
    subst he
    rw [hunpaid _ _ rfl]
    exact RewardEffect.same rfl rfl
  | .transfer funds =>
    have he := (pure_ok _ _).1 h
    subst he
    rw [hunpaid _ _ rfl]
    exact RewardEffect.same rfl rfl

/-! ## The index -/

structure AllPriced (lenders : Deposits) : Prop where
  globals : Priced lenders.globals.rewardPerToken
  deposits : All (fun data => Priced data.rewardPerToken) lenders.deposits

theorem loadOrDefault_all (P : DepositData → Prop) (lenders : Deposits) (addr : Addr)
    (h : All P lenders.deposits) (h0 : P DepositData.default) : P (lenders.loadOrDefault addr) := by
  cases hl : lenders.deposits.lookup addr with
  | none =>
    rw [Deposits.loadOrDefault, hl]
    exact h0
  | some data =>
    rw [loadOrDefault_found _ _ _ hl]
    exact h addr data hl

theorem default_priced : Priced DepositData.default.rewardPerToken := by
  intro price h
  cases h

theorem share_value (supply rewards : ℕ) (share : Price) (hs : 0 < supply)
    (h : (Price.new supply rewards : Outcome ε Price) = .ok share) :
    0 < share.amount ∧ value share = rewards / supply :=
  ⟨new_amount_pos supply rewards share hs h, new_value supply rewards share h⟩

theorem distributed_index (old next : Deposits) (rewards : ℕ) (share price : Price)
    (h : Distributed old next rewards share price) (hp : Priced old.globals.rewardPerToken) :
    0 < price.amount ∧ index next ≤ index old + rewards / old.globals.balanceNlpn := by
  obtain ⟨hpos, hval⟩ := share_value _ _ _ h.supply_pos h.priced
  have hsum := h.summed
  rw [index, index, h.changed, ← hval]
  cases hold : old.globals.rewardPerToken with
  | none =>
    rw [hold] at hsum
    have he : share = price := (pure_ok _ _).1 hsum
    rw [← he]
    exact ⟨hpos, by simp [perToken]⟩
  | some current =>
    rw [hold] at hsum
    obtain ⟨hfits, _, hup, _⟩ := add_ok current share price (hp current hold) hpos hsum
    exact ⟨hfits.amount_pos, hup⟩

theorem effect_priced (old next : Deposits) (rewards paid : ℕ) (resized : Bool)
    (h : RewardEffect old next rewards paid resized) (hp : AllPriced old) : AllPriced next := by
  have hsettled : ∀ addr reward pay deposited, Settled old next addr reward pay deposited →
      AllPriced next := by
    intro addr reward pay deposited hs
    constructor
    · rw [hs.unchanged]
      exact hp.globals
    · rw [hs.deposits]
      exact all_insert _ _ _ _ hp.deposits hp.globals
  cases h with
  | same hd hg =>
    constructor
    · rw [hg]
      exact hp.globals
    · rw [hd]
      exact hp.deposits
  | distributed _ share price hd =>
    constructor
    · rw [hd.changed]
      intro p he
      rw [← Option.some.inj he]
      exact (distributed_index _ _ _ _ _ hd hp.globals).1
    · rw [hd.deposits]
      exact hp.deposits
  | claimed addr _ hs => exact hsettled _ _ _ _ hs
  | resized addr reward deposited hs => exact hsettled _ _ _ _ hs
  | closed addr data _ hc =>
    constructor
    · rw [hc.unchanged]
      exact hp.globals
    · rw [hc.deposits]
      exact all_erase _ _ _ hp.deposits

theorem step_rewards (chain : Chain) (label : ℕ × Event) (next : Chain)
    (h : Step chain label next) :
    RewardEffect chain.pool.lenders next.pool.lenders (distributedBy label.2)
      (paidBy chain.pool label.2 next.pool) (resizes chain.pool label.2) :=
  handle_rewards _ _ _ _ h.2.1

theorem empty_priced (chain : Chain) (h : Empty chain) : AllPriced chain.pool.lenders := by
  rw [h.2.2]
  constructor
  · exact default_priced
  · exact all_empty _

/-! ## Distributions that keep the index -/

def sharePrice (supply rewards : ℕ) : Price :=
  ⟨supply / Nat.gcd supply rewards, rewards / Nat.gcd supply rewards⟩

/-- The exact sum fits, or the index has no more than eighteen decimals, or the rewards for
a receipt do not vanish at the eighteenth decimal. -/
def KeepsIndex (current : Price) (supply rewards : ℕ) : Prop :=
  SumFits current (sharePrice supply rewards) ∨ current.amount ∣ current.amountQuote * factor ∨
    supply ≤ rewards * factor

instance (current : Price) (supply rewards : ℕ) : Decidable (KeepsIndex current supply rewards) :=
  inferInstanceAs (Decidable (_ ∨ _ ∨ _))

/-- A distribution that adds to a recorded index keeps it. -/
def Careful (pool : Pool) (event : Event) : Prop :=
  match event, pool.lenders.globals.rewardPerToken with
  | .execute ⟨_, _, funds, .distributeRewards⟩, some current =>
    KeepsIndex current pool.supply (fundsOf .nls funds)
  | _, _ => True

def CarefulStep (chain : Chain) (label : ℕ × Event) (next : Chain) : Prop :=
  Step chain label next ∧ Careful chain.pool label.2

theorem share_reduced (supply rewards : ℕ) (share : Price) (hs : 0 < supply)
    (h : (Price.new supply rewards : Outcome ε Price) = .ok share) :
    share = sharePrice supply rewards := by
  rw [new_total supply rewards (.inl hs)] at h
  exact (Except.ok.inj h).symm

/-- A distribution lowers the index exactly when it is not careful. -/
theorem distributed_keeps (old next : Deposits) (rewards : ℕ) (share price current : Price)
    (h : Distributed old next rewards share price) (hc : old.globals.rewardPerToken = some current)
    (hp : 0 < current.amount) :
    index old ≤ index next ↔ KeepsIndex current old.globals.balanceNlpn rewards := by
  have hpos := (share_value _ _ _ h.supply_pos h.priced).1
  have hsum := h.summed
  rw [hc] at hsum
  have hiff := add_not_below current share price hp hpos hsum
  have hshare := share_reduced _ _ _ h.supply_pos h.priced
  have hgcd : 0 < Nat.gcd old.globals.balanceNlpn rewards :=
    Nat.gcd_pos_of_pos_left _ h.supply_pos
  have hunit : share.amount ≤ share.amountQuote * factor ↔
      old.globals.balanceNlpn ≤ rewards * factor := by
    obtain ⟨_, h1, h2⟩ := new_ok _ _ _ h.priced
    have hscale : _ ↔ share.amount ≤ share.amountQuote * factor := Nat.mul_le_mul_right_iff hgcd
    rw [h1, Nat.mul_right_comm, h2] at hscale
    exact hscale.symm
  rw [index, index, h.changed, hc, KeepsIndex, ← hshare, ← hunit]
  exact hiff

theorem effect_index (old next : Deposits) (rewards paid : ℕ) (resized : Bool)
    (h : RewardEffect old next rewards paid resized) :
    next.globals.rewardPerToken = old.globals.rewardPerToken ∨
      ∃ share price, Distributed old next rewards share price := by
  cases h with
  | same hd hg => exact .inl hg
  | distributed _ share price hd => exact .inr ⟨share, price, hd⟩
  | claimed addr _ hs => exact .inl hs.unchanged
  | resized addr reward deposited hs => exact .inl hs.unchanged
  | closed addr data _ hc => exact .inl hc.unchanged

theorem careful_distribution (pool : Pool) (event : Event) (current : Price)
    (hr : 0 < distributedBy event) (hc : pool.lenders.globals.rewardPerToken = some current)
    (h : Careful pool event) : KeepsIndex current pool.supply (distributedBy event) := by
  match event with
  | .execute ⟨_, _, funds, msg⟩ =>
    cases msg with
    | distributeRewards =>
      simp only [Careful, hc] at h
      exact h
    | _ => exact absurd hr (lt_irrefl 0)
  | .newBorrowRate _ => exact absurd hr (lt_irrefl 0)
  | .minUtilization _ _ => exact absurd hr (lt_irrefl 0)
  | .transfer _ => exact absurd hr (lt_irrefl 0)

theorem careful_index (chain : Chain) (label : ℕ × Event) (next : Chain)
    (h : CarefulStep chain label next) (hp : AllPriced chain.pool.lenders) :
    index chain.pool.lenders ≤ index next.pool.lenders := by
  rcases effect_index _ _ _ _ _ (step_rewards _ _ _ h.1) with hsame | ⟨share, price, hd⟩
  · rw [index, index, hsame]
  · cases hc : chain.pool.lenders.globals.rewardPerToken with
    | none =>
      have h0 : index chain.pool.lenders = 0 := by
        rw [index, hc]
        rfl
      rw [h0]
      exact index_nonneg _
    | some current =>
      have hkeeps := careful_distribution _ _ current hd.rewards_pos hc h.2
      exact (distributed_keeps _ _ _ _ _ current hd hc (hp.globals current hc)).2 hkeeps

/-! ## No lender is locked out -/

/-- No deposit has recorded an index above the current one. -/
structure Unlocked (lenders : Deposits) : Prop where
  priced : AllPriced lenders
  recorded : All (fun data => perToken data.rewardPerToken ≤ index lenders) lenders.deposits

theorem effect_unlocked (old next : Deposits) (rewards paid : ℕ) (resized : Bool)
    (h : RewardEffect old next rewards paid resized) (hi : index old ≤ index next)
    (hu : Unlocked old) : Unlocked next := by
  have hlater : All (fun data => perToken data.rewardPerToken ≤ index next) old.deposits := by
    intro addr data hl
    exact (hu.recorded addr data hl).trans hi
  constructor
  · exact effect_priced _ _ _ _ _ h hu.priced
  · cases h with
    | same hd hg =>
      rw [hd]
      exact hlater
    | distributed _ share price hd =>
      rw [hd.deposits]
      exact hlater
    | claimed addr _ hs =>
      rw [hs.deposits]
      exact all_insert _ _ _ _ hlater hi
    | resized addr reward deposited hs =>
      rw [hs.deposits]
      exact all_insert _ _ _ _ hlater hi
    | closed addr data _ hc =>
      rw [hc.deposits]
      exact all_erase _ _ _ hlater

theorem step_unlocked (chain : Chain) (label : ℕ × Event) (next : Chain)
    (h : CarefulStep chain label next) (hu : Unlocked chain.pool.lenders) :
    Unlocked next.pool.lenders :=
  effect_unlocked _ _ _ _ _ (step_rewards _ _ _ h.1) (careful_index _ _ _ h hu.priced) hu

theorem run_unlocked (start chain : Chain) (events : List (ℕ × Event)) (h0 : Empty start)
    (h : Run CarefulStep start events chain) : Unlocked chain.pool.lenders := by
  apply run_preserves (fun c => Unlocked c.pool.lenders) step_unlocked _ _ _ h
  constructor
  · exact empty_priced _ h0
  · rw [h0.2.2]
    exact all_empty _

theorem run_index (chain later : Chain) (events : List (ℕ × Event))
    (h : Run CarefulStep chain events later) (hu : Unlocked chain.pool.lenders) :
    index chain.pool.lenders ≤ index later.pool.lenders := by
  let Above : Chain → Prop := fun c =>
    Unlocked c.pool.lenders ∧ index chain.pool.lenders ≤ index c.pool.lenders
  have hstep : ∀ c label next, CarefulStep c label next → Above c → Above next := by
    intro c label next hs hc
    constructor
    · exact step_unlocked c label next hs hc.1
    · exact hc.2.trans (careful_index c label next hs hc.1.priced)
  have hstart : Above chain := ⟨hu, le_refl _⟩
  exact (run_preserves Above hstep chain later events h hstart).2

theorem unlocked_reward (lenders : Deposits) (lender : Addr) (h : Unlocked lenders) :
    ∃ reward, Evaluates ((lenders.loadOrDefault lender).calculateReward lenders.globals :
      Outcome ContractError ℕ) reward := by
  have hpriced := loadOrDefault_all _ lenders lender h.priced.deposits default_priced
  have hmark := loadOrDefault_all _ lenders lender h.recorded (index_nonneg lenders)
  have hahead := ahead_of_mark_le (account (lenders.loadOrDefault lender)) (index lenders) hmark
  exact ⟨_, calculateReward_evaluates _ _ h.priced.globals hpriced hahead⟩

/-- In a run of careful distributions the index never decreases, it is never below a recorded
one, and the rewards of any lender are computed unless they do not fit. -/
theorem careful_distributions_lock_nobody (start chain : Chain) (events : List (ℕ × Event))
    (h0 : Empty start) (h : Run CarefulStep start events chain) :
    All (fun data => perToken data.rewardPerToken ≤
        perToken chain.pool.lenders.globals.rewardPerToken) chain.pool.lenders.deposits ∧
      (∀ lender, ∃ reward, Evaluates
        ((chain.pool.lenders.loadOrDefault lender).calculateReward chain.pool.lenders.globals :
          Outcome ContractError ℕ) reward) ∧
      ∀ more later, Run CarefulStep chain more later →
        perToken chain.pool.lenders.globals.rewardPerToken ≤
          perToken later.pool.lenders.globals.rewardPerToken := by
  have hu := run_unlocked _ _ _ h0 h
  constructor
  · exact hu.recorded
  constructor
  · intro lender
    exact unlocked_reward _ lender hu
  · intro more later hrun
    exact run_index _ _ _ hrun hu

def rewardedChain (deposits : Store Addr DepositData) (supply : ℕ) (current : Option Price)
    (balance balanceNls time : ℕ) : Chain :=
  ⟨⟨sampleConfig, 0, Total.new, ∅, ⟨deposits, ⟨supply, current⟩⟩, balance, balanceNls⟩, time⟩

def sampleRewarded : Chain :=
  rewardedChain (AList.insert 9 ⟨1000, none, 0⟩ ∅) 1000 (some ⟨10, 1⟩) 1000 100 5

def sampleRewarding : ℕ × Event := (5, .execute ⟨3, none, [⟨.nls, 100⟩], .distributeRewards⟩)

theorem sample_careful :
    Run CarefulStep sampleEmpty ([sampleDeposit] ++ [sampleRewarding]) sampleRewarded :=
  Run.next _ sampleDeposited _ _ _ (run_one _ _ _ ⟨sample_deposit, trivial⟩)
    ⟨⟨by decide, rfl, rfl⟩, trivial⟩

theorem careful_distributions_lock_nobody_rewarded :
    All (fun data => perToken data.rewardPerToken ≤
        perToken sampleRewarded.pool.lenders.globals.rewardPerToken)
        sampleRewarded.pool.lenders.deposits ∧
      (∀ lender, ∃ reward, Evaluates
        ((sampleRewarded.pool.lenders.loadOrDefault lender).calculateReward
          sampleRewarded.pool.lenders.globals : Outcome ContractError ℕ) reward) ∧
      ∀ more later, Run CarefulStep sampleRewarded more later →
        perToken sampleRewarded.pool.lenders.globals.rewardPerToken ≤
          perToken later.pool.lenders.globals.rewardPerToken :=
  careful_distributions_lock_nobody sampleEmpty sampleRewarded _ ⟨rfl, rfl, rfl⟩ sample_careful

def big : ℕ := 100000000000000000000

def locked : Chain :=
  rewardedChain (AList.insert 8 ⟨1, some ⟨big, big + 1⟩, 0⟩
    (AList.insert 9 ⟨big, some ⟨big, big + 1⟩, 0⟩ ∅)) (big + 1) (some ⟨1, 1⟩) (big + 1) 1 5

def lockingEvents : List (ℕ × Event) :=
  [(1, .execute ⟨9, none, [⟨.lpn, big⟩], .deposit⟩),
    (2, .execute ⟨3, none, [⟨.nls, big + 1⟩], .distributeRewards⟩),
    (3, .execute ⟨9, none, [], .claimRewards⟩),
    (4, .execute ⟨8, none, [⟨.lpn, 1⟩], .deposit⟩),
    (5, .execute ⟨3, none, [⟨.nls, 1⟩], .distributeRewards⟩)]

theorem locked_reachable : Reachable Step Empty locked :=
  ⟨sampleEmpty, lockingEvents, ⟨rfl, rfl, rfl⟩, advance_run _ _ _ rfl⟩

theorem locked_claim : locked.pool.execute 6 ⟨9, none, [], .claimRewards⟩ =
    .error (.panic (.underflow "attempt to subtract with overflow")) := rfl

theorem locked_burn : locked.pool.execute 6 ⟨9, none, [], .burn big⟩ =
    .error (.panic (.underflow "attempt to subtract with overflow")) := rfl

/-- After a distribution that lowers the index, lender 9 can neither claim nor withdraw. -/
theorem distribution_locks_lender_out :
    Reachable Step Empty locked ∧
      ¬ All (fun data => perToken data.rewardPerToken ≤
        perToken locked.pool.lenders.globals.rewardPerToken) locked.pool.lenders.deposits ∧
      locked.pool.execute 6 ⟨9, none, [], .claimRewards⟩ =
        .error (.panic (.underflow "attempt to subtract with overflow")) ∧
      locked.pool.execute 6 ⟨9, none, [], .burn big⟩ =
        .error (.panic (.underflow "attempt to subtract with overflow")) := by
  constructor
  · exact locked_reachable
  constructor
  · intro hall
    have hle := hall 9 ⟨big, some ⟨big, big + 1⟩, 0⟩ rfl
    simp only [perToken, value, locked, rewardedChain, big] at hle
    norm_num at hle
  · exact ⟨locked_claim, locked_burn⟩

end Nolus.LppRewards
