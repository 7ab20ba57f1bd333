import NolusMoneyMarket.Finance.Interest
import NolusMoneyMarket.Finance.Price
import NolusMoneyMarket.Treasury.RewardScale

/-! # Rewards of the pools

The rate comes from the scale at the total balance of all pools. A pool gets
the interest on its own balance at that rate, converted at the price its
oracle reports, and no message at all when there is nothing to get. -/

set_option autoImplicit false

namespace Nolus.TreasuryRewards
open Nolus.Fallible Nolus.Fraction Nolus.Interest Nolus.Prices Nolus.AccessControl
open Nolus.RewardScales

inductive ContractError
  | validateRegistryAddr (cause : StdError)
  | validateTimeAlarmsAddr (contract : Addr)
  | queryProtocols (cause : StdError)
  | loadConfig (cause : StdError)
  | updateStorage (cause : StdError)
  | readLppBalance (cause : StdError)
  | convertRewardsToNLS (cause : StdError)
  | setupTimeAlarmStub (contract : Addr)
  | unauthorized (cause : AccessError)
  | invalidTimeConfiguration
deriving DecidableEq, Repr

/-- The registry entry of a protocol, of the contracts of which two are used here. -/
structure Protocol where
  lpp : Addr
  oracle : Addr
deriving DecidableEq, Repr

/-- The price of the native currency in the stable one, as it is accepted on receipt. -/
structure NlsPrice where
  price : Price
  amount_pos : 0 < price.amount
  quote_pos : 0 < price.amountQuote

structure Querier (Name : Type) where
  isAddress : Addr → Bool
  isContract : Addr → Bool
  protocols : Addr → Except StdError (List Name)
  protocol : Addr → Name → Except StdError Protocol
  stableBalance : Addr → Addr → Except StdError ℕ
  priceOfNls : Addr → Except StdError NlsPrice

structure Env where
  height : ℕ
  now : ℕ
  transactionIndex : Option ℕ
deriving DecidableEq, Repr

inductive Message
  | distributeRewards (lpp : Addr) (reward : ℕ)
  | addAlarm (timeAlarms : Addr) (time : ℕ)
deriving DecidableEq, Repr

structure RewardsEvent where
  height : ℕ
  at_ : ℕ
  idx : ℕ
  to_ : Addr
  rewards : ℕ
deriving DecidableEq, Repr

structure Response where
  messages : List Message
  events : List RewardsEvent
deriving DecidableEq, Repr

namespace Response

def default : Response := ⟨[], []⟩

def messagesOnly (messages : List Message) : Response := ⟨messages, []⟩

def mergeWith (self other : Response) : Response :=
  ⟨self.messages ++ other.messages, self.events ++ other.events⟩

end Response

def answered {α : Type} (f : StdError → ContractError) (answer : Except StdError α) :
    Outcome ContractError α :=
  match answer with
  | .ok a => .ok a
  | .error cause => failing (f cause)

structure Pool where
  lpp : Addr
  oracle : Addr
  balance : ℕ
deriving DecidableEq, Repr

variable {Name : Type}

namespace Pool

def new (querier : Querier Name) (lpp oracle : Addr) : Outcome ContractError Pool := do
  let balance ← answered .readLppBalance (querier.stableBalance lpp oracle)
  pure ⟨lpp, oracle, balance⟩

def distribute (env : Env) (lpp : Addr) (reward : ℕ) : Response :=
  if reward = 0 then Response.default
  else
    { messages := [.distributeRewards lpp reward]
      events := [⟨env.height, env.now, env.transactionIndex.getD 0, lpp, reward⟩] }

def distributeRewards (querier : Querier Name) (env : Env) (self : Pool) (apr period : ℕ) :
    Outcome ContractError Response := do
  let rewardInStable ← interest (percent apr) self.balance period
  let nls ← answered .convertRewardsToNLS (querier.priceOfNls self.oracle)
  let rewards ← Prices.total rewardInStable nls.price.inv
  pure (distribute env self.lpp rewards)

end Pool

structure RewardCalculator where
  pools : List Pool
  apr : ℕ

namespace RewardCalculator

def new (pools : List Pool) (scale : RewardScale) : Outcome ContractError RewardCalculator := do
  let tvlsTotal ← pools.foldlM (fun tvls pool => nativeAdd amountBits tvls pool.balance) 0
  let apr ← scale.getApr tvlsTotal
  pure ⟨pools, apr⟩

def distribute (querier : Querier Name) (env : Env) (self : RewardCalculator) (period : ℕ) :
    Outcome ContractError Response :=
  self.pools.foldlM (fun resp pool => do
    let lppResp ← pool.distributeRewards querier env self.apr period
    pure (resp.mergeWith lppResp)) Response.default

end RewardCalculator

/-! ## What is distributed -/

def Pool.reward (self : Pool) (apr period : ℕ) (price : Price) : ℕ :=
  Ratio.part ⟨accruedOn (percent apr) self.balance period, price.amountQuote⟩ price.amount

def Pool.tvl (pools : List Pool) : ℕ := (pools.map Pool.balance).sum

theorem accruedOn_add_le (rate : Ratio) (first second period : ℕ) :
    accruedOn rate first period + accruedOn rate second period ≤
      accruedOn rate (first + second) period := by
  calc accruedOn rate first period + accruedOn rate second period
      ≤ accrued (rate.part first + rate.part second) period := by
        simp only [accruedOn, accrued, Nat.add_mul]
        exact Nat.div_add_div_le_add_div
    _ ≤ accruedOn rate (first + second) period :=
        accrued_mono _ _ _ _ (part_add_le rate first second) le_rfl

theorem rewards_le (rate : Ratio) (period : ℕ) (pools : List Pool) :
    (pools.map fun pool => accruedOn rate pool.balance period).sum ≤
      accruedOn rate (Pool.tvl pools) period := by
  induction pools with
  | nil => simp
  | cons pool pools ih =>
    rw [List.map_cons, List.sum_cons, Pool.tvl, List.map_cons, List.sum_cons]
    exact (Nat.add_le_add_left ih _).trans (accruedOn_add_le rate _ _ period)

@[simp] theorem answered_ok {α : Type} (f : StdError → ContractError) (answer : Except StdError α)
    (a : α) : answered f answer = .ok a ↔ answer = .ok a := by
  cases answer <;> simp [answered]

theorem tvl_evaluates (pools : List Pool) (tvls : ℕ) :
    Evaluates (pools.foldlM (fun tvls pool => nativeAdd amountBits tvls pool.balance) tvls :
      Outcome ContractError ℕ) (tvls + Pool.tvl pools) := by
  induction pools generalizing tvls with
  | nil => exact evaluates_pure_eq _ _ (Nat.add_zero tvls).symm
  | cons pool pools ih =>
    rw [List.foldlM_cons]
    apply evaluates_bind _ _ _ _ (nativeAdd_evaluates _ _ _)
    have hrest := ih (tvls + pool.balance)
    rwa [Nat.add_assoc] at hrest

theorem reward_evaluates (querier : Querier Name) (env : Env) (self : Pool) (apr period : ℕ)
    (nls : NlsPrice) (hprice : querier.priceOfNls self.oracle = .ok nls) :
    Evaluates (self.distributeRewards querier env apr period)
      (Pool.distribute env self.lpp (self.reward apr period nls.price)) := by
  apply evaluates_bind _ _ _ _ (interest_evaluates _ _ _ (percent_total_pos apr))
  rw [hprice]
  apply evaluates_bind _ _ nls _ (.inl rfl)
  exact evaluates_bind _ _ _ _ (of_evaluates _ _ nls.quote_pos) (evaluates_pure _)

theorem reward_ok (querier : Querier Name) (env : Env) (self : Pool) (apr period : ℕ)
    (response : Response) (h : self.distributeRewards querier env apr period = .ok response) :
    ∃ nls, querier.priceOfNls self.oracle = .ok nls ∧
      response = Pool.distribute env self.lpp (self.reward apr period nls.price) := by
  have hbind := h
  simp only [Pool.distributeRewards, bind_ok, answered_ok] at hbind
  obtain ⟨_, -, nls, hprice, -⟩ := hbind
  exact ⟨nls, hprice,
    evaluates_ok _ _ _ (reward_evaluates querier env self apr period nls hprice) h⟩

def grants (querier : Querier Name) (apr period : ℕ) (pools : List Pool) : List (Addr × ℕ) :=
  pools.map fun pool => (pool.lpp,
    match querier.priceOfNls pool.oracle with
    | .ok nls => pool.reward apr period nls.price
    | .error _ => 0)

def nonZero (granted : List (Addr × ℕ)) : List (Addr × ℕ) := granted.filter fun grant => grant.2 ≠ 0

def granting (env : Env) (granted : List (Addr × ℕ)) : Response where
  messages := (nonZero granted).map fun grant => .distributeRewards grant.1 grant.2
  events := (nonZero granted).map fun grant =>
    ⟨env.height, env.now, env.transactionIndex.getD 0, grant.1, grant.2⟩

theorem granting_cons (env : Env) (lpp : Addr) (reward : ℕ) (granted : List (Addr × ℕ)) :
    granting env ((lpp, reward) :: granted) =
      (Pool.distribute env lpp reward).mergeWith (granting env granted) := by
  unfold granting nonZero Pool.distribute Response.mergeWith
  by_cases h : reward = 0 <;> simp [h, Response.default]

theorem grants_cons (querier : Querier Name) (apr period : ℕ) (pool : Pool) (pools : List Pool)
    (nls : NlsPrice) (h : querier.priceOfNls pool.oracle = .ok nls) :
    grants querier apr period (pool :: pools) =
      (pool.lpp, pool.reward apr period nls.price) :: grants querier apr period pools := by
  rw [grants, List.map_cons, h]
  rfl

theorem mergeWith_assoc (a b c : Response) :
    (a.mergeWith b).mergeWith c = a.mergeWith (b.mergeWith c) := by
  simp [Response.mergeWith, List.append_assoc]

theorem mergeWith_default (a : Response) : a.mergeWith Response.default = a := by
  simp [Response.mergeWith, Response.default]

/-- Every pool gets its due, in the order of the pools. -/
theorem distribute_from (querier : Querier Name) (env : Env) (apr period : ℕ) (pools : List Pool)
    (resp response : Response)
    (h : pools.foldlM (fun resp pool => do
      let lppResp ← pool.distributeRewards querier env apr period
      pure (resp.mergeWith lppResp)) resp = .ok response) :
    response = resp.mergeWith (granting env (grants querier apr period pools)) ∧
      ∀ pool ∈ pools, ∃ nls, querier.priceOfNls pool.oracle = .ok nls := by
  induction pools generalizing resp with
  | nil =>
    rw [List.foldlM_nil] at h
    obtain rfl := (pure_ok _ _).1 h
    exact ⟨(mergeWith_default resp).symm, by simp⟩
  | cons pool pools ih =>
    rw [List.foldlM_cons] at h
    simp only [bind_ok, pure_ok] at h
    obtain ⟨_, ⟨lppResp, hreward, rfl⟩, hrest⟩ := h
    obtain ⟨hresp, hpriced⟩ := ih _ hrest
    obtain ⟨nls, hprice, rfl⟩ := reward_ok querier env pool apr period lppResp hreward
    refine ⟨?_, ?_⟩
    · rw [hresp, mergeWith_assoc, ← granting_cons, grants_cons _ _ _ _ _ nls hprice]
    · intro other hother
      rcases List.mem_cons.1 hother with rfl | hother
      · exact ⟨nls, hprice⟩
      · exact hpriced other hother

theorem distribute_evaluates (querier : Querier Name) (env : Env) (apr period : ℕ)
    (pools : List Pool) (resp : Response)
    (h : ∀ pool ∈ pools, ∃ nls, querier.priceOfNls pool.oracle = .ok nls) :
    Evaluates (pools.foldlM (fun resp pool => do
        let lppResp ← pool.distributeRewards querier env apr period
        pure (resp.mergeWith lppResp)) resp)
      (resp.mergeWith (granting env (grants querier apr period pools))) := by
  induction pools generalizing resp with
  | nil => exact evaluates_pure_eq _ _ (mergeWith_default resp).symm
  | cons pool pools ih =>
    obtain ⟨nls, hprice⟩ := h pool List.mem_cons_self
    rw [List.foldlM_cons, grants_cons _ _ _ _ _ nls hprice, granting_cons, ← mergeWith_assoc]
    refine evaluates_bind _ _ _ _ ?_ (ih _ fun other hother =>
      h other (List.mem_cons_of_mem _ hother))
    exact evaluates_bind _ _ _ _ (reward_evaluates querier env pool apr period nls hprice)
      (evaluates_pure _)

end Nolus.TreasuryRewards
