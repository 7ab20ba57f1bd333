import NolusMoneyMarket.Treasury.Rewards

/-! # The treasury contract

The storage of the treasury and every message that changes it. A dispatch is
asked for by the store of time alarms only. It sets the next alarm up, rewards
the time since the last dispatch, and tells the log that it is the last one. -/

set_option autoImplicit false

namespace Nolus.Treasury
open Nolus.Fallible Nolus.Fraction Nolus.Interest Nolus.AccessControl Nolus.RewardScales
open Nolus.TreasuryRewards

structure Config where
  cadenceHours : ℕ
  protocolsRegistry : Addr
  tvlToApr : RewardScale

structure Storage where
  timeAlarms : SingleUserAccess
  config : Option Config
  dispatchLog : Option ℕ

structure InstantiateMsg where
  cadenceHours : ℕ
  protocolsRegistry : Addr
  timeAlarms : Addr
  tvlToApr : RewardScale

inductive SudoMsg
  | config (cadenceHours : ℕ)
  | rewards (tvlToApr : RewardScale)

def fromHours (hours : ℕ) : ℕ := hours * hour

namespace Storage

def check (self : Storage) (user : Addr) : Outcome ContractError Unit :=
  mapError .unauthorized (SingleUserAccess.check self.timeAlarms user)

def grantTo (self : Storage) (user : Addr) : Storage :=
  { self with timeAlarms := SingleUserAccess.grantTo user }

def loadConfig (self : Storage) : Outcome ContractError Config :=
  okOr self.config (.loadConfig (.notFound "Config"))

def storeConfig (self : Storage) (config : Config) : Storage := { self with config := some config }

def updateConfig (self : Storage) (f : Config → Config) : Outcome ContractError Storage := do
  let config ← okOr self.config (.updateStorage (.notFound "Config"))
  pure (self.storeConfig (f config))

def updateCadenceHours (self : Storage) (cadenceHours : ℕ) : Outcome ContractError Storage :=
  self.updateConfig fun config => { config with cadenceHours := cadenceHours }

def updateTvlToApr (self : Storage) (tvlToApr : RewardScale) : Outcome ContractError Storage :=
  self.updateConfig fun config => { config with tvlToApr := tvlToApr }

/-- A log never written reads as the beginning of time. -/
def lastDispatch (self : Storage) : ℕ := self.dispatchLog.getD 0

def updateLog (self : Storage) (currentDispatch : ℕ) : Outcome ContractError Storage :=
  match self.dispatchLog with
  | none => pure { self with dispatchLog := some currentDispatch }
  | some lastDispatch =>
    if currentDispatch < lastDispatch then failing .invalidTimeConfiguration
    else pure { self with dispatchLog := some currentDispatch }

end Storage

variable {Name : Type}

def setupAlarm (querier : Querier Name) (timeAlarm : Addr) (now alarmIn : ℕ) :
    Outcome ContractError (List Message) := do
  ensure (querier.isContract timeAlarm) (.error (.setupTimeAlarmStub timeAlarm))
  let when_ ← nativeAdd timeBits now alarmIn
  pure [.addAlarm timeAlarm when_]

def protocols (querier : Querier Name) (protocolsRegistry : Addr) :
    Outcome ContractError (List Protocol) := do
  let names ← answered .queryProtocols (querier.protocols protocolsRegistry)
  names.mapM fun name => answered .queryProtocols (querier.protocol protocolsRegistry name)

def tryBuildReward (querier : Querier Name) (config : Config) :
    Outcome ContractError RewardCalculator := do
  let listed ← protocols querier config.protocolsRegistry
  let pools ← listed.mapM fun protocol => Pool.new querier protocol.lpp protocol.oracle
  RewardCalculator.new pools config.tvlToApr

def tryDispatch (self : Storage) (querier : Querier Name) (env : Env) (timeAlarm : Addr) :
    Outcome ContractError (Response × Storage) := do
  let config ← self.loadConfig
  let alarm ← setupAlarm querier timeAlarm env.now (fromHours config.cadenceHours)
  let lastDispatch := self.lastDispatch
  let next ← self.updateLog env.now
  let rewardsSpan ← between lastDispatch env.now
  let reward ← tryBuildReward querier config
  let dispatchRes ← reward.distribute querier env rewardsSpan
  pure (dispatchRes.mergeWith (Response.messagesOnly alarm), next)

def execute (self : Storage) (querier : Querier Name) (env : Env) (sender : Addr) :
    Outcome ContractError (Response × Storage) := do
  self.check sender
  tryDispatch self querier env sender

def sudo_ (self : Storage) (msg : SudoMsg) : Outcome ContractError Storage :=
  match msg with
  | .config cadenceHours => self.updateCadenceHours cadenceHours
  | .rewards tvlToApr => self.updateTvlToApr tvlToApr

def empty : Storage := ⟨none, none, none⟩

def instantiate (querier : Querier Name) (env : Env) (msg : InstantiateMsg) :
    Outcome ContractError (Response × Storage) := do
  ensure (querier.isAddress msg.protocolsRegistry)
    (.error (.validateRegistryAddr (.genericErr "Invalid input")))
  ensure (querier.isContract msg.timeAlarms) (.error (.validateTimeAlarmsAddr msg.timeAlarms))
  let granted := empty.grantTo msg.timeAlarms
  let stored := granted.storeConfig ⟨msg.cadenceHours, msg.protocolsRegistry, msg.tvlToApr⟩
  let logged ← stored.updateLog env.now
  let alarm ← setupAlarm querier msg.timeAlarms env.now (fromHours msg.cadenceHours)
  pure (Response.messagesOnly alarm, logged)

/-! ## What a dispatch does -/

def Listed (querier : Querier Name) (protocolsRegistry : Addr) (pools : List Pool) : Prop :=
  ∃ names listed, querier.protocols protocolsRegistry = .ok names ∧
    List.Forall₂ (fun name protocol => querier.protocol protocolsRegistry name = .ok protocol)
      names listed ∧
    List.Forall₂ (fun protocol pool => pool.lpp = protocol.lpp ∧ pool.oracle = protocol.oracle ∧
      querier.stableBalance protocol.lpp protocol.oracle = .ok pool.balance) listed pools

structure Dispatched (querier : Querier Name) (env : Env) (timeAlarm : Addr)
    (old next : Storage) (config : Config) (pools : List Pool) (apr : ℕ)
    (response : Response) : Prop where
  configured : old.config = some config
  alarm : querier.isContract timeAlarm = true
  time : old.lastDispatch ≤ env.now
  listed : Listed querier config.protocolsRegistry pools
  rate : (config.tvlToApr.getApr (Pool.tvl pools) : Outcome ContractError ℕ) = .ok apr
  priced : ∀ pool ∈ pools, ∃ nls, querier.priceOfNls pool.oracle = .ok nls
  logged : next = { old with dispatchLog := some env.now }
  responds : response =
    (granting env (grants querier apr (env.now - old.lastDispatch) pools)).mergeWith
      (Response.messagesOnly [.addAlarm timeAlarm (env.now + fromHours config.cadenceHours)])

theorem pool_new_ok (querier : Querier Name) (protocol : Protocol) (pool : Pool) :
    Pool.new querier protocol.lpp protocol.oracle = .ok pool ↔
      pool.lpp = protocol.lpp ∧ pool.oracle = protocol.oracle ∧
        querier.stableBalance protocol.lpp protocol.oracle = .ok pool.balance := by
  simp only [Pool.new, bind_ok, answered_ok, pure_ok]
  constructor
  · rintro ⟨balance, hbalance, rfl⟩
    exact ⟨rfl, rfl, hbalance⟩
  · rintro ⟨hlpp, horacle, hbalance⟩
    exact ⟨pool.balance, hbalance, by rw [← hlpp, ← horacle]⟩

theorem updateLog_ok (self next : Storage) (now : ℕ) :
    self.updateLog now = .ok next ↔
      self.lastDispatch ≤ now ∧ next = { self with dispatchLog := some now } := by
  unfold Storage.updateLog Storage.lastDispatch
  cases self.dispatchLog with
  | none =>
    rw [pure_ok, eq_comm]
    simp
  | some last =>
    simp only [Option.getD_some]
    split_ifs with h
    · simp [not_le.2 h]
    · rw [pure_ok, eq_comm, and_iff_right (not_lt.1 h)]

theorem setupAlarm_ok (querier : Querier Name) (timeAlarm : Addr) (now alarmIn : ℕ)
    (messages : List Message) (h : setupAlarm querier timeAlarm now alarmIn = .ok messages) :
    querier.isContract timeAlarm = true ∧ messages = [.addAlarm timeAlarm (now + alarmIn)] := by
  simp only [setupAlarm, bind_ok, ensure_ok, nativeAdd_ok, pure_ok] at h
  obtain ⟨_, hcontract, _, ⟨-, rfl⟩, rfl⟩ := h
  exact ⟨hcontract, rfl⟩

theorem calculator_ok (pools : List Pool) (scale : RewardScale) (calculator : RewardCalculator)
    (h : RewardCalculator.new pools scale = .ok calculator) :
    calculator.pools = pools ∧
      (scale.getApr (Pool.tvl pools) : Outcome ContractError ℕ) = .ok calculator.apr := by
  simp only [RewardCalculator.new, bind_ok, pure_ok] at h
  obtain ⟨tvls, htvls, apr, hapr, rfl⟩ := h
  have hsum := evaluates_ok _ _ _ (tvl_evaluates pools 0) htvls
  rw [Nat.zero_add] at hsum
  rw [hsum] at hapr
  exact ⟨rfl, hapr⟩

theorem tryBuildReward_ok (querier : Querier Name) (config : Config)
    (calculator : RewardCalculator) (h : tryBuildReward querier config = .ok calculator) :
    Listed querier config.protocolsRegistry calculator.pools ∧
      (config.tvlToApr.getApr (Pool.tvl calculator.pools) : Outcome ContractError ℕ) =
        .ok calculator.apr := by
  simp only [tryBuildReward, protocols, bind_ok, answered_ok, mapM_ok, pool_new_ok] at h
  obtain ⟨listed, ⟨names, hnames, hlisted⟩, pools, hpools, hnew⟩ := h
  obtain ⟨rfl, hapr⟩ := calculator_ok _ _ _ hnew
  exact ⟨⟨names, listed, hnames, hlisted, hpools⟩, hapr⟩

theorem tryDispatch_ok (self next : Storage) (querier : Querier Name) (env : Env)
    (timeAlarm : Addr) (response : Response)
    (h : tryDispatch self querier env timeAlarm = .ok (response, next)) :
    ∃ config pools apr,
      Dispatched querier env timeAlarm self next config pools apr response := by
  simp only [tryDispatch, Storage.loadConfig, bind_ok, okOr_ok, updateLog_ok, between,
    nativeSub_ok, pure_ok, Prod.mk.injEq] at h
  obtain ⟨config, hconfig, alarm, halarm, _, ⟨htime, rfl⟩, _, ⟨-, rfl⟩, calculator, hbuild,
    distributed, hdistribute, rfl, rfl⟩ := h
  obtain ⟨hcontract, rfl⟩ := setupAlarm_ok _ _ _ _ _ halarm
  obtain ⟨hpools, hapr⟩ := tryBuildReward_ok _ _ _ hbuild
  obtain ⟨hresponse, hpriced⟩ := distribute_from _ _ _ _ _ _ _ hdistribute
  refine ⟨config, calculator.pools, calculator.apr, hconfig, hcontract, htime, hpools, hapr,
    hpriced, rfl, ?_⟩
  rw [hresponse]
  rfl

theorem setupAlarm_evaluates (querier : Querier Name) (timeAlarm : Addr) (now alarmIn : ℕ)
    (h : querier.isContract timeAlarm = true) :
    Evaluates (setupAlarm querier timeAlarm now alarmIn)
      [.addAlarm timeAlarm (now + alarmIn)] := by
  rw [setupAlarm, ensure, if_pos h]
  apply evaluates_bind _ _ () _ (.inl rfl)
  exact evaluates_bind _ _ _ _ (nativeAdd_evaluates _ _ _) (evaluates_pure _)

theorem tryBuildReward_evaluates (querier : Querier Name) (config : Config) (pools : List Pool)
    (apr : ℕ) (h : Listed querier config.protocolsRegistry pools)
    (hapr : (config.tvlToApr.getApr (Pool.tvl pools) : Outcome ContractError ℕ) = .ok apr) :
    Evaluates (tryBuildReward querier config) ⟨pools, apr⟩ := by
  obtain ⟨names, listed, hnames, hlisted, hpools⟩ := h
  have hprotocols : protocols querier config.protocolsRegistry = .ok listed := by
    simp only [protocols, bind_ok, answered_ok, mapM_ok]
    exact ⟨names, hnames, hlisted⟩
  have hnew : (listed.mapM fun protocol => Pool.new querier protocol.lpp protocol.oracle) =
      .ok pools := by
    simpa only [mapM_ok, pool_new_ok] using hpools
  rw [tryBuildReward, hprotocols]
  apply evaluates_bind _ _ listed _ (.inl rfl)
  rw [hnew]
  apply evaluates_bind _ _ pools _ (.inl rfl)
  apply evaluates_bind _ _ _ _ (tvl_evaluates pools 0)
  rw [Nat.zero_add, hapr]
  exact evaluates_bind _ _ apr _ (.inl rfl) (evaluates_pure _)

/-- A dispatch that is to go through fails only where an amount overflows. -/
theorem tryDispatch_evaluates (self : Storage) (querier : Querier Name) (env : Env)
    (timeAlarm : Addr) (config : Config) (pools : List Pool)
    (hconfig : self.config = some config) (halarm : querier.isContract timeAlarm = true)
    (htime : self.lastDispatch ≤ env.now)
    (hpools : Listed querier config.protocolsRegistry pools)
    (hpriced : ∀ pool ∈ pools, ∃ nls, querier.priceOfNls pool.oracle = .ok nls) :
    ∃ next apr response, Dispatched querier env timeAlarm self next config pools apr response ∧
      Evaluates (tryDispatch self querier env timeAlarm) (response, next) := by
  obtain ⟨bar, -, hapr⟩ := config.tvlToApr.getApr_within (ε := ContractError) (Pool.tvl pools)
  refine ⟨{ self with dispatchLog := some env.now }, bar.apr, _,
    ⟨hconfig, halarm, htime, hpools, hapr, hpriced, rfl, rfl⟩, ?_⟩
  have hload : self.loadConfig = .ok config := by
    rw [Storage.loadConfig, okOr_ok]
    exact hconfig
  rw [tryDispatch, hload]
  apply evaluates_bind _ _ config _ (.inl rfl)
  apply evaluates_bind _ _ _ _ (setupAlarm_evaluates querier timeAlarm _ _ halarm)
  rw [(updateLog_ok self _ env.now).2 ⟨htime, rfl⟩]
  apply evaluates_bind _ _ _ _ (.inl rfl)
  apply evaluates_bind _ _ _ _ (nativeSub_evaluates _ _ htime)
  apply evaluates_bind _ _ _ _ (tryBuildReward_evaluates querier config pools bar.apr hpools hapr)
  apply evaluates_bind _ _ _ _ (distribute_evaluates querier env bar.apr _ pools _ hpriced)
  exact evaluates_pure _

/-- What a dispatch does when it goes through, and that it does whenever its queries are answered
and no amount overflows. -/
theorem dispatch_exact (self : Storage) (querier : Querier Name) (env : Env) (timeAlarm : Addr) :
    (∀ next response, tryDispatch self querier env timeAlarm = .ok (response, next) →
      ∃ config pools apr, Dispatched querier env timeAlarm self next config pools apr response ∧
        (pools.map fun pool =>
          accruedOn (percent apr) pool.balance (env.now - self.lastDispatch)).sum ≤
          accruedOn (percent apr) (Pool.tvl pools) (env.now - self.lastDispatch)) ∧
    ∀ config pools, self.config = some config → querier.isContract timeAlarm = true →
      self.lastDispatch ≤ env.now → Listed querier config.protocolsRegistry pools →
      (∀ pool ∈ pools, ∃ nls, querier.priceOfNls pool.oracle = .ok nls) →
      ∃ next apr response, Dispatched querier env timeAlarm self next config pools apr response ∧
        Evaluates (tryDispatch self querier env timeAlarm) (response, next) := by
  constructor
  · intro next response h
    obtain ⟨config, pools, apr, hd⟩ := tryDispatch_ok _ _ _ _ _ _ h
    exact ⟨config, pools, apr, hd, rewards_le _ _ pools⟩
  · intro config pools hconfig halarm htime hpools hpriced
    exact tryDispatch_evaluates self querier env timeAlarm config pools hconfig halarm htime hpools
      hpriced

end Nolus.Treasury
