import NolusMoneyMarket.Base.Tiles
import NolusMoneyMarket.Lpp.Rewards
import NolusMoneyMarket.TimeAlarms.Delivery
import NolusMoneyMarket.Treasury.Contract

/-! # Rewards over time

The treasury together with its bank balance, the store of time alarms and the
pools. A delivered alarm either goes through with all the messages it leads to
or leaves everything as it is, and then the alarm is armed again. Whatever the
order of deliveries, failures and changes of the configuration, the rewarded
periods follow one another from the instantiation on. -/

set_option autoImplicit false

namespace Nolus.TreasuryPayouts
open Nolus.Fallible Nolus.Runs Nolus.Tiling Nolus.AccessControl Nolus.RewardScales
open Nolus.TreasuryRewards Nolus.Treasury
open Nolus.TimeAlarming (Alarms)

abbrev AlarmsWorld : Type := TimeAlarmsDelivery.World
abbrev AlarmsStep (isContract : Addr → Bool) :
    AlarmsWorld → TimeAlarmsDelivery.Event → AlarmsWorld → Prop :=
  TimeAlarmsDelivery.Step isContract

structure Entry where
  start : ℕ
  finish : ℕ
  granted : List (Addr × ℕ)
deriving DecidableEq, Repr

def Entry.span (self : Entry) : ℕ × ℕ := (self.start, self.finish)

/-- The time of the instantiation, the funds received so far, and the entries are kept for the
statements only. -/
structure World where
  address : Addr
  timeAlarms : Addr
  treasury : Storage
  store : AlarmsWorld
  pools : Addr → Option LppPool.Pool
  balance : ℕ
  since : ℕ
  received : ℕ
  entries : List Entry

def amounts (granted : List (Addr × ℕ)) : ℕ := (granted.map Prod.snd).sum

def World.paid (w : World) : ℕ := (w.entries.map fun entry => amounts entry.granted).sum

/-- The funds leave the treasury for the pool that handles the message. -/
def World.reward (w : World) (now : ℕ) (lpp : Addr) (reward : ℕ) : Option World :=
  if w.balance < reward then none
  else
    match w.pools lpp with
    | none => none
    | some pool =>
      match pool.execute now ⟨w.address, none, [⟨.nls, reward⟩], .distributeRewards⟩ with
      | .error _ => none
      | .ok next => some { w with
          balance := w.balance - reward
          pools := Function.update w.pools lpp (some next) }

def World.addAlarm (isContract : Addr → Bool) (w : World) (now : ℕ) (timeAlarms : Addr)
    (time : ℕ) : Option World :=
  if timeAlarms = w.timeAlarms ∧ w.store.now ≤ now then
    match w.store.alarms.tryAdd isContract now w.address time with
    | .error _ => none
    | .ok alarms => some { w with
        store := { w.store with
          alarms := alarms
          now := now
          added := Function.update w.store.added w.address (w.store.added w.address + 1)
          armed := Function.update w.store.armed w.address (some (TimeAlarming.asSeconds time)) } }
  else none

def World.executeMessage (isContract : Addr → Bool) (now : ℕ) (w : World) : Message → Option World
  | .distributeRewards lpp reward => w.reward now lpp reward
  | .addAlarm timeAlarms time => w.addAlarm isContract now timeAlarms time

def World.executeAll (isContract : Addr → Bool) (now : ℕ) (w : World) (messages : List Message) :
    Option World :=
  messages.foldlM (World.executeMessage isContract now) w

def grantedBy (messages : List Message) : List (Addr × ℕ) :=
  messages.filterMap fun message =>
    match message with
    | .distributeRewards lpp reward => some (lpp, reward)
    | .addAlarm _ _ => none

variable {Name : Type}

def World.dispatch (isContract : Addr → Bool) (w : World) (querier : Querier Name) (env : Env) :
    Option World :=
  match execute w.treasury querier env w.timeAlarms with
  | .error _ => none
  | .ok (response, treasury) =>
    (({ w with treasury := treasury } : World).executeAll isContract env.now
      response.messages).map fun settled =>
        { settled with entries := settled.entries ++
            [⟨w.treasury.lastDispatch, env.now, grantedBy response.messages⟩] }

/-- The treasury is the subscriber whose alarm is being delivered. -/
def World.atFront (w : World) : Prop := ∃ n rest, w.store.awaited = (w.address, n) :: rest

def Foreign (w : World) : TimeAlarmsDelivery.Event → Prop
  | .add _ subscriber _ => subscriber ≠ w.address
  | .dispatch _ _ _ => True
  | .delivered _ => ¬ w.atFront
  | .failed _ => ¬ w.atFront

inductive Event (Name : Type)
  | others (event : TimeAlarmsDelivery.Event)
  | delivery (querier : Querier Name) (env : Env)
  | stray (querier : Querier Name) (env : Env) (sender : Addr)
  | sudo_ (msg : SudoMsg)
  | pool (lpp : Addr) (now : ℕ) (event : LppPool.Event)
  | newPool (lpp : Addr)
  | fund (amount : ℕ)

/-- A delivery that cannot go through fails, and the chain may refuse any for reasons of its own. -/
inductive Step (isContract : Addr → Bool) : World → Event Name → World → Prop
  | others (w : World) (event : TimeAlarmsDelivery.Event) (store : AlarmsWorld)
      (hforeign : Foreign w event) (h : AlarmsStep isContract w.store event store) :
      Step isContract w (.others event) { w with store := store }
  | dispatched (w settled : World) (querier : Querier Name) (env : Env) (store : AlarmsWorld)
      (hfront : w.atFront) (h : w.dispatch isContract querier env = some settled)
      (hreply : AlarmsStep isContract settled.store (.delivered env.now) store) :
      Step isContract w (.delivery querier env) { settled with store := store }
  | failed (w : World) (querier : Querier Name) (env : Env) (store : AlarmsWorld)
      (hfront : w.atFront) (hreply : AlarmsStep isContract w.store (.failed env.now) store) :
      Step isContract w (.delivery querier env) { w with store := store }
  | stray (w : World) (querier : Querier Name) (env : Env) (sender : Addr) (response : Response)
      (treasury : Storage) (hsender : sender ≠ w.timeAlarms)
      (h : execute w.treasury querier env sender = .ok (response, treasury)) :
      Step isContract w (.stray querier env sender) { w with treasury := treasury }
  | sudo_ (w : World) (msg : SudoMsg) (treasury : Storage)
      (h : Treasury.sudo_ w.treasury msg = .ok treasury) :
      Step isContract w (.sudo_ msg) { w with treasury := treasury }
  | pool (w : World) (lpp : Addr) (now : ℕ) (event : LppPool.Event) (pool next : LppPool.Pool)
      (hpool : w.pools lpp = some pool) (h : pool.handle now event = .ok next) :
      Step isContract w (.pool lpp now event)
        { w with pools := Function.update w.pools lpp (some next) }
  | newPool (w : World) (lpp : Addr) (pool : LppPool.Pool) (hnone : w.pools lpp = none) :
      Step isContract w (.newPool lpp)
        { w with pools := Function.update w.pools lpp (some pool) }
  | fund (w : World) (amount : ℕ) :
      Step isContract w (.fund amount)
        { w with balance := w.balance + amount, received := w.received + amount }

inductive Start (Name : Type) (isContract : Addr → Bool) : World → Prop
  | instantiated (w settled : World) (querier : Querier Name) (env : Env) (msg : InstantiateMsg)
      (response : Response) (treasury : Storage)
      (hstore : TimeAlarmsDelivery.Sound w.store)
      (hreceived : w.received = w.balance) (hentries : w.entries = [])
      (halarms : w.timeAlarms = msg.timeAlarms)
      (h : instantiate querier env msg = .ok (response, treasury))
      (hsettled : ({ w with treasury := treasury, since := env.now } : World).executeAll isContract
        env.now response.messages = some settled) :
      Start Name isContract settled

def World.Awaits (w : World) : Prop :=
  w.store.alarms.active w.address ≠ none ∨ w.address ∈ w.store.alarms.inDelivery

/-- The periods rewarded so far tile the time since the instantiation. -/
structure Rewarding (w : World) : Prop where
  permitted : w.treasury.timeAlarms = some w.timeAlarms
  configured : w.treasury.config ≠ none
  logged : w.treasury.dispatchLog ≠ none
  past : w.treasury.lastDispatch ≤ w.store.now
  tiled : Tiles w.since (w.entries.map Entry.span) w.treasury.lastDispatch
  funds : w.balance + w.paid = w.received
  sound : TimeAlarmsDelivery.Sound w.store
  awaits : w.Awaits

variable {isContract : Addr → Bool}

/-! ## What the messages do -/

theorem grantedBy_granting (env : Env) (granted : List (Addr × ℕ)) (timeAlarm : Addr) (time : ℕ) :
    grantedBy ((granting env granted).mergeWith
      (Response.messagesOnly [.addAlarm timeAlarm time])).messages = nonZero granted := by
  have hrewards : ((nonZero granted).map fun grant =>
      Message.distributeRewards grant.1 grant.2).filterMap (fun message => match message with
        | .distributeRewards lpp reward => some (lpp, reward)
        | .addAlarm _ _ => none) = nonZero granted := by
    rw [List.filterMap_map]
    exact List.filterMap_some
  rw [grantedBy, Response.mergeWith, List.filterMap_append, granting]
  simp only [hrewards]
  exact List.append_nil _

theorem reward_ok (w w' : World) (now : ℕ) (lpp : Addr) (reward : ℕ)
    (h : w.reward now lpp reward = some w') :
    reward ≤ w.balance ∧ ∃ pool next, w.pools lpp = some pool ∧
      pool.execute now ⟨w.address, none, [⟨.nls, reward⟩], .distributeRewards⟩ = .ok next ∧
      w' = { w with
        balance := w.balance - reward
        pools := Function.update w.pools lpp (some next) } := by
  unfold World.reward at h
  split_ifs at h with hfunds
  split at h
  · cases h
  · next pool hpool =>
    split at h
    · cases h
    · next next hnext => exact ⟨not_lt.1 hfunds, pool, next, hpool, hnext, (Option.some.inj h).symm⟩

/-- The rewards of some pools change nothing but them and the balance. -/
theorem rewards_settled (w w' : World) (now : ℕ) (granted : List (Addr × ℕ))
    (h : w.executeAll isContract now
      (granted.map fun grant => .distributeRewards grant.1 grant.2) = some w') :
    ∃ balance pools, w' = { w with balance := balance, pools := pools } ∧
      balance + amounts granted = w.balance := by
  induction granted generalizing w with
  | nil =>
    have hsame : w = w' := Option.some.inj h
    exact ⟨w.balance, w.pools, hsame.symm, Nat.add_zero _⟩
  | cons grant granted ih =>
    rw [World.executeAll, List.map_cons, List.foldlM_cons] at h
    obtain ⟨w₁, hfirst, hrest⟩ := Option.bind_eq_some_iff.1 h
    obtain ⟨hle, pool, next, -, -, rfl⟩ := reward_ok w w₁ now grant.1 grant.2 hfirst
    obtain ⟨balance, pools, rfl, hsum⟩ := ih _ hrest
    refine ⟨balance, pools, rfl, ?_⟩
    rw [amounts, List.map_cons, List.sum_cons]
    change balance + amounts granted = w.balance - grant.2 at hsum
    rw [amounts] at hsum
    omega

def sentTo (lpp : Addr) (granted : List (Addr × ℕ)) : ℕ :=
  amounts (granted.filter fun grant => grant.1 = lpp)

theorem sentTo_cons (lpp : Addr) (grant : Addr × ℕ) (granted : List (Addr × ℕ)) :
    sentTo lpp (grant :: granted) =
      (if grant.1 = lpp then grant.2 else 0) + sentTo lpp granted := by
  unfold sentTo amounts
  by_cases h : grant.1 = lpp <;> simp [h]

def Credited (granted : ℕ) (old next : LppPool.Pool) : Prop :=
  ∃ rewardPerToken, next = { old with
    balanceNls := old.balanceNls + granted
    lenders := { old.lenders with
      globals := { old.lenders.globals with rewardPerToken := rewardPerToken } } }

theorem credited_trans (first second : ℕ) (old middle next : LppPool.Pool)
    (h : Credited first old middle) (k : Credited second middle next) :
    Credited (first + second) old next := by
  obtain ⟨_, rfl⟩ := h
  obtain ⟨rewardPerToken, rfl⟩ := k
  exact ⟨rewardPerToken, by simp only [Nat.add_assoc]⟩

theorem execute_credited (pool next : LppPool.Pool) (now address reward : ℕ)
    (h : pool.execute now ⟨address, none, [⟨.nls, reward⟩], .distributeRewards⟩ = .ok next) :
    0 < pool.supply ∧ Credited reward pool next := by
  simp only [LppPool.Pool.execute, LppPool.Pool.tryDistributeRewards, bind_ok, pure_ok] at h
  obtain ⟨amount, hfunds, lenders, hdist, rfl⟩ := h
  obtain rfl := LppEffects.receivedOne_funds _ _ _ hfunds
  obtain ⟨_, _, hd⟩ := LppRewards.distributeRewards_distributed _ _ _ hdist
  refine ⟨hd.supply_pos, ?_⟩
  unfold LppDeposit.Deposits.distributeRewards at hdist
  split_ifs at hdist
  · cases hdist
  · cases hdist
  · simp only [bind_ok, pure_ok] at hdist
    obtain ⟨_, -, price, -, rfl⟩ := hdist
    exact ⟨some price, by simp [LppPool.Pool.credit, LppPool.fundsOf]⟩

/-- Every pool is credited with what it is sent, and only a pool with lenders is sent any. -/
structure Credits (old new : Addr → Option LppPool.Pool) (granted : List (Addr × ℕ)) :
    Prop where
  lenders : ∀ grant ∈ granted, ∃ pool, old grant.1 = some pool ∧ 0 < pool.supply
  credited : ∀ lpp pool, old lpp = some pool →
    ∃ next, new lpp = some next ∧ Credited (sentTo lpp granted) pool next

theorem rewards_credited (w w' : World) (now : ℕ) (granted : List (Addr × ℕ))
    (h : w.executeAll isContract now
      (granted.map fun grant => .distributeRewards grant.1 grant.2) = some w') :
    Credits w.pools w'.pools granted := by
  induction granted generalizing w with
  | nil =>
    have hsame : w = w' := Option.some.inj h
    subst hsame
    exact ⟨by simp, fun lpp pool hpool => ⟨pool, hpool, pool.lenders.globals.rewardPerToken, rfl⟩⟩
  | cons grant granted ih =>
    rw [World.executeAll, List.map_cons, List.foldlM_cons] at h
    obtain ⟨w₁, hfirst, hrest⟩ := Option.bind_eq_some_iff.1 h
    obtain ⟨-, pool, next, hpool, hexecute, rfl⟩ := reward_ok w w₁ now grant.1 grant.2 hfirst
    obtain ⟨hsupply, hcredited⟩ := execute_credited pool next now w.address grant.2 hexecute
    obtain ⟨hlenders, hall⟩ := ih _ hrest
    refine ⟨?_, ?_⟩
    · intro other hother
      rcases List.mem_cons.1 hother with rfl | hother
      · exact ⟨pool, hpool, hsupply⟩
      · obtain ⟨found, hfound, hpos⟩ := hlenders other hother
        by_cases hsame : other.1 = grant.1
        · exact ⟨pool, hsame ▸ hpool, hsupply⟩
        · exact ⟨found, by simpa only [Function.update_of_ne hsame] using hfound, hpos⟩
    · intro lpp old hold
      rw [sentTo_cons]
      by_cases hsame : grant.1 = lpp
      · subst hsame
        rw [hpool] at hold
        cases hold
        obtain ⟨last, hlast, hmore⟩ := hall grant.1 next (Function.update_self _ _ _)
        exact ⟨last, hlast, by simpa using credited_trans _ _ _ _ _ hcredited hmore⟩
      · obtain ⟨last, hlast, hmore⟩ := hall lpp old (by
          simpa only [Function.update_of_ne (Ne.symm hsame)] using hold)
        exact ⟨last, hlast, by simpa [hsame] using hmore⟩

theorem addAlarm_ok (w w' : World) (now : ℕ) (timeAlarms : Addr) (time : ℕ)
    (h : w.addAlarm isContract now timeAlarms time = some w') :
    ∃ store, AlarmsStep isContract w.store (.add now w.address time) store ∧
      w' = { w with store := store } := by
  unfold World.addAlarm at h
  split_ifs at h with hto
  split at h
  · cases h
  · next alarms hadd =>
    exact ⟨_, TimeAlarmsDelivery.Step.add w.store now w.address time alarms hto.2 hadd,
      (Option.some.inj h).symm⟩

theorem messages_settled (w w' : World) (env : Env) (granted : List (Addr × ℕ)) (timeAlarm : Addr)
    (time : ℕ) (h : w.executeAll isContract env.now ((granting env granted).mergeWith
      (Response.messagesOnly [.addAlarm timeAlarm time])).messages = some w') :
    ∃ balance pools store, AlarmsStep isContract w.store (.add env.now w.address time) store ∧
      w' = { w with balance := balance, pools := pools, store := store } ∧
      balance + amounts (nonZero granted) = w.balance ∧
      Credits w.pools pools (nonZero granted) := by
  rw [World.executeAll, Response.mergeWith, List.foldlM_append] at h
  obtain ⟨w₁, hrewards, halarm⟩ := Option.bind_eq_some_iff.1 h
  have hcredits := rewards_credited w w₁ env.now (nonZero granted) hrewards
  obtain ⟨balance, pools, rfl, hsum⟩ := rewards_settled w w₁ env.now (nonZero granted) hrewards
  obtain ⟨w₂, hadd, hlast⟩ := Option.bind_eq_some_iff.1 halarm
  obtain rfl := Option.some.inj hlast
  obtain ⟨store, hstep, rfl⟩ := addAlarm_ok _ _ _ _ _ hadd
  exact ⟨balance, pools, store, hstep, rfl, hsum, hcredits⟩

theorem dispatch_ok (w settled : World) (querier : Querier Name) (env : Env)
    (h : w.dispatch isContract querier env = some settled) :
    ∃ config pools apr response next balance lpps store time granted,
      Dispatched querier env w.timeAlarms w.treasury next config pools apr response ∧
      granted = nonZero (grants querier apr (env.now - w.treasury.lastDispatch) pools) ∧
      AlarmsStep isContract w.store (.add env.now w.address time) store ∧
      balance + amounts granted = w.balance ∧ Credits w.pools lpps granted ∧
      settled = { w with
        treasury := next
        balance := balance
        pools := lpps
        store := store
        entries := w.entries ++ [⟨w.treasury.lastDispatch, env.now, granted⟩] } := by
  unfold World.dispatch at h
  split at h
  · cases h
  · next response next hexecute =>
    simp only [execute, bind_ok] at hexecute
    obtain ⟨_, -, hdispatch⟩ := hexecute
    obtain ⟨config, pools, apr, hd⟩ := tryDispatch_ok _ _ _ _ _ _ hdispatch
    obtain ⟨w', hall, rfl⟩ := Option.map_eq_some_iff.1 h
    rw [hd.responds] at hall
    obtain ⟨balance, lpps, store, hstep, rfl, hsum, hcredits⟩ := messages_settled _ _ _ _ _ _ hall
    refine ⟨config, pools, apr, response, next, balance, lpps, store, _, _, hd, rfl, hstep, hsum,
      hcredits, ?_⟩
    simp only [hd.responds, grantedBy_granting]

/-! ## The next alarm of the treasury -/

theorem alarms_time (store store' : AlarmsWorld) (event : TimeAlarmsDelivery.Event)
    (h : AlarmsStep isContract store event store') :
    store.now ≤ store'.now ∧ store'.now = event.now := by
  cases h with
  | add _ _ _ _ hnow _ => exact ⟨hnow, rfl⟩
  | dispatch _ _ _ _ hnow _ => exact ⟨hnow, rfl⟩
  | delivered _ _ _ _ _ hnow _ _ => exact ⟨hnow, rfl⟩
  | failed _ _ _ _ _ hnow _ _ => exact ⟨hnow, rfl⟩

theorem front_iff (w : World) (hs : TimeAlarmsDelivery.Sound w.store) :
    w.atFront ↔ ∃ queue, w.store.alarms.inDelivery = w.address :: queue := by
  rw [hs.queue, World.atFront]
  constructor
  · rintro ⟨n, rest, hawaited⟩
    exact ⟨rest.map Prod.fst, by rw [hawaited, List.map_cons]⟩
  · rintro ⟨queue, hqueue⟩
    obtain ⟨⟨s, n⟩, rest, hawaited, hs, -⟩ := List.map_eq_cons_iff.1 hqueue
    subst hs
    exact ⟨n, rest, hawaited⟩

theorem queued_stays (w : World) (s : Addr) (queue : List Addr)
    (hs : TimeAlarmsDelivery.Sound w.store) (hfront : ¬ w.atFront)
    (hq : w.store.alarms.inDelivery = s :: queue) (hin : w.address ∈ w.store.alarms.inDelivery) :
    w.address ≠ s ∧ w.address ∈ queue := by
  have hne : w.address ≠ s := by
    rintro rfl
    exact hfront ((front_iff w hs).2 ⟨queue, hq⟩)
  rw [hq] at hin
  exact ⟨hne, (List.mem_cons.1 hin).resolve_left hne⟩

theorem foreign_awaits (w : World) (event : TimeAlarmsDelivery.Event) (store : AlarmsWorld)
    (hs : TimeAlarmsDelivery.Sound w.store) (hforeign : Foreign w event)
    (h : AlarmsStep isContract w.store event store) (ha : w.Awaits) :
    World.Awaits { w with store := store } := by
  cases event with
  | add now s time =>
    cases h with
    | add _ _ _ alarms _ hadd =>
      obtain ⟨-, rfl⟩ := Alarms.tryAdd_ok _ _ _ _ _ _ hadd
      refine ha.imp (fun hactive => ?_) id
      have hne : w.address ≠ s := fun heq => hforeign heq.symm
      simpa only [Alarms.active_addInternal, Function.update_of_ne hne] using hactive
  | dispatch now maxCount subscribers =>
    obtain ⟨hnone, -, -, -, hqueue, hactive⟩ :=
      TimeAlarmsDelivery.dispatch_effect w.store store now maxCount subscribers hs h
    have hheld := ha.resolve_right (by simp [hnone])
    by_cases hin : w.address ∈ subscribers
    · exact .inr (by simpa only [hqueue] using hin)
    · exact .inl (by simpa only [hactive, if_neg hin] using hheld)
  | delivered now =>
    cases h with
    | delivered _ s n rest alarms _ _ hreply =>
      obtain ⟨subscriber, hq, hsame⟩ := Alarms.lastDelivered_ok _ _ hreply
      refine ha.imp (fun hactive => ?_)
        fun hin => (queued_stays w subscriber _ hs hforeign hq hin).2
      simpa only [Alarms.active, hsame] using hactive
  | failed now =>
    obtain ⟨s, hq, -, -, hactive⟩ := TimeAlarmsDelivery.failed_effect w.store store now hs h
    rcases ha with hheld | hin
    · refine .inl ?_
      simp only [hactive]
      by_cases heq : w.address = s
      · simp [heq]
      · simpa only [Function.update_of_ne heq] using hheld
    · exact .inr (queued_stays w s _ hs hforeign hq hin).2

theorem added_active (w : World) (store : AlarmsWorld) (now time : ℕ)
    (h : AlarmsStep isContract w.store (.add now w.address time) store) :
    store.alarms.active w.address ≠ none := by
  cases h with
  | add _ _ _ alarms _ hadd =>
    obtain ⟨-, rfl⟩ := Alarms.tryAdd_ok _ _ _ _ _ _ hadd
    simp [Alarms.active_addInternal]

theorem delivered_active (store store' : AlarmsWorld) (now : ℕ)
    (h : AlarmsStep isContract store (.delivered now) store') :
    store'.alarms.active = store.alarms.active := by
  cases h with
  | delivered _ s n rest alarms _ _ hreply =>
    obtain ⟨_, -, hsame⟩ := Alarms.lastDelivered_ok _ _ hreply
    unfold Alarms.active
    rw [hsame]

theorem failed_rearmed (w : World) (store : AlarmsWorld) (now : ℕ)
    (hs : TimeAlarmsDelivery.Sound w.store) (hfront : w.atFront)
    (h : AlarmsStep isContract w.store (.failed now) store) :
    store.alarms.active w.address = some (TimeAlarming.asSeconds now - 1) := by
  obtain ⟨s, hq, -, -, hactive⟩ := TimeAlarmsDelivery.failed_effect w.store store now hs h
  obtain ⟨queue, hqueue⟩ := (front_iff w hs).1 hfront
  rw [hq, List.cons.injEq] at hqueue
  rw [hactive, hqueue.1, Function.update_self]

/-! ## The periods rewarded -/

theorem dispatched_rewarding (w settled : World) (querier : Querier Name) (env : Env)
    (store : AlarmsWorld) (h : w.dispatch isContract querier env = some settled)
    (hreply : AlarmsStep isContract settled.store (.delivered env.now) store)
    (hw : Rewarding w) : Rewarding { settled with store := store } := by
  obtain ⟨config, pools, apr, response, next, balance, lpps, store₁, time, granted, hd, hgranted,
    hadd, hsum, -, rfl⟩ := dispatch_ok w settled querier env h
  have hsound := TimeAlarmsDelivery.step_sound _ _ _ hreply
    (TimeAlarmsDelivery.step_sound _ _ _ hadd hw.sound)
  have hnext := hd.logged
  have hlast : next.lastDispatch = env.now := by rw [hnext]; rfl
  constructor
  · rw [hnext]
    exact hw.permitted
  · rw [hnext]
    exact hw.configured
  · rw [hnext]
    simp
  · rw [hlast]
    exact (alarms_time _ _ _ hreply).2.ge
  · simp only [hlast, List.map_append]
    exact tiles_snoc _ _ _ _ hw.tiled hd.time
  · have hfunds := hw.funds
    simp only [World.paid, List.map_append, List.sum_append, List.map_cons, List.map_nil,
      List.sum_cons, List.sum_nil] at hfunds ⊢
    omega
  · exact hsound
  · left
    rw [delivered_active _ _ _ hreply]
    exact added_active w store₁ _ _ hadd

theorem check_fails (w : World) (sender : Addr) (hw : w.treasury.timeAlarms = some w.timeAlarms)
    (hsender : sender ≠ w.timeAlarms) (querier : Querier Name) (env : Env) :
    execute w.treasury querier env sender = .error (.error (.unauthorized .unauthorized)) := by
  rw [execute, Storage.check, hw]
  simp [SingleUserAccess.check, AccessControl.check, okOr, ensure, mapError, Ne.symm hsender, bind,
    Except.bind]

theorem sudo_keeps (treasury next : Storage) (msg : SudoMsg)
    (h : Treasury.sudo_ treasury msg = .ok next) :
    next.config ≠ none ∧ next.timeAlarms = treasury.timeAlarms ∧
      next.dispatchLog = treasury.dispatchLog := by
  cases msg with
  | config cadenceHours =>
    simp only [Treasury.sudo_, Storage.updateCadenceHours, Storage.updateConfig, bind_ok,
      pure_ok] at h
    obtain ⟨_, -, rfl⟩ := h
    exact ⟨by simp [Storage.storeConfig], rfl, rfl⟩
  | rewards tvlToApr =>
    simp only [Treasury.sudo_, Storage.updateTvlToApr, Storage.updateConfig, bind_ok,
      pure_ok] at h
    obtain ⟨_, -, rfl⟩ := h
    exact ⟨by simp [Storage.storeConfig], rfl, rfl⟩

theorem step_rewarding (w : World) (event : Event Name) (w' : World)
    (h : Step isContract w event w') (hw : Rewarding w) : Rewarding w' := by
  cases h with
  | others event store hforeign hstep =>
    have htime := (alarms_time _ _ _ hstep).1
    exact ⟨hw.permitted, hw.configured, hw.logged, hw.past.trans htime, hw.tiled, hw.funds,
      TimeAlarmsDelivery.step_sound _ _ _ hstep hw.sound,
      foreign_awaits w event store hw.sound hforeign hstep hw.awaits⟩
  | dispatched settled querier env store hfront hdispatch hreply =>
    exact dispatched_rewarding w settled querier env store hdispatch hreply hw
  | failed querier env store hfront hreply =>
    have htime := (alarms_time _ _ _ hreply).1
    refine ⟨hw.permitted, hw.configured, hw.logged, hw.past.trans htime, hw.tiled, hw.funds,
      TimeAlarmsDelivery.step_sound _ _ _ hreply hw.sound, .inl ?_⟩
    simp only [failed_rearmed w store _ hw.sound hfront hreply, ne_eq, reduceCtorEq,
      not_false_eq_true]
  | stray querier env sender response treasury hsender hexecute =>
    rw [check_fails w sender hw.permitted hsender] at hexecute
    cases hexecute
  | sudo_ msg treasury hsudo =>
    obtain ⟨hconfigured, hpermitted, hlog⟩ := sudo_keeps _ _ _ hsudo
    have hlast : treasury.lastDispatch = w.treasury.lastDispatch := by
      rw [Storage.lastDispatch, hlog, Storage.lastDispatch]
    refine ⟨hpermitted.trans hw.permitted, hconfigured, ?_, ?_, ?_, hw.funds, hw.sound,
      hw.awaits⟩
    · simp only [hlog]
      exact hw.logged
    · simp only [hlast]
      exact hw.past
    · simp only [hlast]
      exact hw.tiled
  | pool lpp now event pool next hpool hhandle =>
    exact ⟨hw.permitted, hw.configured, hw.logged, hw.past, hw.tiled, hw.funds, hw.sound,
      hw.awaits⟩
  | newPool lpp pool hnone =>
    exact ⟨hw.permitted, hw.configured, hw.logged, hw.past, hw.tiled, hw.funds, hw.sound,
      hw.awaits⟩
  | fund amount =>
    have hfunds := hw.funds
    refine ⟨hw.permitted, hw.configured, hw.logged, hw.past, hw.tiled, ?_, hw.sound,
      hw.awaits⟩
    simp only [World.paid] at hfunds ⊢
    omega

theorem instantiate_ok (querier : Querier Name) (env : Env) (msg : InstantiateMsg)
    (response : Response) (treasury : Storage)
    (h : instantiate querier env msg = .ok (response, treasury)) :
    treasury = ⟨some msg.timeAlarms,
      some ⟨msg.cadenceHours, msg.protocolsRegistry, msg.tvlToApr⟩, some env.now⟩ ∧
      response = Response.messagesOnly
        [.addAlarm msg.timeAlarms (env.now + fromHours msg.cadenceHours)] := by
  simp only [instantiate, bind_ok, pure_ok, Prod.mk.injEq, updateLog_ok] at h
  obtain ⟨_, -, _, -, _, ⟨-, rfl⟩, alarm, halarm, rfl, rfl⟩ := h
  obtain ⟨-, rfl⟩ := setupAlarm_ok _ _ _ _ _ halarm
  exact ⟨rfl, rfl⟩

theorem start_rewarding (w : World) (h : Start Name isContract w) : Rewarding w := by
  cases h with
  | instantiated w settled querier env msg response treasury hstore hreceived hentries halarms h
      hsettled =>
    obtain ⟨rfl, rfl⟩ := instantiate_ok _ _ _ _ _ h
    obtain ⟨w₁, hadd, hlast⟩ := Option.bind_eq_some_iff.1 hsettled
    obtain rfl := Option.some.inj hlast
    obtain ⟨store, hstep, rfl⟩ := addAlarm_ok _ _ _ _ _ hadd
    refine ⟨by simp only [halarms], by simp, by simp, ?_, ?_, ?_,
      TimeAlarmsDelivery.step_sound _ _ _ hstep hstore, .inl ?_⟩
    · exact (alarms_time _ _ _ hstep).2.ge
    · simp [hentries, Tiles, Storage.lastDispatch]
    · simp [World.paid, hentries, hreceived]
    · exact added_active w store _ _ hstep

/-! ## The outcome of a delivery -/

/-- All pools are rewarded for the time since the last dispatch. -/
def PaidOut (querier : Querier Name) (env : Env) (w w' : World) : Prop :=
  ∃ config pools apr response granted,
    Dispatched querier env w.timeAlarms w.treasury w'.treasury config pools apr response ∧
    granted = nonZero (grants querier apr (env.now - w.treasury.lastDispatch) pools) ∧
    w'.balance + amounts granted = w.balance ∧
    w'.entries = w.entries ++ [⟨w.treasury.lastDispatch, env.now, granted⟩] ∧
    Credits w.pools w'.pools granted

theorem dispatched_paid (w settled : World) (querier : Querier Name) (env : Env)
    (store : AlarmsWorld) (h : w.dispatch isContract querier env = some settled) :
    PaidOut querier env w { settled with store := store } := by
  obtain ⟨config, pools, apr, response, next, balance, lpps, store₁, time, granted, hd, hgranted,
    -, hsum, hcredits, rfl⟩ := dispatch_ok w settled querier env h
  exact ⟨config, pools, apr, response, granted, hd, hgranted, hsum, rfl, hcredits⟩

/-- The event is a delivery that pays all the pools, with the entry to show for it. -/
def Enters (isContract : Addr → Bool) (w : World) (event : Event Name) (entry : Entry) : Prop :=
  ∃ querier env w', event = .delivery querier env ∧ Step isContract w event w' ∧
    PaidOut querier env w w' ∧ w'.entries = w.entries ++ [entry]

theorem step_enters (w : World) (event : Event Name) (w' : World) (entry : Entry)
    (h : Step isContract w event w') (hin : entry ∈ w'.entries) :
    entry ∈ w.entries ∨ Enters isContract w event entry := by
  cases h with
  | dispatched settled querier env store hfront hdispatch hreply =>
    have hpaid := dispatched_paid w settled querier env store hdispatch
    obtain ⟨_, _, _, _, _, _, _, _, hentries, _⟩ := hpaid
    rw [hentries] at hin
    rcases List.mem_append.1 hin with hold | hnew
    · exact .inl hold
    · obtain rfl := List.mem_singleton.1 hnew
      exact .inr ⟨querier, env, _, rfl, .dispatched _ _ _ _ _ hfront hdispatch hreply,
        dispatched_paid w settled querier env store hdispatch, hentries⟩
  | _ => exact .inl hin

theorem start_unentered (w : World) (h : Start Name isContract w) : w.entries = [] := by
  cases h with
  | instantiated w settled querier env msg response treasury hstore hreceived hentries halarms h
      hsettled =>
    obtain ⟨rfl, rfl⟩ := instantiate_ok _ _ _ _ _ h
    obtain ⟨w₁, hadd, hlast⟩ := Option.bind_eq_some_iff.1 hsettled
    obtain rfl := Option.some.inj hlast
    obtain ⟨store, -, rfl⟩ := addAlarm_ok _ _ _ _ _ hadd
    exact hentries

/-- In every run the periods rewarded tile the time up to the last dispatch, each was paid for by a
delivery of the run, and another alarm is to come. -/
theorem rewards_without_gaps (isContract : Addr → Bool) (start w : World)
    (events : List (Event Name)) (hstart : Start Name isContract start)
    (hrun : Run (Step isContract) start events w) :
    Rewarding w ∧
      (∀ t, w.entries.countP (fun entry => Inside t entry.span) =
        if Inside t (w.since, w.treasury.lastDispatch) then 1 else 0) ∧
      ∀ entry ∈ w.entries, ∃ before event after mid, events = before ++ event :: after ∧
        Run (Step isContract) start before mid ∧ Enters isContract mid event entry := by
  have hw : Rewarding w :=
    run_preserves Rewarding step_rewarding start w events hrun (start_rewarding start hstart)
  refine ⟨hw, fun t => ?_, fun entry hin => ?_⟩
  · rw [← tiles_once _ _ _ hw.tiled t, List.countP_map]
    rfl
  · rcases run_traced (fun w entry => entry ∈ w.entries) (Enters isContract)
      (fun w event w' entry => step_enters w event w' entry) start w events hrun entry hin with
      hold | hentered
    · rw [start_unentered start hstart] at hold
      cases hold
    · exact hentered

/-- Nothing but the alarm of the treasury has changed, which is due again in the same block. -/
structure PutOff (now : ℕ) (w w' : World) : Prop where
  treasury : w'.treasury = w.treasury
  pools : w'.pools = w.pools
  balance : w'.balance = w.balance
  entries : w'.entries = w.entries
  rearmed : w'.store.alarms.active w.address = some (TimeAlarming.asSeconds now - 1)

def RewardsNobody (w : World) (querier : Querier Name) (env : Env) : Prop :=
  ∃ response next lpp reward, execute w.treasury querier env w.timeAlarms = .ok (response, next) ∧
    .distributeRewards lpp reward ∈ response.messages ∧
    ∀ pool, w.pools lpp = some pool → pool.supply = 0

theorem nobody_blocks (w : World) (querier : Querier Name) (env : Env)
    (h : RewardsNobody w querier env) : w.dispatch isContract querier env = none := by
  obtain ⟨response, next, lpp, reward, hexecute, hin, hnobody⟩ := h
  by_contra hne
  obtain ⟨settled, hsettled⟩ := Option.ne_none_iff_exists'.1 hne
  rw [World.dispatch, hexecute] at hsettled
  obtain ⟨w', hall, -⟩ := Option.map_eq_some_iff.1 hsettled
  simp only [execute, bind_ok] at hexecute
  obtain ⟨_, -, hdispatch⟩ := hexecute
  obtain ⟨config, pools, apr, hd⟩ := tryDispatch_ok _ _ _ _ _ _ hdispatch
  rw [hd.responds] at hall hin
  obtain ⟨_, _, _, -, -, -, hcredits⟩ := messages_settled _ _ _ _ _ _ hall
  have hgrant : (lpp, reward) ∈
      nonZero (grants querier apr (env.now - w.treasury.lastDispatch) pools) := by
    rcases List.mem_append.1 hin with hreward | halarm
    · obtain ⟨grant, hgrant, heq⟩ := List.mem_map.1 hreward
      cases heq
      exact hgrant
    · cases List.mem_singleton.1 halarm
  obtain ⟨pool, hpool, hpos⟩ := hcredits.lenders _ hgrant
  have hzero := hnobody pool hpool
  omega

/-- A delivery to the treasury is all or nothing, and one pool without lenders to reward puts the
rewards of all the pools off. -/
theorem delivery_all_or_nothing (isContract : Addr → Bool) (w w' : World) (querier : Querier Name)
    (env : Env) (h : Reachable (@Step Name isContract) (Start Name isContract) w)
    (hstep : Step isContract w (.delivery querier env) w') :
    (PaidOut querier env w w' ∨ PutOff env.now w w') ∧
      (RewardsNobody w querier env → PutOff env.now w w') := by
  have hw := reachable_induction _ (Rewarding) start_rewarding step_rewarding w h
  cases hstep with
  | dispatched settled _ _ store hfront hdispatch hreply =>
    constructor
    · exact .inl (dispatched_paid w settled querier env store hdispatch)
    · intro hnobody
      rw [nobody_blocks w querier env hnobody] at hdispatch
      cases hdispatch
  | failed _ _ store hfront hreply =>
    have hoff : PutOff env.now w { w with store := store } :=
      ⟨rfl, rfl, rfl, rfl, failed_rearmed w store _ hw.sound hfront hreply⟩
    exact ⟨.inr hoff, fun _ => hoff⟩

def openedAt : ℕ := 10 * TimeAlarming.nanosInSecond
def rewardedAt : ℕ := openedAt + Interest.year

def sampleQuerier : Querier ℕ where
  isAddress := fun _ => true
  isContract := fun _ => true
  protocols := fun _ => .ok [1]
  protocol := fun _ _ => .ok ⟨50, 60⟩
  stableBalance := fun _ _ => .ok 1000
  priceOfNls := fun _ => .ok ⟨⟨1, 1⟩, by decide, by decide⟩

def sampleConfig : Config := ⟨0, 90, RewardScale.new 100⟩

def noAlarms : AlarmsWorld := ⟨Alarms.empty, 0, [], fun _ => 0, fun _ => 0, fun _ => none⟩

def samplePools : Addr → Option LppPool.Pool :=
  Function.update (fun _ => none) 50 (some LppLedger.sampleDeposited.pool)

def sampleOpening : World :=
  ⟨3, 7, Treasury.empty, noAlarms, samplePools, 500, 0, 500, []⟩

def sampleOpened : World :=
  { sampleOpening with
    treasury := ⟨some 7, some sampleConfig, some openedAt⟩
    since := openedAt
    store := { noAlarms with
      alarms := Alarms.empty.add 3 openedAt
      now := openedAt
      added := Function.update (fun _ => 0) 3 1
      armed := Function.update (fun _ => none) 3 (some 10) } }

def sampleSelected : World :=
  { sampleOpened with
    store := { sampleOpened.store with
      alarms := sampleOpened.store.alarms.outAll [3]
      now := rewardedAt
      awaited := [(3, 1)] } }

def sampleSettled : World :=
  { sampleSelected with
    treasury := ⟨some 7, some sampleConfig, some rewardedAt⟩
    store := { sampleSelected.store with
      alarms := sampleSelected.store.alarms.add 3 rewardedAt
      added := Function.update (Function.update (fun _ => 0) 3 1) 3 2
      armed := Function.update (Function.update (fun _ => none) 3 (some 10)) 3
        (some (TimeAlarming.asSeconds rewardedAt)) }
    pools := Function.update samplePools 50 (some LppRewards.sampleRewarded.pool)
    balance := 400
    entries := [⟨openedAt, rewardedAt, [(50, 100)]⟩] }

def sampleRewarded : World :=
  { sampleSettled with
    store := { sampleSettled.store with
      alarms := ⟨sampleSettled.store.alarms.alarms, []⟩
      awaited := []
      delivered := Function.update (fun _ => 0) 3 1 } }

def anyContract : Addr → Bool := fun _ => true

def sampleEnv : Env := ⟨1, rewardedAt, none⟩

theorem sample_start : Start ℕ anyContract sampleOpened :=
  .instantiated sampleOpening sampleOpened sampleQuerier ⟨0, openedAt, none⟩
    ⟨0, 90, 7, RewardScale.new 100⟩ _ _ (TimeAlarmsDelivery.start_sound _ rfl) rfl rfl rfl rfl rfl

theorem sample_selected : Step anyContract sampleOpened
    (.others (.dispatch rewardedAt 5 [3]) : Event ℕ) sampleSelected :=
  .others _ _ _ trivial (.dispatch _ _ _ _ _ (by decide) rfl)

theorem sample_delivery : Step anyContract sampleSelected (.delivery sampleQuerier sampleEnv)
    sampleRewarded :=
  .dispatched _ sampleSettled _ _ _ ⟨1, [], rfl⟩ rfl (.delivered _ _ 3 1 [] _ (by decide) rfl rfl)

theorem selected_reachable :
    Reachable (@Step ℕ anyContract) (Start ℕ anyContract) sampleSelected :=
  ⟨sampleOpened, _, sample_start, run_one _ _ _ sample_selected⟩

theorem sample_run : Run (Step anyContract) sampleOpened
    [.others (.dispatch rewardedAt 5 [3]), .delivery sampleQuerier sampleEnv] sampleRewarded :=
  .next _ sampleSelected _ _ _ (run_one _ _ _ sample_selected) sample_delivery

theorem rewards_without_gaps_sample :
    Rewarding sampleRewarded ∧
      (∀ t, sampleRewarded.entries.countP (fun entry => Inside t entry.span) =
        if Inside t (sampleRewarded.since, sampleRewarded.treasury.lastDispatch) then 1 else 0) ∧
      ∀ entry ∈ sampleRewarded.entries, ∃ before event after mid,
        [.others (.dispatch rewardedAt 5 [3]), .delivery sampleQuerier sampleEnv] =
          before ++ event :: after ∧
        Run (Step anyContract) sampleOpened before mid ∧ Enters anyContract mid event entry :=
  rewards_without_gaps anyContract sampleOpened sampleRewarded _ sample_start sample_run

theorem delivery_all_or_nothing_sample :
    (PaidOut sampleQuerier sampleEnv sampleSelected sampleRewarded ∨
      PutOff rewardedAt sampleSelected sampleRewarded) ∧
      (RewardsNobody sampleSelected sampleQuerier sampleEnv →
        PutOff rewardedAt sampleSelected sampleRewarded) :=
  delivery_all_or_nothing anyContract sampleSelected sampleRewarded sampleQuerier sampleEnv
    selected_reachable sample_delivery

end Nolus.TreasuryPayouts
