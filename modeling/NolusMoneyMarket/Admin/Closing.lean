import NolusMoneyMarket.Admin.Registry
import NolusMoneyMarket.Leaser.Close
import NolusMoneyMarket.Treasury.Contract

/-! # A protocol that is closed

The leaser asks the registry to deregister its protocol. The registry drops the
protocol and migrates its five contracts to codes that do nothing. The treasury
reads the registry at each dispatch, so it rewards the remaining pools only. -/

set_option autoImplicit false

namespace Nolus.ProtocolClosing
open Nolus.Fallible Nolus.KeyedStore Nolus.Shapes Nolus.AccessControl Nolus.Admin
open Nolus.Versioning (ProtocolPackageReleaseId)
open Nolus.TreasuryRewards (Pool Env)

variable {N : Type} [LinearOrder N]

def specOf (spec : LeaserMigration.MigrationSpec) : MigrationSpec String :=
  ⟨spec.codeId, spec.migrateMessage, spec.postMigrateExecute.map fun message => ⟨message⟩⟩

def specsOf (spec : LeaserMigration.ProtocolContracts) :
    ProtocolContracts (MigrationSpec String) :=
  ⟨specOf spec.leaser, specOf spec.lpp, specOf spec.oracle, specOf spec.profit,
    specOf spec.reserve⟩

def protocolOf (protocol : Protocol) : TreasuryRewards.Protocol :=
  ⟨protocol.contracts.lpp, protocol.contracts.oracle⟩

def registered (registry : Addr) (storage : Storage N) (others : TreasuryRewards.Querier N) :
    TreasuryRewards.Querier N :=
  { others with
    protocols := fun contract =>
      if contract = registry then .ok storage.protocols else others.protocols contract
    protocol := fun contract name =>
      if contract = registry then
        match storage.protocolContracts.lookup name with
        | some protocol => .ok (protocolOf protocol)
        | none => .error (.notFound "Protocol")
      else others.protocol contract name }

theorem registered_protocol (registry : Addr) (storage : Storage N)
    (others : TreasuryRewards.Querier N) (name : N) (listed : TreasuryRewards.Protocol) :
    (registered registry storage others).protocol registry name = .ok listed ↔
      ∃ protocol, storage.protocolContracts.lookup name = some protocol ∧
        protocolOf protocol = listed := by
  simp only [registered, if_true]
  cases storage.protocolContracts.lookup name <;> simp

theorem forall₂_map_eq {A B C : Type} (R : A → B → Prop) (f : A → C) (g : B → C) (l : List A)
    (m : List B) (h : List.Forall₂ R l m) (hR : ∀ a ∈ l, ∀ b, R a b → g b = f a) :
    m.map g = l.map f := by
  induction h with
  | nil => rfl
  | cons hab _ ih =>
    rw [List.map_cons, List.map_cons, hR _ List.mem_cons_self _ hab,
      ih fun a ha => hR a (List.mem_cons_of_mem _ ha)]

theorem listed_registered (registry : Addr) (storage : Storage N)
    (others : TreasuryRewards.Querier N) (pools : List Pool)
    (h : Treasury.Listed (registered registry storage others) registry pools) :
    pools.map Pool.lpp =
      (records storage.protocolContracts).map fun record => record.2.contracts.lpp := by
  obtain ⟨names, listed, hnames, hlisted, hpools⟩ := h
  obtain rfl : storage.protocols = names := by
    simp only [registered, if_true] at hnames
    exact Except.ok.inj hnames
  rw [forall₂_map_eq _ TreasuryRewards.Protocol.lpp Pool.lpp _ _ hpools fun _ _ _ hpool => hpool.1]
  rw [Storage.protocols, List.forall₂_map_left_iff] at hlisted
  apply forall₂_map_eq _ _ _ _ _ hlisted
  intro record hrecord protocol hprotocol
  obtain ⟨found, hlookup, rfl⟩ := (registered_protocol _ _ _ _ _).1 hprotocol
  rw [(mem_records _ _ _).1 hrecord] at hlookup
  rw [← Option.some.inj hlookup]
  rfl

def retired (protocol : Protocol) (spec : ProtocolContracts (MigrationSpec String)) :
    List (WasmMsg String) :=
  Contracts.messages
    (targetsOf (.protocol .void) protocol.contracts (.all (some spec)))

omit [LinearOrder N] in
theorem migrateStandalone_messages (contracts : ProtocolContracts Addr)
    (toRelease : ProtocolPackageReleaseId) (spec : ProtocolContracts (MigrationSpec String)) :
    (migrateStandalone contracts toRelease spec :
      Outcome (ContractError N) (List (WasmMsg String))) =
        .ok (Contracts.messages (targetsOf (.protocol toRelease) contracts (.all (some spec)))) := by
  have htotal := targetsOf_total (N := N) (.protocol toRelease) contracts (.all (some spec))
    (Batches.new (J := String))
  rw [tryPairedWithGranular] at htotal
  rw [migrateStandalone, htotal, Batches.push_all]
  simp [Batches.merge, Batches.new, Contracts.messages, bind, Except.bind, pure, Except.pure]

theorem deregister_ok (storage next : Storage N) (chain : Querier) (admin sender : Addr)
    (spec : ProtocolContracts (MigrationSpec String)) (messages : List (Message N String))
    (h : Admin.execute storage chain admin sender [] (.deregisterProtocol spec) =
      .ok (messages, next)) :
    ∃ name protocol, storage.protocolContracts.lookup name = some protocol ∧
      protocol.contracts.leaser = sender ∧
      (∀ other listed, storage.protocolContracts.lookup other = some listed →
        listed.contracts.leaser = sender → name ≤ other) ∧
      messages = (retired protocol spec).map .wasm ∧ next = storage.removeProtocol name := by
  simp only [Admin.execute, Admin.deregisterProtocol, bind_ok, okOr_ok, pure_ok,
    Prod.mk.injEq] at h
  obtain ⟨record, hfind, batch, hbatch, rfl, rfl⟩ := h
  rw [migrateStandalone_messages, Except.ok.injEq] at hbatch
  obtain ⟨hlookup, hleaser⟩ := AdminRegistry.findLeaser_some _ _ _ hfind
  refine ⟨record.1, record.2, hlookup, hleaser, ?_, by rw [← hbatch, retired], rfl⟩
  intro other listed hother hsame
  exact found_first _ _ record hfind other listed hother (decide_eq_true hsame)

open TreasuryRewards in
omit [LinearOrder N] in
theorem rewarded_listed (querier : TreasuryRewards.Querier N) (env : Env) (timeAlarm : Addr)
    (old next : Treasury.Storage) (config : Treasury.Config) (pools : List Pool) (apr : ℕ)
    (response : Response)
    (h : Treasury.Dispatched querier env timeAlarm old next config pools apr response)
    (lpp : Addr) (reward : ℕ) (hin : .distributeRewards lpp reward ∈ response.messages) :
    lpp ∈ pools.map Pool.lpp := by
  rw [h.responds] at hin
  rcases List.mem_append.1 hin with hreward | halarm
  · obtain ⟨grant, hgrant, heq⟩ := List.mem_map.1 hreward
    cases heq
    obtain ⟨pool, hpool, hlpp⟩ := List.mem_map.1 (List.mem_of_mem_filter hgrant)
    exact List.mem_map.2 ⟨pool, hpool, by rw [← hlpp]⟩
  · cases List.mem_singleton.1 halarm

theorem close_asks (leases closed : LeaserLeases.Storage) (order : LeaserLeases.HashOrder)
    (newLeaseCode maxLeases toRelease : ℕ) (spec : LeaserMigration.ProtocolContracts)
    (force : LeaserClosing.ForceClose) (closing : LeaserMigration.Response)
    (h : LeaserClosing.tryCloseProtocol leases order newLeaseCode maxLeases toRelease
      LeaserClosing.protocolsRegistryLoad spec force = .ok (closing, closed)) :
    .deregisterProtocol closed.config.protocolsRegistry spec ∈ closing.messages := by
  simp only [LeaserClosing.tryCloseProtocol, LeaserClosing.protocolsRegistryLoad, bind_ok,
    pure_ok, Prod.mk.injEq] at h
  obtain ⟨closings, -, registry, rfl, rfl, rfl⟩ := h
  simp

/-- When the leaser closes its protocol, its contracts are retired, the other protocols stay as
they are, and until the name is registered again no dispatch of the treasury rewards a pool but that
of another registered protocol. -/
theorem closed_unrewarded (leaser admin : Addr) (leases closed : LeaserLeases.Storage)
    (order : LeaserLeases.HashOrder) (newLeaseCode maxLeases toRelease : ℕ)
    (spec : LeaserMigration.ProtocolContracts) (force : LeaserClosing.ForceClose)
    (closing : LeaserMigration.Response) (storage next : Storage N) (chain : Querier)
    (messages : List (Message N String))
    (hclose : LeaserClosing.tryCloseProtocol leases order newLeaseCode maxLeases toRelease
      LeaserClosing.protocolsRegistryLoad spec force = .ok (closing, closed))
    (hderegister : Admin.execute storage chain admin leaser [] (.deregisterProtocol (specsOf spec)) =
      .ok (messages, next)) :
    .deregisterProtocol closed.config.protocolsRegistry spec ∈ closing.messages ∧
    ∃ name protocol, storage.protocolContracts.lookup name = some protocol ∧
      protocol.contracts.leaser = leaser ∧
      (∀ other listed, storage.protocolContracts.lookup other = some listed →
        listed.contracts.leaser = leaser → name ≤ other) ∧
      messages = (retired protocol (specsOf spec)).map .wasm ∧
      next.protocolContracts.lookup name = none ∧
      (∀ other ≠ name,
        next.protocolContracts.lookup other = storage.protocolContracts.lookup other) ∧
      ∀ later : Storage N, later.protocolContracts.lookup name = none →
        ∀ treasury treasury' others env timeAlarm response,
          Treasury.tryDispatch treasury (registered admin later others) env timeAlarm =
            .ok (response, treasury') →
          (∀ config, treasury.config = some config → config.protocolsRegistry = admin) →
          ∀ lpp reward, .distributeRewards lpp reward ∈ response.messages →
            ∃ other protocol, other ≠ name ∧
              later.protocolContracts.lookup other = some protocol ∧
              protocol.contracts.lpp = lpp := by
  refine ⟨close_asks _ _ _ _ _ _ _ _ _ hclose, ?_⟩
  obtain ⟨name, protocol, hlookup, hleaser, hfirst, hmessages, rfl⟩ :=
    deregister_ok _ _ _ _ _ _ _ hderegister
  have hothers : ∀ other ≠ name, (storage.removeProtocol name).protocolContracts.lookup other =
      storage.protocolContracts.lookup other := fun other hne => AList.lookup_erase_ne hne
  refine ⟨name, protocol, hlookup, hleaser, hfirst, hmessages, AList.lookup_erase _ _, hothers, ?_⟩
  intro later hgone treasury treasury' others env timeAlarm response hdispatch hregistry lpp reward
    hin
  obtain ⟨config, pools, apr, hd⟩ := Treasury.tryDispatch_ok _ _ _ _ _ _ hdispatch
  have hlisted := hd.listed
  rw [hregistry config hd.configured] at hlisted
  have hmem := rewarded_listed _ _ _ _ _ _ _ _ _ hd lpp reward hin
  rw [listed_registered _ _ _ _ hlisted] at hmem
  obtain ⟨record, hrecord, hlpp⟩ := List.mem_map.1 hmem
  have hfound := (mem_records _ _ _).1 hrecord
  have hne : record.1 ≠ name := by
    intro heq
    rw [heq, hgone] at hfound
    cases hfound
  exact ⟨record.1, record.2, hne, hfound, hlpp⟩

def sampleChain : Querier := ⟨fun _ => true, fun contract => some (contract + 40)⟩

def sampleSpecs : LeaserMigration.ProtocolContracts :=
  ⟨⟨8, "{}", none⟩, ⟨8, "{}", none⟩, ⟨8, "{}", none⟩, ⟨8, "{}", none⟩, ⟨8, "{}", none⟩⟩

def sampleLeases : LeaserLeases.Storage := LeaserLeases.Storage.new 70 ⟨71, 62, 65, 60⟩

def closingProtocol : Protocol := ⟨.osmosis, .osmosis, ⟨61, 62, 63, 64, 65⟩⟩

def sampleRegistry : Storage ℕ :=
  ⟨none, none, ((AList.singleton 9 ⟨.osmosis, .osmosis, ⟨61, 82, 83, 84, 85⟩⟩).insert 6
    closingProtocol).insert 3 ⟨.osmosis, .osmosis, ⟨91, 92, 93, 94, 95⟩⟩, none⟩

theorem closed_unrewarded_sample :
    .deregisterProtocol sampleLeases.config.protocolsRegistry sampleSpecs ∈
      [LeaserMigration.Msg.deregisterProtocol 60 sampleSpecs] ∧
    ∃ name protocol, sampleRegistry.protocolContracts.lookup name = some protocol ∧
      protocol.contracts.leaser = 61 ∧
      (∀ other listed, sampleRegistry.protocolContracts.lookup other = some listed →
        listed.contracts.leaser = 61 → name ≤ other) ∧
      (retired closingProtocol (specsOf sampleSpecs)).map .wasm =
        (retired protocol (specsOf sampleSpecs)).map (Message.wasm (N := ℕ)) ∧
      (sampleRegistry.removeProtocol 6).protocolContracts.lookup name = none ∧
      (∀ other ≠ name, (sampleRegistry.removeProtocol 6).protocolContracts.lookup other =
        sampleRegistry.protocolContracts.lookup other) ∧
      ∀ later : Storage ℕ, later.protocolContracts.lookup name = none →
        ∀ treasury treasury' others env timeAlarm response,
          Treasury.tryDispatch treasury (registered 60 later others) env timeAlarm =
            .ok (response, treasury') →
          (∀ config, treasury.config = some config → config.protocolsRegistry = 60) →
          ∀ lpp reward, .distributeRewards lpp reward ∈ response.messages →
            ∃ other protocol, other ≠ name ∧
              later.protocolContracts.lookup other = some protocol ∧
              protocol.contracts.lpp = lpp :=
  closed_unrewarded 61 60 sampleLeases sampleLeases LeaserLeases.sortedOrder 8 5 0 sampleSpecs .no
    ⟨[.deregisterProtocol 60 sampleSpecs], none⟩ sampleRegistry (sampleRegistry.removeProtocol 6)
    sampleChain _ rfl rfl

end Nolus.ProtocolClosing
