import NolusMoneyMarket.Base.Pairing
import NolusMoneyMarket.Base.Shapes
import NolusMoneyMarket.Platform.AccessControl
import NolusMoneyMarket.Versioning.Release

/-! # The contracts of the platform

A specification for all contracts has one for each of them, for some of them or
for none, protocol by protocol. The migrations come before all messages that are
to be executed after a migration. -/

set_option autoImplicit false

namespace Nolus.Admin
open Nolus.Fallible Nolus.KeyedStore Nolus.Shapes Nolus.AccessControl Nolus.Versioning

structure PlatformContractsWithoutAdmin (α : Type) where
  timealarms : α
  treasury : α
deriving DecidableEq, Repr

structure PlatformContracts (α : Type) where
  admin : α
  timealarms : α
  treasury : α
deriving DecidableEq, Repr

structure ProtocolContracts (α : Type) where
  leaser : α
  lpp : α
  oracle : α
  profit : α
  reserve : α
deriving DecidableEq, Repr

instance : Shape PlatformContractsWithoutAdmin where
  units this := [this.timealarms, this.treasury]
  zip left right :=
    { timealarms := (left.timealarms, right.timealarms)
      treasury := (left.treasury, right.treasury) }
  units_zip _ _ := rfl

instance : Shape PlatformContracts where
  units this := [this.admin, this.timealarms, this.treasury]
  zip left right :=
    { admin := (left.admin, right.admin)
      timealarms := (left.timealarms, right.timealarms)
      treasury := (left.treasury, right.treasury) }
  units_zip _ _ := rfl

instance : Shape ProtocolContracts where
  units this := [this.leaser, this.lpp, this.oracle, this.profit, this.reserve]
  zip left right :=
    { leaser := (left.leaser, right.leaser)
      lpp := (left.lpp, right.lpp)
      oracle := (left.oracle, right.oracle)
      profit := (left.profit, right.profit)
      reserve := (left.reserve, right.reserve) }
  units_zip _ _ := rfl

def PlatformContractsWithoutAdmin.withAdmin {α : Type} (self : PlatformContractsWithoutAdmin α)
    (admin : α) : PlatformContracts α :=
  ⟨admin, self.timealarms, self.treasury⟩

inductive Network
  | neutron
  | osmosis
deriving DecidableEq, Repr

inductive Dex
  | astroport (routerAddress : String)
  | osmosis
deriving DecidableEq, Repr

structure Protocol where
  network : Network
  dex : Dex
  contracts : ProtocolContracts Addr
deriving DecidableEq, Repr

inductive Granularity (F : Type → Type) (α : Type) : Type
  | some (specs : F (Option α))
  | all (specs : Option (F α))

abbrev CodeId : Type := ℕ

variable {J N : Type}

structure ExecuteSpec (J : Type) where
  message : J

structure MigrationSpec (J : Type) where
  codeId : CodeId
  migrateMessage : J
  postMigrateExecute : Option (ExecuteSpec J)

inductive TargetRelease
  | platform (toRelease : ReleaseId)
  | protocol (toRelease : ProtocolPackageReleaseId)
deriving DecidableEq, Repr

inductive WasmMsg (J : Type)
  | migrate (contractAddr : Addr) (newCodeId : CodeId) (toRelease : TargetRelease) (message : J)
  | execute (contractAddr : Addr) (message : J)

inductive ContractError (N : Type)
  | std (cause : StdError)
  | accessControl (cause : AccessError)
  | platform (contract : Addr)
  | differentInstantiatedAddress (reported expected : Addr)
  | differentInstantiatedCodeId (reported expected : CodeId)
  | missingProtocol (name : N)
  | senderNotARegisteredLeaser
  | protocolSetAlreadyExists (name : N)
  | unknownProtocol (name : N)
deriving DecidableEq, Repr

structure Batches (J : Type) where
  migrationBatch : List (WasmMsg J)
  postMigrationExecuteBatch : List (WasmMsg J)

namespace Batches

def new : Batches J := ⟨[], []⟩

def merge (self : Batches J) : List (WasmMsg J) :=
  self.migrationBatch ++ self.postMigrationExecuteBatch

end Batches

def executeContract (batch : List (WasmMsg J)) (address : Addr) (spec : ExecuteSpec J) :
    Outcome (ContractError N) (List (WasmMsg J)) :=
  pure (batch ++ [.execute address spec.message])

def migrateContract (toRelease : TargetRelease) (batches : Batches J) (address : Addr)
    (migration : MigrationSpec J) : Outcome (ContractError N) (Batches J) := do
  let post ← match migration.postMigrateExecute with
    | none => pure batches.postMigrationExecuteBatch
    | some spec => executeContract batches.postMigrationExecuteBatch address spec
  pure ⟨batches.migrationBatch ++
    [.migrate address migration.codeId toRelease migration.migrateMessage], post⟩

structure Contracts (N : Type) where
  platform : PlatformContractsWithoutAdmin Addr
  protocol : Store N Protocol

structure ContractsMigration (N J : Type) where
  platform : Granularity PlatformContracts (MigrationSpec J)
  protocol : Store N (ReleaseId × Granularity ProtocolContracts (MigrationSpec J))

structure ContractsExecute (N J : Type) where
  platform : Granularity PlatformContractsWithoutAdmin (ExecuteSpec J)
  protocol : Store N (Granularity ProtocolContracts (ExecuteSpec J))

def tryPairedWithGranular {F : Type → Type} [Shape F] {α β σ ε : Type} (instance_ : F α)
    (pairedWith : Granularity F β) (f : σ → α → β → Outcome ε σ) (state : σ) : Outcome ε σ :=
  match pairedWith with
  | .some specs => tryForEachPair instance_ specs (fun state unit pairedWith =>
      match pairedWith with
      | none => pure state
      | some pairedWith => f state unit pairedWith) state
  | .all (some pairedWith) => tryForEachPair instance_ pairedWith f state
  | .all none => pure state

def Granularity.named {F : Type → Type} [Shape F] {α β : Type} (contracts : F α) :
    Granularity F β → List (α × β)
  | .some specs => ((Shape.units contracts).zip (Shape.units specs)).filterMap fun pair =>
      pair.2.map fun spec => (pair.1, spec)
  | .all (Option.some specs) => (Shape.units contracts).zip (Shape.units specs)
  | .all none => []

theorem granular_total {F : Type → Type} [Shape F] {α β σ ε : Type} (contracts : F α)
    (pairedWith : Granularity F β) (f : σ → α → β → Outcome ε σ) (step : σ → α × β → σ)
    (h : ∀ state a b, f state a b = .ok (step state (a, b))) (state : σ) :
    tryPairedWithGranular contracts pairedWith f state =
      .ok ((pairedWith.named contracts).foldl step state) := by
  cases pairedWith with
  | some specs =>
    rw [Granularity.named, List.foldl_filterMap, tryPairedWithGranular]
    apply tryForEachPair_total
    intro state a b
    cases b with
    | none => rfl
    | some spec => exact h state a spec
  | all specs =>
    cases specs with
    | none => rfl
    | some specs => exact tryForEachPair_total contracts specs f step h state

def migrateStandalone (self : ProtocolContracts Addr) (toRelease : ProtocolPackageReleaseId)
    (migrationMsgs : ProtocolContracts (MigrationSpec J)) :
    Outcome (ContractError N) (List (WasmMsg J)) := do
  let batches ← tryForEachPair self migrationMsgs (migrateContract (.protocol toRelease)) Batches.new
  pure batches.merge

namespace Contracts

variable [LinearOrder N]

def tryForEachProtocolPair {T σ : Type} (protocols : Store N Protocol) (pairedWith : Store N T)
    (f : σ → ProtocolContracts Addr → T → Outcome (ContractError N) σ) (state : σ) :
    Outcome (ContractError N) σ :=
  forEachPair .missingProtocol .unknownProtocol (fun state protocol => f state protocol.contracts)
    protocols pairedWith state

def migratePlatform (batches : Batches J) (toSoftwareRelease : ReleaseId)
    (contracts : PlatformContracts Addr)
    (migrationSpecs : Granularity PlatformContracts (MigrationSpec J)) :
    Outcome (ContractError N) (Batches J) :=
  tryPairedWithGranular contracts migrationSpecs (migrateContract (.platform toSoftwareRelease))
    batches

def migrateProtocols (batches : Batches J) (softwareRelease : ReleaseId)
    (protocols : Store N Protocol)
    (migrationSpecs : Store N (ReleaseId × Granularity ProtocolContracts (MigrationSpec J))) :
    Outcome (ContractError N) (Batches J) :=
  tryForEachProtocolPair protocols migrationSpecs (fun batches contracts spec =>
    tryPairedWithGranular contracts spec.2
      (migrateContract (.protocol ⟨softwareRelease, spec.1⟩)) batches) batches

def migrate (self : Contracts N) (adminContract : Addr) (toSoftwareRelease : ReleaseId)
    (spec : ContractsMigration N J) : Outcome (ContractError N) (Batches J) := do
  let platform ← migratePlatform Batches.new toSoftwareRelease
    (self.platform.withAdmin adminContract) spec.platform
  migrateProtocols platform toSoftwareRelease self.protocol spec.protocol

def executePlatform (batch : List (WasmMsg J)) (contracts : PlatformContractsWithoutAdmin Addr)
    (executeSpecs : Granularity PlatformContractsWithoutAdmin (ExecuteSpec J)) :
    Outcome (ContractError N) (List (WasmMsg J)) :=
  tryPairedWithGranular contracts executeSpecs executeContract batch

def executeProtocols (batch : List (WasmMsg J)) (contracts : Store N Protocol)
    (executeSpecs : Store N (Granularity ProtocolContracts (ExecuteSpec J))) :
    Outcome (ContractError N) (List (WasmMsg J)) :=
  tryForEachProtocolPair contracts executeSpecs (fun batch contracts executeSpecs =>
    tryPairedWithGranular contracts executeSpecs executeContract batch) batch

def execute (self : Contracts N) (spec : ContractsExecute N J) :
    Outcome (ContractError N) (List (WasmMsg J)) := do
  let batch ← executePlatform [] self.platform spec.platform
  executeProtocols batch self.protocol spec.protocol

end Contracts

/-! ## The messages of a specification -/

abbrev Target (J : Type) : Type := TargetRelease × Addr × MigrationSpec J

namespace Target

def migration (target : Target J) : WasmMsg J :=
  .migrate target.2.1 target.2.2.codeId target.1 target.2.2.migrateMessage

def afterwards (target : Target J) : Option (WasmMsg J) :=
  target.2.2.postMigrateExecute.map fun spec => .execute target.2.1 spec.message

end Target

namespace Batches

def push (self : Batches J) (target : Target J) : Batches J :=
  ⟨self.migrationBatch ++ [target.migration],
    self.postMigrationExecuteBatch ++ target.afterwards.toList⟩

theorem push_all (targets : List (Target J)) (self : Batches J) :
    targets.foldl push self = ⟨self.migrationBatch ++ targets.map Target.migration,
      self.postMigrationExecuteBatch ++ targets.filterMap Target.afterwards⟩ := by
  induction targets generalizing self with
  | nil => simp
  | cons target targets ih =>
    rw [List.foldl_cons, ih]
    cases hpost : target.afterwards <;> simp [push, hpost]

end Batches

theorem migrateContract_push (toRelease : TargetRelease) (batches : Batches J) (address : Addr)
    (migration : MigrationSpec J) :
    (migrateContract toRelease batches address migration : Outcome (ContractError N) (Batches J)) =
      .ok (batches.push (toRelease, address, migration)) := by
  obtain ⟨codeId, message, post⟩ := migration
  cases post <;> simp [migrateContract, executeContract, Batches.push, Target.migration,
    Target.afterwards, bind, Except.bind, pure, Except.pure]

def targetsOf {F : Type → Type} [Shape F] (toRelease : TargetRelease) (contracts : F Addr)
    (specs : Granularity F (MigrationSpec J)) : List (Target J) :=
  (specs.named contracts).map fun pair => (toRelease, pair)

theorem targetsOf_total {F : Type → Type} [Shape F] (toRelease : TargetRelease)
    (contracts : F Addr) (specs : Granularity F (MigrationSpec J)) (batches : Batches J) :
    (tryPairedWithGranular contracts specs (migrateContract toRelease) batches :
      Outcome (ContractError N) (Batches J)) =
        .ok ((targetsOf toRelease contracts specs).foldl Batches.push batches) := by
  rw [targetsOf, List.foldl_map]
  exact granular_total contracts specs _ (fun state pair => state.push (toRelease, pair))
    (fun state a b => migrateContract_push toRelease state a b) batches

namespace Contracts

variable [LinearOrder N]

/-- The platform comes first, then the protocols in the order of their names. -/
def targets (self : Contracts N) (adminContract : Addr) (toSoftwareRelease : ReleaseId)
    (spec : ContractsMigration N J) : List (Target J) :=
  targetsOf (.platform toSoftwareRelease) (self.platform.withAdmin adminContract) spec.platform ++
    (pairs (records self.protocol) spec.protocol).flatMap fun pair =>
      targetsOf (.protocol ⟨toSoftwareRelease, pair.2.1⟩) pair.1.contracts pair.2.2

def messages (targets : List (Target J)) : List (WasmMsg J) :=
  targets.map Target.migration ++ targets.filterMap Target.afterwards

theorem migrate_paired (self : Contracts N) (adminContract : Addr) (toSoftwareRelease : ReleaseId)
    (spec : ContractsMigration N J) :
    Paired .missingProtocol .unknownProtocol (fun batches pair =>
        (targetsOf (.protocol ⟨toSoftwareRelease, pair.2.1⟩) pair.1.contracts pair.2.2).foldl
          Batches.push batches)
      self.protocol spec.protocol
      ((targetsOf (.platform toSoftwareRelease) (self.platform.withAdmin adminContract)
        spec.platform).foldl Batches.push Batches.new)
      (self.migrate adminContract toSoftwareRelease spec) := by
  rw [migrate, migratePlatform, targetsOf_total]
  exact forEachPair_paired _ _ _ _ (fun state protocol spec => targetsOf_total _ _ _ _) _ _ _

/-- The messages go out when the specification names the registered protocols. It fails at the
first one it does not name, and when it names all of them, at the first one not registered. -/
theorem migrations_in_order (self : Contracts N) (adminContract : Addr)
    (toSoftwareRelease : ReleaseId) (spec : ContractsMigration N J) :
    (SameKeys self.protocol spec.protocol →
      ∃ batches, self.migrate adminContract toSoftwareRelease spec = .ok batches ∧
        batches.merge = messages (self.targets adminContract toSoftwareRelease spec)) ∧
    (∀ name, FirstMissing self.protocol spec.protocol name →
      self.migrate adminContract toSoftwareRelease spec = failing (.missingProtocol name)) ∧
    (∀ name, (∀ key ∈ self.protocol, key ∈ spec.protocol) →
      FirstMissing spec.protocol self.protocol name →
      self.migrate adminContract toSoftwareRelease spec = failing (.unknownProtocol name)) ∧
    (SameKeys self.protocol spec.protocol ∨
      (∃ name, FirstMissing self.protocol spec.protocol name) ∨
      (∀ key ∈ self.protocol, key ∈ spec.protocol) ∧
        ∃ name, FirstMissing spec.protocol self.protocol name) := by
  obtain ⟨hsame, hmissing, hunknown, hall⟩ := paired_exact _ _ _ _ _ _ _
    (self.migrate_paired adminContract toSoftwareRelease spec)
  refine ⟨fun h => ⟨_, hsame h, ?_⟩, hmissing, hunknown, hall⟩
  rw [← List.foldl_flatMap, ← List.foldl_append, ← targets, Batches.push_all]
  simp [Batches.merge, Batches.new, messages]

end Contracts

end Nolus.Admin
