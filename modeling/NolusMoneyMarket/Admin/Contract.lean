import NolusMoneyMarket.Admin.Contracts

/-! # The admin contract

The registry of the platform and of the protocols, and the instantiation of
contracts at addresses known in advance. A protocol enters the registry under a
free name and leaves it on behalf of its leaser. What is expected of a requested
instantiation is kept until the reply to it. -/

set_option autoImplicit false

namespace Nolus.Admin
open Nolus.Fallible Nolus.KeyedStore Nolus.Shapes Nolus.AccessControl Nolus.Versioning

variable {J N : Type}

structure ExpectedInstantiation where
  codeId : CodeId
  address : Addr
deriving DecidableEq, Repr

structure Storage (N : Type) where
  contractOwner : SingleUserAccess
  platformContracts : Option (PlatformContractsWithoutAdmin Addr)
  protocolContracts : Store N Protocol
  expectedInstantiation : Option ExpectedInstantiation

structure Querier where
  isAddress : Addr → Bool
  contractInfo : Addr → Option CodeId

structure InstantiateMsg (N : Type) where
  dexAdmin : Addr
  contracts : Contracts N

inductive ExecuteMsg (N J : Type)
  | instantiate (codeId : CodeId) (expectedAddress : Addr) (protocol : N) (label message : String)
  | registerProtocol (name : N) (protocol : Protocol)
  | deregisterProtocol (migrationSpec : ProtocolContracts (MigrationSpec J))

inductive SudoMsg (N J : Type)
  | changeDexAdmin (newDexAdmin : Addr)
  | registerProtocol (name : N) (protocol : Protocol)
  | migrateContracts (toRelease : ReleaseId) (migrationSpec : ContractsMigration N J)
  | executeContracts (messages : ContractsExecute N J)

structure Instantiate2 (N : Type) where
  admin : Addr
  codeId : CodeId
  label : String
  msg : String
  funds : List (String × ℕ)
  salt : N
deriving DecidableEq

/-- An instantiation is replied to when it succeeds. -/
inductive Message (N J : Type)
  | wasm (msg : WasmMsg J)
  | instantiate2 (msg : Instantiate2 N)

namespace Storage

def empty : Storage N := ⟨none, none, ∅, none⟩

def checkOwner (self : Storage N) (user : Addr) : Outcome (ContractError N) Unit :=
  mapError .accessControl (self.contractOwner.check user)

def grantTo (self : Storage N) (user : Addr) : Storage N :=
  { self with contractOwner := SingleUserAccess.grantTo user }

def loadPlatform (self : Storage N) :
    Outcome (ContractError N) (PlatformContractsWithoutAdmin Addr) :=
  okOr self.platformContracts (.std (.notFound "PlatformContractsWithoutAdmin"))

def loadAll (self : Storage N) : Outcome (ContractError N) (Contracts N) := do
  let platform ← self.loadPlatform
  pure ⟨platform, self.protocolContracts⟩

def store (self : Storage N) (contracts : Contracts N) : Storage N :=
  { self with
    platformContracts := some contracts.platform
    protocolContracts := contracts.protocol }

def loadExpected (self : Storage N) : Outcome (ContractError N) ExpectedInstantiation :=
  okOr self.expectedInstantiation (.std (.notFound "ExpectedInstantiation"))

def storeExpected (self : Storage N) (expected : ExpectedInstantiation) : Storage N :=
  { self with expectedInstantiation := some expected }

def clearExpected (self : Storage N) : Storage N := { self with expectedInstantiation := none }

variable [LinearOrder N]

def protocols (self : Storage N) : List N := (records self.protocolContracts).map Prod.fst

def addProtocol (self : Storage N) (name : N) (protocol : Protocol) :
    Outcome (ContractError N) (Storage N) :=
  if name ∈ self.protocolContracts then failing (.protocolSetAlreadyExists name)
  else pure { self with protocolContracts := self.protocolContracts.insert name protocol }

def removeProtocol (self : Storage N) (name : N) : Storage N :=
  { self with protocolContracts := self.protocolContracts.erase name }

end Storage

def validateAddr (querier : Querier) (contract : Addr) : Outcome (ContractError N) Unit :=
  ensure (querier.contractInfo contract).isSome (.error (.platform contract))

def validate {F : Type → Type} [Shape F] (querier : Querier) (contracts : F Addr) :
    Outcome (ContractError N) Unit :=
  tryForEach contracts (fun _ contract => validateAddr querier contract) ()

variable [LinearOrder N]

def Contracts.validate (self : Contracts N) (querier : Querier) :
    Outcome (ContractError N) Unit := do
  Admin.validate querier self.platform
  (records self.protocol).forM fun record => Admin.validate querier record.2.contracts

def instantiate (querier : Querier) (msg : InstantiateMsg N) :
    Outcome (ContractError N) (Storage N) := do
  let granted := Storage.empty.grantTo msg.dexAdmin
  msg.contracts.validate querier
  pure (granted.store msg.contracts)

def registerProtocol (self : Storage N) (querier : Querier) (name : N) (protocol : Protocol) :
    Outcome (ContractError N) (Storage N) := do
  validate querier protocol.contracts
  self.addProtocol name protocol

/-- The first protocol by name that has the sender as its leaser. -/
def findLeaser (self : Storage N) (sender : Addr) : Option (N × Protocol) :=
  (records self.protocolContracts).find? fun record => record.2.contracts.leaser = sender

def deregisterProtocol (self : Storage N) (sender : Addr)
    (migrationSpec : ProtocolContracts (MigrationSpec J)) :
    Outcome (ContractError N) (List (Message N J) × Storage N) := do
  let (name, protocol) ← okOr (findLeaser self sender) .senderNotARegisteredLeaser
  let batch ← migrateStandalone protocol.contracts .void migrationSpec
  pure (batch.map .wasm, self.removeProtocol name)

def execute (self : Storage N) (querier : Querier) (address sender : Addr)
    (funds : List (String × ℕ)) :
    ExecuteMsg N J → Outcome (ContractError N) (List (Message N J) × Storage N)
  | .instantiate codeId expectedAddress protocol label message => do
    self.checkOwner sender
    pure ([.instantiate2 ⟨address, codeId, label, message, funds, protocol⟩],
      self.storeExpected ⟨codeId, expectedAddress⟩)
  | .registerProtocol name protocol => do
    self.checkOwner sender
    let next ← registerProtocol self querier name protocol
    pure ([], next)
  | .deregisterProtocol migrationSpec => deregisterProtocol self sender migrationSpec

def migrateContracts (self : Storage N) (adminContract : Addr) (toSoftwareRelease : ReleaseId)
    (migrationSpec : ContractsMigration N J) : Outcome (ContractError N) (List (WasmMsg J)) := do
  let contracts ← self.loadAll
  let batches ← contracts.migrate adminContract toSoftwareRelease migrationSpec
  pure batches.merge

def executeContracts (self : Storage N) (messages : ContractsExecute N J) :
    Outcome (ContractError N) (List (WasmMsg J)) := do
  let contracts ← self.loadAll
  contracts.execute messages

def sudo_ (self : Storage N) (querier : Querier) (address : Addr) :
    SudoMsg N J → Outcome (ContractError N) (List (Message N J) × Storage N)
  | .changeDexAdmin newDexAdmin => do
    ensure (querier.isAddress newDexAdmin) (.error (.std (.genericErr "Invalid address")))
    pure ([], self.grantTo newDexAdmin)
  | .registerProtocol name protocol => do
    let next ← registerProtocol self querier name protocol
    pure ([], next)
  | .migrateContracts toRelease migrationSpec => do
    let batch ← migrateContracts self address toRelease migrationSpec
    pure (batch.map .wasm, self)
  | .executeContracts messages => do
    let batch ← executeContracts self messages
    pure (batch.map .wasm, self)

def instantiateReply (querier : Querier) (instantiatedAddr : Addr)
    (expected : ExpectedInstantiation) : Outcome (ContractError N) Unit := do
  ensure (instantiatedAddr = expected.address)
    (.error (.differentInstantiatedAddress instantiatedAddr expected.address))
  let reportedCodeId ← okOr (querier.contractInfo instantiatedAddr)
    (.std (.notFound "ContractInfoResponse"))
  ensure (reportedCodeId = expected.codeId)
    (.error (.differentInstantiatedCodeId reportedCodeId expected.codeId))

def reply (self : Storage N) (querier : Querier) (instantiatedAddr : Addr) :
    Outcome (ContractError N) (Storage N) := do
  let expected ← self.loadExpected
  instantiateReply querier instantiatedAddr expected
  pure self.clearExpected

end Nolus.Admin
