import NolusMoneyMarket.Leaser.Leases

/-! # Migration of the leases

A page migrates the leases of as many customers as it has room for, always all
of the leases of a customer, and returns the first customer it has no room for.
The next page starts from that customer. -/

set_option autoImplicit false

namespace Nolus.LeaserMigration
open Nolus.Fallible Nolus.KeyedStore Nolus.LeaserLeases

def maxLeasesBits : ℕ := 32

structure MigrationSpec where
  codeId : ℕ
  migrateMessage : String
  postMigrateExecute : Option String
deriving DecidableEq, Repr

structure ProtocolContracts where
  leaser : MigrationSpec
  lpp : MigrationSpec
  oracle : MigrationSpec
  profit : MigrationSpec
  reserve : MigrationSpec
deriving DecidableEq, Repr

inductive Msg
  | migrate (lease : Addr) (toRelease newCode : ℕ)
  | lppNewLeaseCode (lpp : Addr) (leaseCode : ℕ)
  | reserveNewLeaseCode (reserve : Addr) (leaseCode : ℕ)
  | deregisterProtocol (registry : Addr) (spec : ProtocolContracts)
deriving DecidableEq, Repr

abbrev Batch : Type := List Msg

structure MigrationResult where
  msgs : Batch
  nextCustomer : Option Addr
deriving DecidableEq, Repr

structure MigrateBatch where
  newCode : ℕ
  leasesLeft : ℕ
  msgs : Batch
deriving DecidableEq, Repr

def MigrateBatch.new (newCode maxLeases : ℕ) : MigrateBatch := ⟨newCode, maxLeases, []⟩

/-- Nothing is returned if there has been room for all the leases. -/
def MigrateBatch.migrateLeases (self : MigrateBatch) (leases : List Addr) (toRelease : ℕ) :
    Option (Outcome Error Unit) × MigrateBatch :=
  if leases.length < 2 ^ maxLeasesBits then
    match checkedSub self.leasesLeft leases.length with
    | some left => (none,
      { self with
        leasesLeft := left
        msgs := self.msgs ++ leases.map fun lease => .migrate lease toRelease self.newCode })
    | none => (some (pure ()), self)
  else (some (failing .conversion), self)

def MigrateBatch.migrateOrBeNext (self : MigrateBatch) (customer : Customer) (toRelease : ℕ) :
    Option (Outcome Error Addr) × MigrateBatch :=
  let (completed, batch) := self.migrateLeases customer.leases toRelease
  (completed.map fun outcome => outcome.map fun _ => customer.customer, batch)

def MigrateBatch.findNext (self : MigrateBatch) (toRelease : ℕ) :
    List (Outcome Error Customer) → Option (Outcome Error Addr) × MigrateBatch
  | [] => (none, self)
  | .error fault :: _ => (some (.error fault), self)
  | .ok customer :: customers =>
    match self.migrateOrBeNext customer toRelease with
    | (none, batch) => batch.findNext toRelease customers
    | (some next, batch) => (some next, batch)

def migrateLeases (customers : List (Outcome Error Customer))
    (leaseCode maxLeases toRelease : ℕ) : Outcome Error MigrationResult :=
  match (MigrateBatch.new leaseCode maxLeases).findNext toRelease customers with
  | (none, batch) => pure ⟨batch.msgs, none⟩
  | (some next, batch) => do
    let customer ← next
    pure ⟨batch.msgs, some customer⟩

inductive Status
  | contunuationKey (key : Addr)
  | done
deriving DecidableEq, Repr

structure Response where
  messages : Batch
  status : Option Status
deriving DecidableEq, Repr

def emitStatus (nextCustomer : Option Addr) : Status :=
  match nextCustomer with
  | some next => .contunuationKey next
  | none => .done

def updateRemoteRefs (self : Storage) (newLease : ℕ) : Batch :=
  [.lppNewLeaseCode self.config.lpp newLease, .reserveNewLeaseCode self.config.reserve newLease]

def tryMigrateLeases (self : Storage) (order : HashOrder) (newLease maxLeases toRelease : ℕ) :
    Outcome Error (Response × Storage) := do
  let updated := { self with config.leaseCode := newLease }
  let result ← migrateLeases (updated.iter order none) newLease maxLeases toRelease
  pure (⟨result.msgs ++ updateRemoteRefs updated newLease, emitStatus result.nextCustomer⟩,
    updated)

def tryMigrateLeasesCont (self : Storage) (order : HashOrder) (nextCustomer : Addr)
    (maxLeases toRelease : ℕ) : Outcome Error (Response × Storage) := do
  let result ← migrateLeases (self.iter order (some nextCustomer)) self.config.leaseCode
    maxLeases toRelease
  pure (⟨result.msgs, emitStatus result.nextCustomer⟩, self)

/-! ## The messages of the contract -/

structure Querier where
  knownCode : ℕ → Bool
  codeOf : Addr → Option ℕ

inductive ExecuteMsg
  | finalizeLease (customer : Addr)
  | migrateLeases (newCodeId toRelease maxLeases : ℕ)
  | migrateLeasesCont (key : Addr) (toRelease maxLeases : ℕ)
deriving DecidableEq, Repr

def checkOwner (self : Storage) (sender : Addr) : Outcome Error Unit :=
  ensure (self.owner = sender) (.error .unauthorized)

def newCode (querier : Querier) (newCodeId : ℕ) : Outcome Error ℕ := do
  ensure (querier.knownCode newCodeId) (.error (.platform (.noSuchCode newCodeId)))
  pure newCodeId

def validateCustomer (querier : Querier) (customer : Addr) : Outcome Error Addr := do
  ensure (querier.codeOf customer = none) (.error (.invalidContinuationKey "smart contract key"))
  pure customer

def validateLease (querier : Querier) (self : Storage) (lease : Addr) : Outcome Error Addr :=
  match querier.codeOf lease with
  | none => failing (.platform (.noSuchContract lease))
  | some code => do
    ensure (code = self.config.leaseCode)
      (.error (.platform (.unexpectedCode self.config.leaseCode lease)))
    pure lease

def execute (querier : Querier) (order : HashOrder) (sender : Addr) (self : Storage) :
    ExecuteMsg → Outcome Error (Response × Storage)
  | .finalizeLease customer => do
    let customer ← validateCustomer querier customer
    let lease ← validateLease querier self sender
    pure (⟨[], none⟩, (self.remove customer lease).2)
  | .migrateLeases newCodeId toRelease maxLeases => do
    checkOwner self sender
    let newLease ← newCode querier newCodeId
    tryMigrateLeases self order newLease maxLeases toRelease
  | .migrateLeasesCont key toRelease maxLeases => do
    checkOwner self sender
    let nextCustomer ← validateCustomer querier key
    tryMigrateLeasesCont self order nextCustomer maxLeases toRelease

end Nolus.LeaserMigration
