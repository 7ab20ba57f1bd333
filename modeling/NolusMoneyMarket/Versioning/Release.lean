import NolusMoneyMarket.Base.Runs
import NolusMoneyMarket.Platform.AccessControl
import NolusMoneyMarket.Versioning.Version

/-! # Releases of packages

A package is updated to a newer release of itself, either with the storage it
has or with the next version of it. The protocol packages also stay with their
protocol. Updates one after another allow the update from the first release to
the last one, unless the storage has changed more than once. -/

set_option autoImplicit false

namespace Nolus.Versioning
open Nolus.Fallible Nolus.Runs
open Nolus.AccessControl (StdError)

structure ReleaseId where
  id : String
deriving DecidableEq, Repr

namespace ReleaseId

def void : ReleaseId := ⟨"void-release"⟩

end ReleaseId

structure Package where
  name : String
  version : SemVer
  storage : VersionSegment
deriving Repr

instance : ToString Package where
  toString package := "name: " ++ package.name ++ ", version: " ++ toString package.version ++
    ", storage: " ++ toString package.storage.val

namespace Package

def sameName (self other : Package) : Bool := self.name = other.name

def checkStorage (self : Package) (expected : VersionSegment) : Bool := self.storage = expected

def sameStorage (self other : Package) : Bool := self.checkStorage other.storage

/-- The version of the storage wraps around. -/
def nextStorage (self other : Package) : Bool :=
  other.checkStorage (.wrapping (self.storage.val + 1))

/-- Packages compare by their names, then by their versions, and never by their storages. -/
def partialCmp (self other : Package) : Ordering :=
  match compare self.name other.name with
  | .eq => compare self.version other.version
  | res => res

def le (self other : Package) : Bool := self.partialCmp other ≠ .gt

end Package

inductive Error
  | loadPrevVersion (cause : StdError)
  | softwareReleaseMismatch (current expected : ReleaseId)
  | protocolReleaseMismatch (current expected : ReleaseId)
  | packageNamesMismatch (current new : String)
  | olderPackageCode (current new : String)
  | packageStorageVersionMismatch (current new : String)
  | packageStorageVersionNotAdjacent (current new : String)
  | protocolMismatch (current new : String)
deriving DecidableEq, Repr

structure PackageRelease where
  id : ReleaseId
  code : Package
deriving Repr

inductive Update
  | software
  | softwareAndStorage
deriving DecidableEq, Repr

structure LegacyPackage where
  storage : VersionSegment
  software : SemVer
deriving DecidableEq, Repr

def LegacyPackage.migrateTo (self : LegacyPackage) (name : String) : Package :=
  ⟨name, self.software, self.storage⟩

namespace PackageRelease

/-- The item is removed once it has been read. -/
def pullPrev (name : String) (stored : Option LegacyPackage) :
    Outcome Error (PackageRelease × Option LegacyPackage) := do
  let code ← okOr stored (.loadPrevVersion (.notFound "LegacyPackage"))
  pure (⟨⟨"v0.7.6"⟩, code.migrateTo name⟩, none)

def checkReleaseMatch (self : PackageRelease) (target : ReleaseId) : Outcome Error Unit :=
  ensure (self.id = target) (.error (.softwareReleaseMismatch self.id target))

def checkNameMatch (self : PackageRelease) (other : Package) : Outcome Error Unit :=
  ensure (self.code.sameName other)
    (.error (.packageNamesMismatch (toString self.code) (toString other)))

def checkCodeSameOrNewer (self : PackageRelease) (other : Package) : Outcome Error Unit :=
  ensure (self.code.le other) (.error (.olderPackageCode (toString self.code) (toString other)))

def checkStorageMatch (self : PackageRelease) (other : Package) : Outcome Error Unit :=
  ensure (self.code.sameStorage other)
    (.error (.packageStorageVersionMismatch (toString self.code) (toString other)))

def checkStorageAdjacent (self : PackageRelease) (next : Package) : Outcome Error Unit :=
  ensure (self.code.nextStorage next)
    (.error (.packageStorageVersionNotAdjacent (toString self.code) (toString next)))

def checkSoftwareUpdateAllowed (self to_ : PackageRelease)
    (storageCheck : PackageRelease → Package → Outcome Error Unit) : Outcome Error Unit := do
  self.checkNameMatch to_.code
  self.checkCodeSameOrNewer to_.code
  storageCheck self to_.code

def updateSoftware (self to_ : PackageRelease) (toRelease : ReleaseId) : Outcome Error Unit := do
  to_.checkReleaseMatch toRelease
  self.checkSoftwareUpdateAllowed to_ checkStorageMatch

def updateSoftwareAndStorage (self to_ : PackageRelease) (toRelease : ReleaseId) :
    Outcome Error Unit := do
  to_.checkReleaseMatch toRelease
  self.checkSoftwareUpdateAllowed to_ checkStorageAdjacent

def update (self : PackageRelease) :
    Update → PackageRelease → ReleaseId → Outcome Error Unit
  | .software => self.updateSoftware
  | .softwareAndStorage => self.updateSoftwareAndStorage

end PackageRelease

structure Protocol where
  name : String
  network : String
deriving DecidableEq, Repr

instance : ToString Protocol where
  toString protocol := "name: " ++ protocol.name ++ ", network: " ++ protocol.network

structure ProtocolRelease where
  id : ReleaseId
  protocol : Protocol
deriving DecidableEq, Repr

namespace ProtocolRelease

def checkReleaseMatch (self : ProtocolRelease) (target : ReleaseId) : Outcome Error Unit :=
  ensure (self.id = target) (.error (.protocolReleaseMismatch self.id target))

/-- The protocols that do not match are reported as package names that do not. -/
def checkProtocolMatch (self to_ : ProtocolRelease) : Outcome Error Unit :=
  ensure (self.protocol = to_.protocol)
    (.error (.packageNamesMismatch (toString self.protocol) (toString to_.protocol)))

def checkUpdateAllowed (self to_ : ProtocolRelease) (toRelease : ReleaseId) :
    Outcome Error Unit := do
  to_.checkReleaseMatch toRelease
  self.checkProtocolMatch to_

end ProtocolRelease

structure ProtocolPackageReleaseId where
  software : ReleaseId
  protocol : ReleaseId
deriving DecidableEq, Repr

def ProtocolPackageReleaseId.void : ProtocolPackageReleaseId := ⟨.void, .void⟩

structure ProtocolPackageRelease where
  software : PackageRelease
  protocol : ProtocolRelease
deriving Repr

namespace ProtocolPackageRelease

/-- Nothing tells the previous protocol, thus it is taken to be the current one. -/
def pullPrev (current : ProtocolRelease) (packageName : String) (stored : Option LegacyPackage) :
    Outcome Error (ProtocolPackageRelease × Option LegacyPackage) := do
  let (software, left) ← PackageRelease.pullPrev packageName stored
  pure (⟨software, current⟩, left)

def updateSoftware (self to_ : ProtocolPackageRelease) (toRelease : ProtocolPackageReleaseId) :
    Outcome Error Unit := do
  self.protocol.checkUpdateAllowed to_.protocol toRelease.protocol
  self.software.updateSoftware to_.software toRelease.software

def updateSoftwareAndStorage (self to_ : ProtocolPackageRelease)
    (toRelease : ProtocolPackageReleaseId) : Outcome Error Unit := do
  self.protocol.checkUpdateAllowed to_.protocol toRelease.protocol
  self.software.updateSoftwareAndStorage to_.software toRelease.software

def update (self : ProtocolPackageRelease) :
    Update → ProtocolPackageRelease → ProtocolPackageReleaseId → Outcome Error Unit
  | .software => self.updateSoftware
  | .softwareAndStorage => self.updateSoftwareAndStorage

def id (self : ProtocolPackageRelease) : ProtocolPackageReleaseId :=
  ⟨self.software.id, self.protocol.id⟩

end ProtocolPackageRelease

end Nolus.Versioning
