import NolusMoneyMarket.Base.Runs
import NolusMoneyMarket.Versioning.Release

/-! # Updates one after another

A release succeeds another after a number of new storages when it is of the
same package and protocol, not older, and as many storages ahead. This is what
one update checks and what all of them together keep. A contract forgets the
version it has been deployed with once it is migrated, so the first migration
that is allowed is the only one. -/

set_option autoImplicit false

namespace Nolus.Versioning
open Nolus.Fallible Nolus.Runs

namespace Package

theorem le_of_name (self other : Package) (h : self.name = other.name) :
    self.le other = true ↔ self.version ≤ other.version := by
  have hname : compare self.name other.name = .eq := by
    rw [h]
    exact Std.ReflCmp.compare_self
  rw [le, partialCmp, hname]
  simp only [ne_eq, decide_eq_true_eq]
  rw [compare_gt_iff_gt, not_lt]

/-- The new package is the old one, not older, a number of storages ahead. -/
structure Succeeds (storages : ℕ) (old new : Package) : Prop where
  name : old.name = new.name
  version : old.version ≤ new.version
  storage : new.storage.val = (old.storage.val + storages) % 2 ^ 16

theorem succeeds_self (self : Package) : self.Succeeds 0 self where
  name := rfl
  version := le_refl _
  storage := by
    have hlt := self.storage.isLt
    omega

theorem succeeds_trans (first second : ℕ) (a b c : Package) (h : Succeeds first a b)
    (k : Succeeds second b c) : Succeeds (first + second) a c where
  name := h.name.trans k.name
  version := h.version.trans k.version
  storage := by
    rw [k.storage, h.storage]
    omega

theorem succeeds_mod (first second : ℕ) (a b : Package) (h : Succeeds first a b) :
    Succeeds second a b ↔ first % 2 ^ 16 = second % 2 ^ 16 := by
  have hstorage := h.storage
  constructor
  · intro k
    have hother := k.storage
    omega
  · intro hmod
    refine ⟨h.name, h.version, ?_⟩
    rw [hstorage]
    omega

end Package

def Update.storages : Update → ℕ
  | .software => 0
  | .softwareAndStorage => 1

namespace PackageRelease

theorem checkStorageMatch_ok (self : PackageRelease) (other : Package) :
    self.checkStorageMatch other = .ok () ↔
      other.storage.val = (self.code.storage.val + 0) % 2 ^ 16 := by
  have hlt := self.code.storage.isLt
  simp only [checkStorageMatch, ensure_ok, Package.sameStorage, Package.checkStorage,
    decide_eq_true_eq, Fin.ext_iff]
  omega

theorem checkStorageAdjacent_ok (self : PackageRelease) (next : Package) :
    self.checkStorageAdjacent next = .ok () ↔
      next.storage.val = (self.code.storage.val + 1) % 2 ^ 16 := by
  simp only [checkStorageAdjacent, ensure_ok, Package.nextStorage, Package.checkStorage,
    decide_eq_true_eq, Fin.ext_iff, VersionSegment.wrapping]

theorem updateAllowed_ok (self to_ : PackageRelease) (storages : ℕ)
    (storageCheck : PackageRelease → Package → Outcome Error Unit)
    (h : storageCheck self to_.code = .ok () ↔
      to_.code.storage.val = (self.code.storage.val + storages) % 2 ^ 16) :
    self.checkSoftwareUpdateAllowed to_ storageCheck = .ok () ↔
      self.code.Succeeds storages to_.code := by
  simp only [checkSoftwareUpdateAllowed, checkNameMatch, checkCodeSameOrNewer, bind_ok, ensure_ok,
    Package.sameName, decide_eq_true_eq, exists_const, h]
  constructor
  · rintro ⟨hname, hle, hstorage⟩
    exact ⟨hname, (Package.le_of_name _ _ hname).1 hle, hstorage⟩
  · intro hnext
    exact ⟨hnext.name, (Package.le_of_name _ _ hnext.name).2 hnext.version, hnext.storage⟩

theorem update_ok (self to_ : PackageRelease) (u : Update) (toRelease : ReleaseId) :
    self.update u to_ toRelease = .ok () ↔
      to_.id = toRelease ∧ self.code.Succeeds u.storages to_.code := by
  cases u with
  | software =>
    simp only [update, updateSoftware, checkReleaseMatch, bind_ok, ensure_ok, exists_const,
      updateAllowed_ok self to_ 0 _ (checkStorageMatch_ok _ _), Update.storages]
  | softwareAndStorage =>
    simp only [update, updateSoftwareAndStorage, checkReleaseMatch, bind_ok, ensure_ok,
      exists_const, updateAllowed_ok self to_ 1 _ (checkStorageAdjacent_ok _ _), Update.storages]

end PackageRelease

namespace ProtocolPackageRelease

theorem update_ok (self to_ : ProtocolPackageRelease) (u : Update)
    (toRelease : ProtocolPackageReleaseId) :
    self.update u to_ toRelease = .ok () ↔
      to_.id = toRelease ∧ self.protocol.protocol = to_.protocol.protocol ∧
        self.software.code.Succeeds u.storages to_.software.code := by
  have hprotocol : self.protocol.checkUpdateAllowed to_.protocol toRelease.protocol = .ok () ↔
      to_.protocol.id = toRelease.protocol ∧ self.protocol.protocol = to_.protocol.protocol := by
    simp only [ProtocolRelease.checkUpdateAllowed, ProtocolRelease.checkReleaseMatch,
      ProtocolRelease.checkProtocolMatch, bind_ok, ensure_ok, exists_const]
  have hsoftware := PackageRelease.update_ok self.software to_.software u toRelease.software
  have hid : to_.id = toRelease ↔
      to_.software.id = toRelease.software ∧ to_.protocol.id = toRelease.protocol := by
    obtain ⟨software, protocol⟩ := toRelease
    exact ProtocolPackageReleaseId.mk.injEq _ _ _ _ ▸ Iff.rfl
  have hboth : self.protocol.checkUpdateAllowed to_.protocol toRelease.protocol = .ok () ∧
      self.software.update u to_.software toRelease.software = .ok () ↔
        to_.id = toRelease ∧ self.protocol.protocol = to_.protocol.protocol ∧
          self.software.code.Succeeds u.storages to_.software.code := by
    rw [hid, hprotocol, hsoftware]
    tauto
  rw [← hboth]
  cases u with
  | software => exact then_ok _ _ _
  | softwareAndStorage => exact then_ok _ _ _

def Step (old : ProtocolPackageRelease) (op : Update × ProtocolPackageReleaseId)
    (new : ProtocolPackageRelease) : Prop :=
  old.update op.1 new op.2 = .ok ()

def renews (op : Update × ProtocolPackageReleaseId) : Bool := op.1 = .softwareAndStorage

def Succeeds (storages : ℕ) (old new : ProtocolPackageRelease) : Prop :=
  old.protocol.protocol = new.protocol.protocol ∧
    old.software.code.Succeeds storages new.software.code

theorem step_succeeds (first old new : ProtocolPackageRelease) (n : ℕ)
    (op : Update × ProtocolPackageReleaseId) (h : Step old op new) (hold : first.Succeeds n old) :
    first.Succeeds (n + if renews op then 1 else 0) new := by
  obtain ⟨-, hprotocol, hnext⟩ := (update_ok _ _ _ _).1 h
  have hstorages : (if renews op then 1 else 0) = op.1.storages := by
    obtain ⟨u, _⟩ := op
    cases u <;> rfl
  rw [hstorages]
  exact ⟨hold.1.trans hprotocol, Package.succeeds_trans _ _ _ _ _ hold.2 hnext⟩

theorem run_succeeds (first last : ProtocolPackageRelease)
    (ops : List (Update × ProtocolPackageReleaseId)) (h : Run Step first ops last) :
    first.Succeeds (ops.countP renews) last :=
  run_preserves_counted renews (fun n new => first.Succeeds n new)
    (fun n old op new hstep hold => step_succeeds first old new n op hstep hold) first last ops h
    ⟨rfl, Package.succeeds_self _⟩

/-- Releases may be left out of a sequence of updates when the storages of the others are enough
to get from the first one to the last. -/
theorem updates_skipped (first last : ProtocolPackageRelease) (u : Update)
    (ops : List (Update × ProtocolPackageReleaseId)) (h : Run Step first ops last) :
    first.Succeeds (ops.countP renews) last ∧
      (first.update u last last.id = .ok () ↔ ops.countP renews % 2 ^ 16 = u.storages) := by
  have hrun := run_succeeds first last ops h
  refine ⟨hrun, ?_⟩
  have hstorages : u.storages % 2 ^ 16 = u.storages := by cases u <;> rfl
  rw [update_ok, ← hstorages, ← Package.succeeds_mod _ _ _ _ hrun.2]
  simp only [true_and, hrun.1, hstorages]

def samplePackage (version storage : ℕ) (release : String) : ProtocolPackageRelease :=
  ⟨⟨⟨release⟩, ⟨"lpp", ⟨.wrapping 0, .wrapping 5, .wrapping version⟩, .wrapping storage⟩⟩,
    ⟨⟨"p1"⟩, ⟨"osmosis", "OSMOSIS"⟩⟩⟩

def sampleUpdates : List (Update × ProtocolPackageReleaseId) :=
  [(.software, ⟨⟨"v2"⟩, ⟨"p1"⟩⟩), (.softwareAndStorage, ⟨⟨"v3"⟩, ⟨"p1"⟩⟩)]

theorem sample_updated :
    Run Step (samplePackage 1 4 "v1") sampleUpdates (samplePackage 3 5 "v3") :=
  Run.next _ (samplePackage 2 4 "v2") _ _ _ (run_one _ _ _ rfl) rfl

theorem updates_skipped_sample :
    (samplePackage 1 4 "v1").Succeeds (sampleUpdates.countP renews) (samplePackage 3 5 "v3") ∧
      ((samplePackage 1 4 "v1").update .softwareAndStorage (samplePackage 3 5 "v3")
        (samplePackage 3 5 "v3").id = .ok () ↔
          sampleUpdates.countP renews % 2 ^ 16 = Update.softwareAndStorage.storages) :=
  updates_skipped _ _ .softwareAndStorage sampleUpdates sample_updated

end ProtocolPackageRelease

/-! ## Migrations of a contract -/

inductive Migration
  | platform (current : PackageRelease) (toRelease : ReleaseId)
  | protocol (current : ProtocolPackageRelease) (toRelease : ProtocolPackageReleaseId)

namespace Migration

def migrate (stored : Option LegacyPackage) : Migration → Outcome Error (Option LegacyPackage)
  | .platform current toRelease => do
    let (previous, left) ← PackageRelease.pullPrev current.code.name stored
    previous.updateSoftware current toRelease
    pure left
  | .protocol current toRelease => do
    let (previous, left) ←
      ProtocolPackageRelease.pullPrev current.protocol current.software.code.name stored
    previous.updateSoftware current toRelease
    pure left

def code : Migration → Package
  | .platform current _ => current.code
  | .protocol current _ => current.software.code

def targeted : Migration → Bool
  | .platform current toRelease => current.id = toRelease
  | .protocol current toRelease => current.id = toRelease

/-- The new code is not older than what has been deployed, and keeps its storage. -/
def allowed (legacy : LegacyPackage) (migration : Migration) : Bool :=
  migration.targeted && decide (legacy.software ≤ migration.code.version) &&
    decide (legacy.storage = migration.code.storage)

theorem allowed_iff (legacy : LegacyPackage) (migration : Migration) :
    migration.allowed legacy = true ↔ migration.targeted = true ∧
      legacy.software ≤ migration.code.version ∧ legacy.storage = migration.code.storage := by
  simp [allowed, and_assoc]

theorem migrate_none (migration : Migration) :
    migration.migrate none = failing (.loadPrevVersion (.notFound "LegacyPackage")) := by
  cases migration <;> rfl

theorem succeeds_legacy (legacy : LegacyPackage) (code : Package) :
    (legacy.migrateTo code.name).Succeeds 0 code ↔
      legacy.software ≤ code.version ∧ legacy.storage = code.storage := by
  have hlt := legacy.storage.isLt
  constructor
  · intro h
    have hstorage := h.storage
    simp only [LegacyPackage.migrateTo] at hstorage
    exact ⟨h.version, Fin.ext (by omega)⟩
  · rintro ⟨hversion, hstorage⟩
    refine ⟨rfl, hversion, ?_⟩
    simp only [LegacyPackage.migrateTo, ← hstorage]
    omega

/-- A migration succeeds when it is allowed, and leaves no version behind. -/
theorem migrate_some (legacy : LegacyPackage) (migration : Migration)
    (left : Option LegacyPackage) :
    migration.migrate (some legacy) = .ok left ↔
      migration.allowed legacy = true ∧ left = none := by
  cases migration with
  | platform current toRelease =>
    have hupdate := PackageRelease.update_ok ⟨⟨"v0.7.6"⟩, legacy.migrateTo current.code.name⟩
      current .software toRelease
    rw [Update.storages, succeeds_legacy] at hupdate
    refine (then_ok _ _ _).trans ?_
    rw [pure_ok, eq_comm (a := none), allowed_iff]
    refine and_congr_left fun _ => hupdate.trans ?_
    simp [targeted, code]
  | protocol current toRelease =>
    have hupdate := ProtocolPackageRelease.update_ok
      ⟨⟨⟨"v0.7.6"⟩, legacy.migrateTo current.software.code.name⟩, current.protocol⟩ current
      .software toRelease
    rw [Update.storages, succeeds_legacy] at hupdate
    refine (then_ok _ _ _).trans ?_
    rw [pure_ok, eq_comm (a := none), allowed_iff]
    refine and_congr_left fun _ => hupdate.trans ?_
    simp [targeted, code]

/-- The migrations that go through. Those that fail are rolled back. -/
def accepted : Option LegacyPackage → List Migration → List Migration
  | _, [] => []
  | stored, migration :: rest =>
    match migration.migrate stored with
    | .ok left => migration :: accepted left rest
    | .error _ => accepted stored rest

theorem accepted_none (migrations : List Migration) : accepted none migrations = [] := by
  induction migrations with
  | nil => rfl
  | cons migration rest ih =>
    rw [accepted, migrate_none]
    exact ih

/-- Of all migrations the first one allowed goes through, and none after it. A contract that has
been instantiated with this code has no version stored, and is never migrated. -/
theorem migrated_once (stored : Option LegacyPackage) (migrations : List Migration) :
    accepted stored migrations =
      (stored.bind fun legacy => migrations.find? (allowed legacy)).toList := by
  cases stored with
  | none => exact accepted_none migrations
  | some legacy =>
    induction migrations with
    | nil => rfl
    | cons migration rest ih =>
      rw [accepted, Option.bind_some, List.find?_cons]
      cases hallowed : migration.allowed legacy with
      | true =>
        have hmigrate := (migrate_some legacy migration none).2 ⟨hallowed, rfl⟩
        simp [hmigrate, accepted_none]
      | false =>
        cases hmigrate : migration.migrate (some legacy) with
        | ok left =>
          have hok := ((migrate_some legacy migration left).1 hmigrate).1
          rw [hallowed] at hok
          cases hok
        | error fault => exact ih

end Migration

end Nolus.Versioning
