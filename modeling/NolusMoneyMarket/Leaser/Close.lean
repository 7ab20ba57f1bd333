import NolusMoneyMarket.Base.Runs
import NolusMoneyMarket.Leaser.Migrate

/-! # Closing of the protocol

Unless forced, the protocol is closed only when there is no lease. The leaser
looks for a record of a customer instead, and a record outlives the leases in
it. Once a lease has been opened, the protocol is never closed unforced. -/

set_option autoImplicit false

namespace Nolus.LeaserClosing
open Nolus.Fallible Nolus.KeyedStore Nolus.Runs Nolus.LeaserLeases Nolus.LeaserMigration

inductive ForceClose
  | killProtocol
  | no
deriving DecidableEq, Repr

def hasLease (self : Storage) (order : HashOrder) : Bool := (self.iter order none).head?.isSome

def protocolsRegistryLoad (self : Storage) : Outcome Error Addr :=
  pure self.config.protocolsRegistry

def closeLeases (self : Storage) (order : HashOrder) (newLeaseCode maxLeases toRelease : ℕ) :
    ForceClose → Outcome Error (Response × Storage)
  | .killProtocol => tryMigrateLeases self order newLeaseCode maxLeases toRelease
  | .no => if hasLease self order then failing .protocolStillInUse else pure (⟨[], none⟩, self)

def tryCloseProtocol (self : Storage) (order : HashOrder) (newLeaseCode maxLeases toRelease : ℕ)
    (protocolsRegistry : Storage → Outcome Error Addr) (migrationSpec : ProtocolContracts)
    (force : ForceClose) : Outcome Error (Response × Storage) := do
  let (leasesResp, closed) ← closeLeases self order newLeaseCode maxLeases toRelease force
  let registry ← protocolsRegistry closed
  pure ({ leasesResp with
    messages := leasesResp.messages ++ [.deregisterProtocol registry migrationSpec] }, closed)

/-! ## Openings and finalizations -/

inductive Op
  | opened (customer lease : Addr)
  | finalized (customer lease : Addr)
deriving DecidableEq, Repr

/-- A lease is saved in the reply to its instantiation, in the transaction of its request. -/
inductive Step : Storage → Op → Storage → Prop
  | opened (s s' : Storage) (customer lease : Addr) (stored : Bool)
      (h : (s.cacheOpenReq customer).save lease = .ok (stored, s')) :
      Step s (.opened customer lease) s'
  | finalized (s : Storage) (customer lease : Addr) :
      Step s (.finalized customer lease) (s.remove customer lease).2

def InUse (s : Storage) : Prop := ∃ customer lease, s.leased customer lease

theorem hasLease_records (s : Storage) (order : HashOrder) :
    hasLease s order = true ↔ s.customerLeases.entries ≠ [] := by
  rw [hasLease, Storage.iter, range, List.isSome_head?, Ne, List.map_eq_nil_iff,
    records_empty_iff]

theorem inUse_records (s : Storage) (h : InUse s) : s.customerLeases.entries ≠ [] := by
  obtain ⟨customer, lease, hin⟩ := h
  intro hnil
  have hempty : s.customerLeases = ∅ := AList.ext hnil
  rw [Storage.leased, Storage.loadByCustomer, hempty] at hin
  simp at hin

theorem step_records (s s' : Storage) (op : Op) (h : Step s op s') :
    s'.customerLeases.entries ≠ [] := by
  cases h with
  | opened _ customer lease stored h =>
    obtain ⟨_, -, rfl⟩ := save_ok _ _ _ _ h
    rw [AList.entries_insert]
    exact List.cons_ne_nil _ _
  | finalized customer lease =>
    simp only [Storage.remove, AList.entries_insert]
    exact List.cons_ne_nil _ _

theorem run_records (owner : Addr) (config : Config) (s : Storage) (ops : List Op)
    (h : Run Step (Storage.new owner config) ops s) :
    s.customerLeases.entries = [] ↔ ops = [] := by
  cases h with
  | start => exact ⟨fun _ => rfl, fun _ => rfl⟩
  | next _ s₀ ops op _ hstep =>
    have hne := step_records _ _ _ hstep
    simp [hne]

theorem close_unused (s : Storage) (order : HashOrder) (newLeaseCode maxLeases toRelease : ℕ)
    (spec : ProtocolContracts) (h : s.customerLeases.entries = []) :
    tryCloseProtocol s order newLeaseCode maxLeases toRelease protocolsRegistryLoad spec .no =
      .ok (⟨[.deregisterProtocol s.config.protocolsRegistry spec], none⟩, s) := by
  have hno : hasLease s order = false := by
    rw [← Bool.not_eq_true, hasLease_records]
    exact not_not.2 h
  rw [tryCloseProtocol, closeLeases, hno]
  rfl

theorem close_recorded (s : Storage) (order : HashOrder) (newLeaseCode maxLeases toRelease : ℕ)
    (spec : ProtocolContracts) (h : s.customerLeases.entries ≠ []) :
    tryCloseProtocol s order newLeaseCode maxLeases toRelease protocolsRegistryLoad spec .no =
      failing .protocolStillInUse := by
  rw [tryCloseProtocol, closeLeases, (hasLease_records s order).2 h]
  rfl

def ClosedRight (s : Storage) (closing : Outcome Error (Response × Storage)) : Prop :=
  ((∃ response, closing = .ok (response, s)) ↔ ¬ InUse s) ∧
    (InUse s → closing = failing .protocolStillInUse)

/-- The unforced closing is right as long as nothing has been opened or finalized, or a
lease is still stored. -/
theorem closed_right_iff (owner : Addr) (config : Config) (s : Storage) (ops : List Op)
    (order : HashOrder) (newLeaseCode maxLeases toRelease : ℕ) (spec : ProtocolContracts)
    (h : Run Step (Storage.new owner config) ops s) :
    ClosedRight s (tryCloseProtocol s order newLeaseCode maxLeases toRelease
      protocolsRegistryLoad spec .no) ↔ ops = [] ∨ InUse s := by
  have hrecords := run_records owner config s ops h
  by_cases hnone : s.customerLeases.entries = []
  · have hno : ¬ InUse s := fun huse => inUse_records s huse hnone
    rw [close_unused s order newLeaseCode maxLeases toRelease spec hnone]
    constructor
    · exact fun _ => .inl (hrecords.1 hnone)
    · exact fun _ => ⟨⟨fun _ => hno, fun _ => ⟨_, rfl⟩⟩, fun huse => absurd huse hno⟩
  · rw [close_recorded s order newLeaseCode maxLeases toRelease spec hnone]
    constructor
    · intro hright
      by_contra hnot
      rw [not_or] at hnot
      obtain ⟨_, hclosed⟩ := hright.1.2 hnot.2
      cases hclosed
    · rintro (hops | huse)
      · exact absurd (hrecords.2 hops) hnone
      · refine ⟨⟨?_, fun hno => absurd huse hno⟩, fun _ => rfl⟩
        rintro ⟨_, hclosed⟩
        cases hclosed

def oneLease : Storage :=
  { Storage.new 9 ⟨4, 101, 102, 103⟩ with
    customerLeases := (∅ : Store Addr (Finset Addr)).insert 1 {10} }

def sampleContracts : ProtocolContracts :=
  ⟨⟨23, "null", none⟩, ⟨23, "null", none⟩, ⟨23, "null", none⟩, ⟨23, "null", none⟩,
    ⟨23, "null", none⟩⟩

theorem closed_right_one :
    ClosedRight oneLease (tryCloseProtocol oneLease sortedOrder 5 (2 ^ maxLeasesBits - 1) 0
      protocolsRegistryLoad sampleContracts .no) ↔ [Op.opened 1 10] = [] ∨ InUse oneLease :=
  closed_right_iff 9 ⟨4, 101, 102, 103⟩ oneLease [.opened 1 10] sortedOrder 5
    (2 ^ maxLeasesBits - 1) 0 sampleContracts (run_one _ _ _ (.opened _ oneLease 1 10 true rfl))

/-- The only lease ever opened is finalized, and the protocol is still said to be in use. -/
theorem finalized_in_use :
    Run Step (Storage.new 9 ⟨4, 101, 102, 103⟩) [.opened 1 10, .finalized 1 10]
        (oneLease.remove 1 10).2 ∧
      ¬ InUse (oneLease.remove 1 10).2 ∧
      ∀ order, tryCloseProtocol (oneLease.remove 1 10).2 order 5 (2 ^ maxLeasesBits - 1) 0
        protocolsRegistryLoad sampleContracts .no = failing .protocolStillInUse := by
  have hopened : ((Storage.new 9 ⟨4, 101, 102, 103⟩).cacheOpenReq 1).save 10 =
      .ok (true, oneLease) := rfl
  refine ⟨?_, ?_, ?_⟩
  · exact run_append _ oneLease _ [Op.opened 1 10] [Op.finalized 1 10]
      (run_one _ _ _ (Step.opened _ oneLease 1 10 true hopened))
      (run_one _ _ _ (Step.finalized oneLease 1 10))
  · rintro ⟨customer, lease, hin⟩
    rw [leased_remove, leased_save _ _ _ _ _ _ _ hopened] at hin
    obtain ⟨hnone | hone, hnot⟩ := hin
    · simp [Storage.leased, Storage.loadByCustomer, Storage.new] at hnone
    · exact hnot hone
  · intro order
    apply close_recorded
    simp [Storage.remove, AList.entries_insert]

end Nolus.LeaserClosing
