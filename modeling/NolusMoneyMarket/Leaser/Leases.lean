import NolusMoneyMarket.Base.Fallible
import NolusMoneyMarket.Base.KeyedRange

/-! # Leases of the customers

The leaser keeps a record of a customer with the set of its leases. A lease
being opened is saved to the customer that has been cached by the request. The
removal of a lease leaves the record of its customer there. -/

set_option autoImplicit false

namespace Nolus.LeaserLeases
open Nolus.Fallible Nolus.KeyedStore

abbrev Addr : Type := ℕ

inductive StdError
  | notFound (kind : String)
deriving DecidableEq, Repr

inductive PlatformError
  | noSuchCode (code : ℕ)
  | noSuchContract (contract : ℕ)
  | unexpectedCode (expected contract : ℕ)
deriving DecidableEq, Repr

inductive Error
  | std (cause : StdError)
  | conversion
  | platform (cause : PlatformError)
  | unauthorized
  | invalidContinuationKey (err : String)
  | protocolStillInUse
deriving DecidableEq, Repr

structure Config where
  leaseCode : ℕ
  lpp : Addr
  reserve : Addr
  protocolsRegistry : Addr
deriving DecidableEq, Repr

structure Storage where
  owner : Addr
  config : Config
  pendingCustomer : Option Addr
  customerLeases : Store Addr (Finset Addr)

def Storage.new (owner : Addr) (config : Config) : Storage := ⟨owner, config, none, ∅⟩

def Storage.loadByCustomer (self : Storage) (customer : Addr) : Finset Addr :=
  (self.customerLeases.lookup customer).getD ∅

def Storage.cacheOpenReq (self : Storage) (customer : Addr) : Storage :=
  { self with pendingCustomer := some customer }

/-- Returns whether the lease has been stored, or there has already been the same one. -/
def Storage.save (self : Storage) (lease : Addr) : Outcome Error (Bool × Storage) := do
  let customer ← okOr self.pendingCustomer (.std (.notFound "pending_customer"))
  let leases := self.loadByCustomer customer
  pure (decide (lease ∉ leases),
    { self with
      pendingCustomer := none
      customerLeases := self.customerLeases.insert customer (insert lease leases) })

def Storage.remove (self : Storage) (customer lease : Addr) : Bool × Storage :=
  let leases := self.loadByCustomer customer
  (decide (lease ∈ leases),
    { self with customerLeases := self.customerLeases.insert customer (leases.erase lease) })

structure HashOrder where
  intoIter : Finset Addr → List Addr
  nodup : ∀ leases, (intoIter leases).Nodup
  mem : ∀ leases lease, lease ∈ intoIter leases ↔ lease ∈ leases

def sortedOrder : HashOrder where
  intoIter := fun leases => leases.sort (· ≤ ·)
  nodup := fun leases => leases.sort_nodup (· ≤ ·)
  mem := fun _ _ => Finset.mem_sort (· ≤ ·)

structure Customer where
  customer : Addr
  leases : List Addr
deriving DecidableEq, Repr

def Storage.iter (self : Storage) (order : HashOrder) (nextCustomer : Option Addr) :
    List (Outcome Error Customer) :=
  (range self.customerLeases nextCustomer).map fun r => pure ⟨r.1, order.intoIter r.2⟩

theorem intoIter_coe (order : HashOrder) (leases : Finset Addr) :
    (order.intoIter leases : Multiset Addr) = leases.val := by
  apply Multiset.Nodup.ext (Multiset.coe_nodup.2 (order.nodup leases)) leases.nodup |>.2
  intro lease
  exact order.mem leases lease

theorem intoIter_length (order : HashOrder) (leases : Finset Addr) :
    (order.intoIter leases).length = leases.card := by
  rw [← Multiset.coe_card, intoIter_coe]
  rfl

def Storage.leased (self : Storage) (customer lease : Addr) : Prop :=
  lease ∈ self.loadByCustomer customer

theorem save_ok (s s' : Storage) (lease : Addr) (stored : Bool)
    (h : s.save lease = .ok (stored, s')) :
    ∃ customer, s.pendingCustomer = some customer ∧ s' = { s with
      pendingCustomer := none
      customerLeases :=
        s.customerLeases.insert customer (insert lease (s.loadByCustomer customer)) } := by
  simp only [Storage.save, bind_ok, okOr_ok, pure_ok, Prod.mk.injEq] at h
  obtain ⟨customer, hpending, -, rfl⟩ := h
  exact ⟨customer, hpending, rfl⟩

theorem loadByCustomer_insert (self : Storage) (customer other : Addr) (leases : Finset Addr) :
    Storage.loadByCustomer
        { self with customerLeases := self.customerLeases.insert customer leases } other =
      if other = customer then leases else self.loadByCustomer other := by
  simp only [Storage.loadByCustomer]
  split_ifs with h
  · rw [h, AList.lookup_insert]
    rfl
  · rw [AList.lookup_insert_ne h]

theorem leased_remove (self : Storage) (customer lease other lease' : Addr) :
    (self.remove customer lease).2.leased other lease' ↔
      self.leased other lease' ∧ ¬ (other = customer ∧ lease' = lease) := by
  rw [Storage.leased, Storage.remove, loadByCustomer_insert]
  split_ifs with h
  · subst h
    simp [Storage.leased, and_comm]
  · simp [Storage.leased, h]

theorem leased_save (s s' : Storage) (customer lease other lease' : Addr) (stored : Bool)
    (h : (s.cacheOpenReq customer).save lease = .ok (stored, s')) :
    s'.leased other lease' ↔ s.leased other lease' ∨ (other = customer ∧ lease' = lease) := by
  obtain ⟨_, hpending, rfl⟩ := save_ok _ _ _ _ h
  obtain rfl := Option.some.inj hpending
  have hload := loadByCustomer_insert { s with pendingCustomer := none } customer other
    (insert lease (s.loadByCustomer customer))
  rw [Storage.leased]
  refine Eq.to_iff (congrArg (lease' ∈ ·) hload) |>.trans ?_
  split_ifs with hc
  · subst hc
    simp [Storage.leased, or_comm]
  · simp [Storage.leased, Storage.loadByCustomer, hc]

end Nolus.LeaserLeases
