import Mathlib.Logic.Function.Basic
import NolusMoneyMarket.Base.Runs
import NolusMoneyMarket.Leaser.Close
import NolusMoneyMarket.Leaser.Pages
import NolusMoneyMarket.Lpp.Ledger
import NolusMoneyMarket.Reserve.Contract

/-! # The code of the leases

The leaser, the pool and the reserve each keep the code a lease has to be of.
A migration sets the code at all the three, and brings the leases to it page by
page. Leases are opened and finalized between the pages, and any other contract
acts on the pool and the reserve. What the pages have left behind stays on the
new code, and what they have not reached yet is refused by all the three. -/

set_option autoImplicit false

namespace Nolus.LeaseCode
open Nolus.Fallible Nolus.KeyedStore Nolus.Runs Nolus.LeaserLeases Nolus.LeaserMigration
open Nolus.LeaserPages
open Nolus.LeaserClosing (ForceClose closeLeases tryCloseProtocol protocolsRegistryLoad)
open Nolus.ReserveContract (Reserve Send settle)
open Nolus.LppPool (Pool)

inductive Progress
  | upTo (customer : Addr)
  | done
deriving DecidableEq, Repr

def Progress.Below (self : Progress) (customer : Addr) : Prop :=
  match self with
  | .upTo next => customer < next
  | .done => True

/-- The contracts of a protocol with the code of each contract on the chain. The progress of the
last migration is kept for the statements only. -/
structure Protocol where
  leaser : Storage
  pool : Pool
  reserve : Reserve
  codes : Addr → Option ℕ
  leaserAddr : Addr
  poolAddr : Addr
  reserveAddr : Addr
  progress : Progress

def reached (status : Status) : Progress :=
  match status with
  | .contunuationKey key => .upTo key
  | .done => .done

/-- A page from a key goes further when there is no gap before the key. -/
def Progress.page (self : Progress) (key : Addr) (status : Status) : Progress :=
  match self, status with
  | .done, _ => .done
  | .upTo next, .done => if key ≤ next then .done else .upTo next
  | .upTo next, .contunuationKey further =>
    if key ≤ next then .upTo (max next further) else .upTo next

/-! ## What the chain makes of the messages of the leaser -/

def Protocol.deliver (self : Protocol) (accepts : Addr → Bool) : Msg → Option Protocol
  | .migrate lease _ newCode =>
    if (self.codes lease).isSome && accepts lease then
      some { self with codes := Function.update self.codes lease (some newCode) }
    else none
  | .lppNewLeaseCode lpp leaseCode =>
    if lpp = self.poolAddr then
      match self.pool.newLeaseCode self.leaserAddr leaseCode with
      | .ok pool => some { self with pool := pool }
      | .error _ => none
    else none
  | .reserveNewLeaseCode reserve leaseCode =>
    if reserve = self.reserveAddr then
      match ReserveContract.execute self.codes self.reserve self.leaserAddr
          (.newLeaseCode leaseCode) with
      | .ok (_, reserve) => some { self with reserve := reserve }
      | .error _ => none
    else none
  | .deregisterProtocol _ _ => some self

def Protocol.deliverAll (self : Protocol) (accepts : Addr → Bool) : Batch → Option Protocol
  | [] => some self
  | msg :: msgs => (self.deliver accepts msg).bind fun next => next.deliverAll accepts msgs

/-! ## The steps -/

inductive Event
  | openLease (now : ℕ) (customer lease : Addr) (amount : ℕ)
  | finalizeLease (lease customer : Addr)
  | migrateLeases (sender : Addr) (newCodeId toRelease maxLeases : ℕ)
  | migrateLeasesCont (sender key : Addr) (toRelease maxLeases : ℕ)
  | closeProtocol (newLeaseCodeId toRelease : ℕ) (spec : ProtocolContracts) (force : ForceClose)
  | coverLosses (sender : Addr) (amount : ℕ)
  | funded (amount : ℕ)
  | onPool (now : ℕ) (event : LppPool.Event)
  | otherContract (contract : Addr) (code : ℕ)

def closeProtocolMaxLeases : ℕ := 2 ^ maxLeasesBits - 1

def Protocol.responded (self : Protocol) (accepts : Addr → Bool)
    (handled : Outcome Error (Response × Storage)) (progress : Option Status → Progress) :
    Option Protocol :=
  match handled with
  | .ok (response, leaser) =>
    (Protocol.deliverAll { self with leaser := leaser } accepts response.messages).map fun next =>
      { next with progress := progress response.status }
  | .error _ => none

/-- A lease is instantiated with the code of the leaser, and takes its loan before the leaser is
replied to. -/
def Protocol.openLease (self : Protocol) (now : ℕ) (customer lease : Addr) (amount : ℕ) :
    Option Protocol :=
  let code := self.leaser.config.leaseCode
  match self.codes lease, self.pool.execute now ⟨lease, some code, [], .openLoan amount⟩,
    (self.leaser.cacheOpenReq customer).save lease with
  | none, .ok pool, .ok (_, leaser) => some { self with
      leaser := leaser
      pool := pool
      codes := Function.update self.codes lease (some code) }
  | _, _, _ => none

def afterMigration (progress : Progress) (status : Option Status) : Progress :=
  (status.map reached).getD progress

def afterPage (progress : Progress) (key : Addr) (status : Option Status) : Progress :=
  (status.map (progress.page key)).getD progress

def coveredBy (self : Protocol) (handled : Outcome ReserveContract.Error (List Send × Reserve)) :
    Option Protocol :=
  match handled with
  | .ok (sends, reserve) => (settle reserve sends).map fun paid => { self with reserve := paid }
  | .error _ => none

/-- The leaser sends nothing to the pool but with its own messages, a sender is of the code the
chain has for it, and the leases are in the hands of the leaser. -/
def Allowed (self : Protocol) : Event → Prop
  | .onPool _ (.execute call) => call.sender ≠ self.leaserAddr ∧
      call.senderCode = self.codes call.sender
  | .otherContract contract _ => ∀ customer, ¬ self.leaser.leased customer contract
  | _ => True

def Protocol.handle (known : ℕ → Bool) (order : HashOrder) (accepts : Addr → Bool)
    (self : Protocol) : Event → Option Protocol
  | .openLease now customer lease amount => self.openLease now customer lease amount
  | .finalizeLease lease customer =>
    self.responded accepts
      (LeaserMigration.execute ⟨known, self.codes⟩ order lease self.leaser
        (.finalizeLease customer)) fun _ => self.progress
  | .migrateLeases sender newCodeId toRelease maxLeases =>
    self.responded accepts
      (LeaserMigration.execute ⟨known, self.codes⟩ order sender self.leaser
        (.migrateLeases newCodeId toRelease maxLeases)) (afterMigration self.progress)
  | .migrateLeasesCont sender key toRelease maxLeases =>
    self.responded accepts
      (LeaserMigration.execute ⟨known, self.codes⟩ order sender self.leaser
        (.migrateLeasesCont key toRelease maxLeases)) (afterPage self.progress key)
  | .closeProtocol newLeaseCodeId toRelease spec force =>
    self.responded accepts
      (do
        let newLeaseCode ← newCode ⟨known, self.codes⟩ newLeaseCodeId
        tryCloseProtocol self.leaser order newLeaseCode closeProtocolMaxLeases toRelease
          protocolsRegistryLoad spec force)
      (afterMigration self.progress)
  | .coverLosses sender amount =>
    coveredBy self
      (ReserveContract.execute self.codes self.reserve sender (.coverLiquidationLosses amount))
  | .funded amount =>
    some { self with reserve := { self.reserve with balance := self.reserve.balance + amount } }
  | .onPool now event =>
    match self.pool.handle now event with
    | .ok pool => some { self with pool := pool }
    | .error _ => none
  | .otherContract contract code =>
    some { self with codes := Function.update self.codes contract (some code) }

def Step (known : ℕ → Bool) (self : Protocol) (event : Event × HashOrder × (Addr → Bool))
    (next : Protocol) : Prop :=
  Allowed self event.1 ∧ self.handle known event.2.1 event.2.2 event.1 = some next

structure Instantiated (protocol : Protocol) : Prop where
  leases : protocol.leaser.customerLeases = ∅
  lpp : protocol.leaser.config.lpp = protocol.poolAddr
  reserve : protocol.leaser.config.reserve = protocol.reserveAddr
  lppAdmin : protocol.pool.leaseCodeAdmin = protocol.leaserAddr
  reserveAdmin : protocol.reserve.leaseCodeAdmin = some protocol.leaserAddr
  lppCode : protocol.pool.config.leaseCode = protocol.leaser.config.leaseCode
  reserveCode : protocol.reserve.config.leaseCode = protocol.leaser.config.leaseCode

/-! ## What a page takes -/

theorem migrateOrBeNext_oversized (self : MigrateBatch) (order : HashOrder) (toRelease : ℕ)
    (r : Record) (h : ¬ r.2.card < 2 ^ maxLeasesBits) :
    self.migrateOrBeNext (customerOf order r) toRelease = (some (failing .conversion), self) := by
  have hlen : (customerOf order r).leases.length = r.2.card := intoIter_length order r.2
  simp only [MigrateBatch.migrateOrBeNext, MigrateBatch.migrateLeases]
  rw [hlen, if_neg h]
  rfl

/-- A customer is taken with all its leases, or is the next one. -/
theorem migrateOrBeNext_taken (self batch : MigrateBatch) (order : HashOrder) (toRelease : ℕ)
    (r : Record) (next : Option Addr)
    (h : self.migrateOrBeNext (customerOf order r) toRelease = (next.map .ok, batch)) :
    (next = none ∧ batch = MigrateBatch.filled self order toRelease [r]) ∨
      (next = some r.1 ∧ batch = self) := by
  by_cases hbits : r.2.card < 2 ^ maxLeasesBits
  · by_cases hroom : r.2.card ≤ self.leasesLeft
    · rw [migrateOrBeNext_fits self order toRelease r hbits hroom] at h
      obtain ⟨hnext, rfl⟩ := Prod.mk.inj h
      exact .inl ⟨Option.map_eq_none_iff.1 hnext.symm, rfl⟩
    · rw [migrateOrBeNext_next self order toRelease r hbits (Nat.lt_of_not_le hroom)] at h
      obtain ⟨hnext, rfl⟩ := Prod.mk.inj h
      obtain ⟨customer, rfl, hcustomer⟩ := Option.map_eq_some_iff.1 hnext.symm
      cases hcustomer
      exact .inr ⟨rfl, rfl⟩
  · rw [migrateOrBeNext_oversized self order toRelease r hbits] at h
    obtain ⟨_, _, hcustomer⟩ := Option.map_eq_some_iff.1 (Prod.mk.inj h).1.symm
    cases hcustomer

/-- However a page ends but with an error, it has taken the customers before the next one. -/
theorem findNext_taken (order : HashOrder) (toRelease : ℕ) (records : List Record)
    (self batch : MigrateBatch) (next : Option Addr)
    (h : self.findNext toRelease (records.map fun r => pure (customerOf order r)) =
      (next.map .ok, batch)) :
    ∃ chunk rest, records = chunk ++ rest ∧ next = rest.head?.map Prod.fst ∧
      batch = MigrateBatch.filled self order toRelease chunk := by
  induction records generalizing self with
  | nil =>
    obtain ⟨hnext, rfl⟩ := Prod.mk.inj h
    exact ⟨[], [], rfl, Option.map_eq_none_iff.1 hnext.symm, (filled_nothing self order _).symm⟩
  | cons r records ih =>
    rw [List.map_cons] at h
    rcases hr : self.migrateOrBeNext (customerOf order r) toRelease with ⟨_ | outcome, taken⟩
    · rcases migrateOrBeNext_taken self taken order toRelease r none hr with ⟨-, rfl⟩ | ⟨hsome, -⟩
      · rw [findNext_migrated self _ toRelease _ _ hr] at h
        obtain ⟨chunk, rest, hsplit, hnext, hbatch⟩ := ih _ h
        exact ⟨r :: chunk, rest, by rw [hsplit, List.cons_append], hnext,
          by rw [hbatch, filled_cons]⟩
      · cases hsome
    · rw [findNext_next self taken toRelease _ _ outcome hr] at h
      rw [← (Prod.mk.inj h).2]
      rw [(Prod.mk.inj h).1] at hr
      rcases migrateOrBeNext_taken self taken order toRelease r next hr with ⟨rfl, -⟩ | ⟨rfl, rfl⟩
      · cases (Prod.mk.inj h).1
      · exact ⟨[], r :: records, rfl, rfl, (filled_nothing _ order _).symm⟩

theorem migrateLeases_taken (order : HashOrder) (leaseCode maxLeases toRelease : ℕ)
    (records : List Record) (result : MigrationResult)
    (h : migrateLeases (records.map fun r => pure (customerOf order r)) leaseCode maxLeases
      toRelease = .ok result) :
    ∃ chunk rest, records = chunk ++ rest ∧
      result = ⟨toMigrate toRelease leaseCode (leasesOf order chunk),
        rest.head?.map Prod.fst⟩ := by
  rw [migrateLeases] at h
  rcases hfind : (MigrateBatch.new leaseCode maxLeases).findNext toRelease
    (records.map fun r => pure (customerOf order r)) with ⟨_ | outcome, batch⟩
  · obtain ⟨chunk, rest, hsplit, hnext, rfl⟩ := findNext_taken order toRelease records _ _ none hfind
    rw [hfind] at h
    obtain rfl := (pure_ok _ _).1 h
    exact ⟨chunk, rest, hsplit, by rw [← hnext]; rfl⟩
  · rw [hfind] at h
    obtain ⟨customer, rfl, hresult⟩ := (bind_ok _ _ _).1 h
    obtain ⟨chunk, rest, hsplit, hnext, rfl⟩ :=
      findNext_taken order toRelease records _ _ (some customer) hfind
    obtain rfl := (pure_ok _ _).1 hresult
    exact ⟨chunk, rest, hsplit, by rw [← hnext]; rfl⟩

theorem leased_record (self : Storage) (customer lease : Addr) :
    self.leased customer lease ↔
      ∃ leases, self.customerLeases.lookup customer = some leases ∧ lease ∈ leases := by
  rw [Storage.leased, Storage.loadByCustomer]
  cases self.customerLeases.lookup customer with
  | none => simp
  | some leases => simp

/-- A page takes leases of customers only, and all those of the customers from its start up to
where it has come. -/
theorem page_taken (self : Storage) (order : HashOrder) (start : Option Addr)
    (leaseCode maxLeases toRelease : ℕ) (result : MigrationResult)
    (h : migrateLeases (self.iter order start) leaseCode maxLeases toRelease = .ok result) :
    ∃ leases, result.msgs = toMigrate toRelease leaseCode leases ∧
      ∀ customer lease, self.leased customer lease → (∀ key ∈ start, key ≤ customer) →
        (reached (emitStatus result.nextCustomer)).Below customer → lease ∈ leases := by
  obtain ⟨chunk, rest, hsplit, rfl⟩ := migrateLeases_taken order leaseCode maxLeases toRelease
    (range self.customerLeases start) result h
  refine ⟨leasesOf order chunk, rfl, ?_⟩
  intro customer lease hleased hstart hbelow
  obtain ⟨leases, hlookup, hin⟩ := (leased_record self customer lease).1 hleased
  have hrange := (mem_range self.customerLeases start customer leases).2 ⟨hlookup, hstart⟩
  have hascend := range_ascend self.customerLeases start
  rw [hsplit] at hrange hascend
  rcases List.mem_append.1 hrange with hchunk | hrest
  · exact List.mem_flatMap.2 ⟨(customer, leases), hchunk, (order.mem leases lease).2 hin⟩
  · cases rest with
    | nil => cases hrest
    | cons first rest =>
      have hlt : customer < first.1 := hbelow
      rcases List.mem_cons.1 hrest with rfl | hlater
      · exact absurd hlt (lt_irrefl _)
      · have hafter := (List.pairwise_cons.1 (List.pairwise_append.1 hascend).2.1).1 _ hlater
        exact absurd (hlt.trans hafter) (lt_irrefl _)

/-! ## What is made of the messages -/

def Protocol.migrated (self : Protocol) (leases : List Addr) (code : ℕ) : Protocol :=
  { self with codes := fun contract => if contract ∈ leases then some code else self.codes contract }

def Protocol.recoded (self : Protocol) (code : ℕ) : Protocol :=
  { self with
    pool := { self.pool with config := { self.pool.config with leaseCode := code } }
    reserve := { self.reserve with config := ⟨code⟩ } }

theorem migrated_cons (self : Protocol) (lease : Addr) (leases : List Addr) (code : ℕ) :
    Protocol.migrated { self with codes := Function.update self.codes lease (some code) }
      leases code = self.migrated (lease :: leases) code := by
  simp only [Protocol.migrated, Protocol.mk.injEq, true_and, and_true]
  funext contract
  by_cases hin : contract ∈ leases
  · simp [hin]
  · by_cases hlease : contract = lease
    · simp [hlease]
    · simp [hin, hlease]

theorem deliverAll_append (self : Protocol) (accepts : Addr → Bool) (msgs rest : Batch) :
    self.deliverAll accepts (msgs ++ rest) =
      (self.deliverAll accepts msgs).bind fun next => next.deliverAll accepts rest := by
  induction msgs generalizing self with
  | nil => rfl
  | cons msg msgs ih =>
    rw [List.cons_append, Protocol.deliverAll, Protocol.deliverAll, Option.bind_assoc]
    exact Option.bind_congr fun next _ => ih next

theorem deliverAll_leases (self next : Protocol) (accepts : Addr → Bool) (toRelease code : ℕ)
    (leases : List Addr)
    (h : self.deliverAll accepts (toMigrate toRelease code leases) = some next) :
    next = self.migrated leases code := by
  induction leases generalizing self with
  | nil =>
    obtain rfl := Option.some.inj h
    simp [Protocol.migrated]
  | cons lease leases ih =>
    obtain ⟨first, hfirst, hrest⟩ := Option.bind_eq_some_iff.1 h
    rw [Protocol.deliver] at hfirst
    split_ifs at hfirst with haccepts
    obtain rfl := Option.some.inj hfirst
    rw [ih _ hrest, migrated_cons]

theorem deliverAll_remotes (self next : Protocol) (accepts : Addr → Bool) (code : ℕ)
    (hlpp : self.pool.leaseCodeAdmin = self.leaserAddr)
    (hreserve : self.reserve.leaseCodeAdmin = some self.leaserAddr)
    (h : self.deliverAll accepts [.lppNewLeaseCode self.poolAddr code,
      .reserveNewLeaseCode self.reserveAddr code] = some next) :
    next = self.recoded code := by
  have hpool : self.pool.newLeaseCode self.leaserAddr code =
      .ok { self.pool with config := { self.pool.config with leaseCode := code } } := by
    simp only [Pool.newLeaseCode, bind_ok, ensure_ok, pure_ok]
    exact ⟨(), hlpp, trivial⟩
  have hres : ReserveContract.execute self.codes self.reserve self.leaserAddr
      (.newLeaseCode code) = .ok ([], { self.reserve with config := ⟨code⟩ }) :=
    (ReserveContract.newLeaseCode_ok _ _ _ _ _ _).2 ⟨hreserve, rfl, rfl⟩
  simp only [Protocol.deliverAll, Protocol.deliver, if_true, hpool, hres, Option.bind_some,
    Option.some.injEq] at h
  exact h.symm

theorem responded_some (self next : Protocol) (accepts : Addr → Bool)
    (handled : Outcome LeaserLeases.Error (Response × Storage))
    (progress : Option Status → Progress)
    (h : self.responded accepts handled progress = some next) :
    ∃ response leaser delivered, handled = .ok (response, leaser) ∧
      Protocol.deliverAll { self with leaser := leaser } accepts response.messages =
        some delivered ∧
      next = { delivered with progress := progress response.status } := by
  cases handled with
  | error fault => cases h
  | ok result =>
    obtain ⟨delivered, hdelivered, rfl⟩ := Option.map_eq_some_iff.1 h
    exact ⟨result.1, result.2, delivered, rfl, hdelivered, rfl⟩

theorem below_page (progress : Progress) (key customer : Addr) (status : Status)
    (h : (progress.page key status).Below customer) :
    progress.Below customer ∨ (key ≤ customer ∧ (reached status).Below customer) := by
  cases progress with
  | done => exact .inl trivial
  | upTo next =>
    by_cases hbelow : customer < next
    · exact .inl hbelow
    · have hnext : next ≤ customer := Nat.le_of_not_lt hbelow
      cases status with
      | done =>
        rw [Progress.page] at h
        split_ifs at h with hkey
        · exact .inr ⟨hkey.trans hnext, trivial⟩
        · exact absurd h hbelow
      | contunuationKey further =>
        rw [Progress.page] at h
        split_ifs at h with hkey
        · have hmax : customer < max next further := h
          exact .inr ⟨hkey.trans hnext, (lt_max_iff.1 hmax).resolve_left hbelow⟩
        · exact absurd h hbelow

/-! ## The codes agree -/

/-- The contracts know each other as they have been instantiated, and agree on the code. The leases
behind the progress of the migration are of it. -/
structure Coherent (protocol : Protocol) : Prop where
  lpp : protocol.leaser.config.lpp = protocol.poolAddr
  reserve : protocol.leaser.config.reserve = protocol.reserveAddr
  lppAdmin : protocol.pool.leaseCodeAdmin = protocol.leaserAddr
  reserveAdmin : protocol.reserve.leaseCodeAdmin = some protocol.leaserAddr
  lppCode : protocol.pool.config.leaseCode = protocol.leaser.config.leaseCode
  reserveCode : protocol.reserve.config.leaseCode = protocol.leaser.config.leaseCode
  behind : ∀ customer lease, protocol.leaser.leased customer lease → protocol.progress.Below customer →
    protocol.codes lease = some protocol.leaser.config.leaseCode

theorem instantiated_coherent (self : Protocol) (h : Instantiated self) : Coherent self where
  lpp := h.lpp
  reserve := h.reserve
  lppAdmin := h.lppAdmin
  reserveAdmin := h.reserveAdmin
  lppCode := h.lppCode
  reserveCode := h.reserveCode
  behind := by
    intro customer lease hleased
    rw [Storage.leased, Storage.loadByCustomer, h.leases] at hleased
    cases hleased

/-- Only its administrator changes the code of the leases at the pool. -/
theorem pool_keeps_code (self next : Pool) (now : ℕ) (event : LppPool.Event)
    (hadmin : ∀ call code, event = .execute call → call.msg = .newLeaseCode code →
      call.sender ≠ self.leaseCodeAdmin)
    (h : self.handle now event = .ok next) :
    next.config.leaseCode = self.config.leaseCode ∧
      next.leaseCodeAdmin = self.leaseCodeAdmin := by
  cases event with
  | newBorrowRate rate =>
    cases h
    exact ⟨rfl, rfl⟩
  | minUtilization level bound =>
    cases h
    exact ⟨rfl, rfl⟩
  | transfer funds =>
    cases h
    exact ⟨rfl, rfl⟩
  | execute call =>
    obtain ⟨sender, code, funds, msg⟩ := call
    have he : self.execute now ⟨sender, code, funds, msg⟩ = .ok next := h
    cases msg with
    | newLeaseCode code =>
      simp only [Pool.execute, Pool.newLeaseCode, bind_ok, ensure_ok] at he
      obtain ⟨-, hsender, -⟩ := he
      exact absurd hsender.symm (hadmin _ code rfl rfl)
    | distributeRewards =>
      simp only [Pool.execute, Pool.tryDistributeRewards, bind_ok, pure_ok] at he
      obtain ⟨_, _, _, _, rfl⟩ := he
      exact ⟨rfl, rfl⟩
    | claimRewards =>
      simp only [Pool.execute, Pool.tryClaimRewards, bind_ok, ensure_ok] at he
      obtain ⟨_, _, _, _, _, _, hsend⟩ := he
      obtain ⟨-, rfl⟩ := LppEffects.sendNls_ok _ _ _ hsend
      exact ⟨rfl, rfl⟩
    | openLoan amount =>
      simp only [Pool.execute, Pool.tryOpenLoan, bind_ok, ensure_ok, okOr_ok] at he
      obtain ⟨_, _, _, _, _, _, _, _, _, _, _, _, hsend⟩ := he
      obtain ⟨-, rfl⟩ := LppEffects.sendLpn_ok _ _ _ hsend
      exact ⟨rfl, rfl⟩
    | repayLoan =>
      simp only [Pool.execute, Pool.tryRepayLoan, bind_ok] at he
      obtain ⟨_, _, _, _, _, _, _, _, _, _, _, _, hsend⟩ := he
      obtain ⟨-, rfl⟩ := LppEffects.sendLpn_ok _ _ _ hsend
      exact ⟨rfl, rfl⟩
    | deposit =>
      simp only [Pool.execute, Pool.tryDeposit, bind_ok, ensure_ok, pure_ok] at he
      obtain ⟨_, _, _, _, _, _, _, _, _, _, rfl⟩ := he
      exact ⟨rfl, rfl⟩
    | burn amount =>
      simp only [Pool.execute, Pool.tryWithdraw, bind_ok, ensure_ok] at he
      obtain ⟨_, _, _, _, _, _, _, _, paid, hpaid, hsend⟩ := he
      obtain ⟨-, rfl⟩ := LppEffects.sendLpn_ok _ _ _ hpaid
      obtain ⟨-, rfl⟩ := LppEffects.sendNls_ok _ _ _ hsend
      exact ⟨rfl, rfl⟩

/-! ## The steps of the leaser -/

theorem tryMigrateLeases_taken (self leaser : Storage) (order : HashOrder)
    (newLease maxLeases toRelease : ℕ) (response : Response)
    (h : tryMigrateLeases self order newLease maxLeases toRelease = .ok (response, leaser)) :
    leaser = { self with config.leaseCode := newLease } ∧
      ∃ leases status, response.messages =
          toMigrate toRelease newLease leases ++ updateRemoteRefs leaser newLease ∧
        response.status = some status ∧
        ∀ customer lease, self.leased customer lease → (reached status).Below customer →
          lease ∈ leases := by
  simp only [tryMigrateLeases, bind_ok, pure_ok, Prod.mk.injEq] at h
  obtain ⟨result, hresult, rfl, rfl⟩ := h
  obtain ⟨leases, hmsgs, hall⟩ := page_taken _ order none _ _ _ result hresult
  refine ⟨rfl, leases, emitStatus result.nextCustomer, by rw [hmsgs], rfl, ?_⟩
  intro customer lease hleased hbelow
  exact hall customer lease hleased (by simp) hbelow

theorem tryMigrateLeasesCont_taken (self leaser : Storage) (order : HashOrder) (key : Addr)
    (maxLeases toRelease : ℕ) (response : Response)
    (h : tryMigrateLeasesCont self order key maxLeases toRelease = .ok (response, leaser)) :
    leaser = self ∧
      ∃ leases status, response.messages = toMigrate toRelease self.config.leaseCode leases ∧
        response.status = some status ∧
        ∀ customer lease, self.leased customer lease → key ≤ customer →
          (reached status).Below customer → lease ∈ leases := by
  simp only [tryMigrateLeasesCont, bind_ok, pure_ok, Prod.mk.injEq] at h
  obtain ⟨result, hresult, rfl, rfl⟩ := h
  obtain ⟨leases, hmsgs, hall⟩ := page_taken _ order (some key) _ _ _ result hresult
  refine ⟨rfl, leases, emitStatus result.nextCustomer, hmsgs, rfl, ?_⟩
  intro customer lease hleased hkey hbelow
  exact hall customer lease hleased (by simpa using hkey) hbelow

/-- The first page of a migration brings all the contracts to the new code, and the leases as far
as it goes. -/
theorem begun_coherent (self delivered : Protocol) (order : HashOrder) (accepts : Addr → Bool)
    (newLease maxLeases toRelease : ℕ) (response : Response) (leaser : Storage)
    (hc : Coherent self)
    (h : tryMigrateLeases self.leaser order newLease maxLeases toRelease = .ok (response, leaser))
    (hdelivered : Protocol.deliverAll { self with leaser := leaser } accepts response.messages =
      some delivered) :
    Coherent { delivered with progress := afterMigration self.progress response.status } := by
  obtain ⟨rfl, leases, status, hmsgs, hstatus, hall⟩ :=
    tryMigrateLeases_taken self.leaser leaser order newLease maxLeases toRelease response h
  rw [hmsgs, deliverAll_append] at hdelivered
  obtain ⟨brought, hbrought, hremotes⟩ := Option.bind_eq_some_iff.1 hdelivered
  obtain rfl := deliverAll_leases _ brought accepts toRelease newLease leases hbrought
  have hrefs : updateRemoteRefs { self.leaser with config.leaseCode := newLease } newLease =
      [.lppNewLeaseCode self.poolAddr newLease, .reserveNewLeaseCode self.reserveAddr newLease] := by
    rw [updateRemoteRefs, hc.lpp, hc.reserve]
  rw [hrefs] at hremotes
  obtain rfl := deliverAll_remotes
    (Protocol.migrated { self with leaser := { self.leaser with config.leaseCode := newLease } }
      leases newLease) delivered accepts newLease hc.lppAdmin hc.reserveAdmin hremotes
  rw [hstatus]
  exact
    { lpp := hc.lpp
      reserve := hc.reserve
      lppAdmin := hc.lppAdmin
      reserveAdmin := hc.reserveAdmin
      lppCode := rfl
      reserveCode := rfl
      behind := fun customer lease hleased hbelow => if_pos (hall customer lease hleased hbelow) }

/-- A further page brings more leases to the code there is. -/
theorem continued_coherent (self delivered : Protocol) (order : HashOrder)
    (accepts : Addr → Bool) (key : Addr) (maxLeases toRelease : ℕ) (response : Response)
    (leaser : Storage) (hc : Coherent self)
    (h : tryMigrateLeasesCont self.leaser order key maxLeases toRelease = .ok (response, leaser))
    (hdelivered : Protocol.deliverAll { self with leaser := leaser } accepts response.messages =
      some delivered) :
    Coherent { delivered with progress := afterPage self.progress key response.status } := by
  obtain ⟨rfl, leases, status, hmsgs, hstatus, hall⟩ :=
    tryMigrateLeasesCont_taken self.leaser leaser order key maxLeases toRelease response h
  rw [hmsgs] at hdelivered
  obtain rfl := deliverAll_leases _ delivered accepts toRelease _ leases hdelivered
  rw [hstatus]
  refine
    { lpp := hc.lpp
      reserve := hc.reserve
      lppAdmin := hc.lppAdmin
      reserveAdmin := hc.reserveAdmin
      lppCode := hc.lppCode
      reserveCode := hc.reserveCode
      behind := ?_ }
  intro customer lease hleased hbelow
  by_cases hin : lease ∈ leases
  · exact if_pos hin
  · refine (if_neg hin).trans ?_
    rcases below_page self.progress key customer status hbelow with hbefore | ⟨hkey, hreached⟩
    · exact hc.behind customer lease hleased hbefore
    · exact absurd (hall customer lease hleased hkey hreached) hin

theorem finalized_coherent (self delivered : Protocol) (known : ℕ → Bool) (order : HashOrder)
    (accepts : Addr → Bool) (sender customer : Addr) (response : Response) (leaser : Storage)
    (hc : Coherent self)
    (h : LeaserMigration.execute ⟨known, self.codes⟩ order sender self.leaser
      (.finalizeLease customer) = .ok (response, leaser))
    (hdelivered : Protocol.deliverAll { self with leaser := leaser } accepts response.messages =
      some delivered) :
    Coherent { delivered with progress := self.progress } := by
  simp only [LeaserMigration.execute, bind_ok, pure_ok, Prod.mk.injEq] at h
  obtain ⟨customer', -, lease, -, rfl, rfl⟩ := h
  obtain rfl := Option.some.inj hdelivered
  exact
    { lpp := hc.lpp
      reserve := hc.reserve
      lppAdmin := hc.lppAdmin
      reserveAdmin := hc.reserveAdmin
      lppCode := hc.lppCode
      reserveCode := hc.reserveCode
      behind := fun customer lease' hleased =>
        hc.behind customer lease' ((leased_remove _ _ _ _ _).1 hleased).1 }

theorem closed_coherent (self delivered : Protocol) (order : HashOrder) (accepts : Addr → Bool)
    (newLeaseCode toRelease : ℕ) (spec : ProtocolContracts) (force : ForceClose)
    (response : Response) (leaser : Storage) (hc : Coherent self)
    (h : tryCloseProtocol self.leaser order newLeaseCode closeProtocolMaxLeases toRelease
      protocolsRegistryLoad spec force = .ok (response, leaser))
    (hdelivered : Protocol.deliverAll { self with leaser := leaser } accepts response.messages =
      some delivered) :
    Coherent { delivered with progress := afterMigration self.progress response.status } := by
  simp only [tryCloseProtocol, bind_ok, pure_ok, Prod.mk.injEq] at h
  obtain ⟨⟨leasesResp, closed⟩, hleases, registry, -, rfl, rfl⟩ := h
  rw [deliverAll_append] at hdelivered
  obtain ⟨brought, hbrought, hrest⟩ := Option.bind_eq_some_iff.1 hdelivered
  -- the registry of the protocols is beyond the contracts of this one
  obtain rfl : brought = delivered := Option.some.inj hrest
  cases force with
  | killProtocol =>
    exact begun_coherent self brought order accepts _ _ _ leasesResp closed hc hleases hbrought
  | no =>
    rw [closeLeases] at hleases
    split_ifs at hleases
    · exact absurd hleases (failing_ok _ _)
    · obtain ⟨rfl, rfl⟩ := Prod.mk.inj ((pure_ok _ _).1 hleases)
      obtain rfl := Option.some.inj hbrought
      exact hc

theorem opened_coherent (self next : Protocol) (now : ℕ) (customer lease : Addr) (amount : ℕ)
    (hc : Coherent self) (h : self.openLease now customer lease amount = some next) :
    Coherent next := by
  simp only [Protocol.openLease] at h
  split at h
  case h_2 => cases h
  case h_1 pool stored leaser _ hpool hsaved =>
    obtain rfl := Option.some.inj h
    obtain ⟨hcode, hadmin⟩ := pool_keeps_code self.pool pool now
      (.execute ⟨lease, some self.leaser.config.leaseCode, [], .openLoan amount⟩)
      (by rintro _ _ ⟨⟩ ⟨⟩) hpool
    have hleased := fun other lease' => leased_save _ _ customer lease other lease' stored hsaved
    obtain ⟨_, -, rfl⟩ := save_ok _ _ _ _ hsaved
    refine
      { lpp := hc.lpp
        reserve := hc.reserve
        lppAdmin := hadmin.trans hc.lppAdmin
        reserveAdmin := hc.reserveAdmin
        lppCode := hcode.trans hc.lppCode
        reserveCode := hc.reserveCode
        behind := ?_ }
    intro other lease' hin hbelow
    -- a lease is opened of the current code, no matter which customer it is of
    rcases eq_or_ne lease' lease with rfl | hne
    · exact Function.update_self ..
    · refine (Function.update_of_ne hne _ _).trans ?_
      rcases (hleased other lease').1 hin with hbefore | ⟨-, heq⟩
      · exact hc.behind other lease' hbefore hbelow
      · exact absurd heq hne

/-! ## A run -/

theorem covered_coherent (self next : Protocol) (sender : Addr) (amount : ℕ) (hc : Coherent self)
    (h : coveredBy self (ReserveContract.execute self.codes self.reserve sender
      (.coverLiquidationLosses amount)) = some next) : Coherent next := by
  unfold coveredBy at h
  split at h
  case h_2 => cases h
  case h_1 sends reserve hcovered =>
    obtain ⟨-, hle, rfl, rfl⟩ := (ReserveContract.coverLosses_ok _ _ _ _ _ _).1 hcovered
    rw [ReserveContract.settle_covered _ _ _ hle] at h
    obtain rfl := Option.some.inj h
    exact { hc with }

theorem step_coherent (known : ℕ → Bool) (self next : Protocol)
    (event : Event × HashOrder × (Addr → Bool)) (h : Step known self event next)
    (hc : Coherent self) : Coherent next := by
  obtain ⟨event, order, accepts⟩ := event
  obtain ⟨hallowed, hnext⟩ := h
  cases event with
  | openLease now customer lease amount =>
    exact opened_coherent self next now customer lease amount hc hnext
  | finalizeLease lease customer =>
    simp only [Protocol.handle] at hnext
    obtain ⟨response, leaser, delivered, hhandled, hdelivered, rfl⟩ :=
      responded_some self next accepts _ _ hnext
    exact finalized_coherent self delivered known order accepts lease customer response leaser hc
      hhandled hdelivered
  | migrateLeases sender newCodeId toRelease maxLeases =>
    simp only [Protocol.handle] at hnext
    obtain ⟨response, leaser, delivered, hhandled, hdelivered, rfl⟩ :=
      responded_some self next accepts _ _ hnext
    simp only [LeaserMigration.execute, bind_ok] at hhandled
    obtain ⟨-, -, newLease, -, htaken⟩ := hhandled
    exact begun_coherent self delivered order accepts _ _ _ response leaser hc htaken hdelivered
  | migrateLeasesCont sender key toRelease maxLeases =>
    simp only [Protocol.handle] at hnext
    obtain ⟨response, leaser, delivered, hhandled, hdelivered, rfl⟩ :=
      responded_some self next accepts _ _ hnext
    simp only [LeaserMigration.execute, bind_ok, validateCustomer, pure_ok] at hhandled
    obtain ⟨-, -, _, ⟨-, -, rfl⟩, htaken⟩ := hhandled
    exact continued_coherent self delivered order accepts _ _ _ response leaser hc htaken hdelivered
  | closeProtocol newLeaseCodeId toRelease spec force =>
    simp only [Protocol.handle] at hnext
    obtain ⟨response, leaser, delivered, hhandled, hdelivered, rfl⟩ :=
      responded_some self next accepts _ _ hnext
    obtain ⟨newLeaseCode, -, hclosed⟩ := (bind_ok _ _ _).1 hhandled
    exact closed_coherent self delivered order accepts _ _ spec force response leaser hc hclosed
      hdelivered
  | coverLosses sender amount => exact covered_coherent self next sender amount hc hnext
  | funded amount =>
    obtain rfl := Option.some.inj hnext
    exact { hc with }
  | onPool now event =>
    simp only [Protocol.handle] at hnext
    split at hnext
    case h_2 => cases hnext
    case h_1 pool hpool =>
      obtain rfl := Option.some.inj hnext
      obtain ⟨hcode, hadmin⟩ := pool_keeps_code self.pool pool now event (by
        rintro call code rfl -
        rw [hc.lppAdmin]
        exact hallowed.1) hpool
      exact { hc with
        lppAdmin := hadmin.trans hc.lppAdmin
        lppCode := hcode.trans hc.lppCode }
  | otherContract contract code =>
    obtain rfl := Option.some.inj hnext
    refine { hc with behind := ?_ }
    intro customer lease hleased hbelow
    have hne : lease ≠ contract := by
      rintro rfl
      exact hallowed customer hleased
    exact (Function.update_of_ne hne _ _).trans (hc.behind customer lease hleased hbelow)

theorem reachable_coherent (known : ℕ → Bool) (self : Protocol)
    (h : Reachable (Step known) Instantiated self) : Coherent self :=
  reachable_induction Instantiated Coherent instantiated_coherent
    (fun s event s' => step_coherent known s s' event) self h

/-! ## A sample -/

def sampleInstantiated : Protocol where
  leaser := Storage.new 9 ⟨1, 101, 102, 103⟩
  pool := LppLedger.sampleDeposited.pool
  reserve := ⟨⟨1⟩, some 0, 50⟩
  codes := fun _ => none
  leaserAddr := 0
  poolAddr := 101
  reserveAddr := 102
  progress := .done

def sampleOpened : Protocol :=
  { sampleInstantiated with
    leaser.customerLeases := (∅ : Store Addr (Finset Addr)).insert 3 {5}
    pool := LppLedger.sampleOpened.pool
    codes := Function.update sampleInstantiated.codes 5 (some 1) }

def sampleBothOpened : Protocol :=
  { sampleOpened with
    leaser.customerLeases := ((∅ : Store Addr (Finset Addr)).insert 3 {5}).insert 4 {6}
    pool.total := ⟨200, 0, ⟨14, 200⟩, 10⟩
    pool.loans := AList.insert 6 ⟨100, 77, 10⟩ (AList.insert 5 ⟨100, 73, 10⟩ ∅)
    pool.balance := 800
    codes := Function.update sampleOpened.codes 6 (some 1) }

def sampleMigrated : Protocol :=
  { sampleBothOpened with
    leaser.config.leaseCode := 2
    pool.config.leaseCode := 2
    reserve.config.leaseCode := 2
    codes := Function.update sampleBothOpened.codes 5 (some 2)
    progress := .upTo 4 }

def sampleEvents : List (Event × HashOrder × (Addr → Bool)) :=
  [(.openLease 10 3 5 100, sortedOrder, fun _ => true),
    (.openLease 10 4 6 100, sortedOrder, fun _ => true),
    (.migrateLeases 9 2 0 1, sortedOrder, fun _ => true)]

theorem sample_page :
    LeaserMigration.execute ⟨fun _ => true, sampleBothOpened.codes⟩ sortedOrder 9
        sampleBothOpened.leaser (.migrateLeases 2 0 1) =
      .ok (⟨[.migrate 5 0 2, .lppNewLeaseCode 101 2, .reserveNewLeaseCode 102 2],
        some (.contunuationKey 4)⟩, sampleMigrated.leaser) := by
  have hrecords : records sampleBothOpened.leaser.customerLeases = [(3, {5}), (4, {6})] := rfl
  have hiter : sampleBothOpened.leaser.iter sortedOrder none =
      [.ok ⟨3, [5]⟩, .ok ⟨4, [6]⟩] := by
    simp [Storage.iter, range, hrecords, sortedOrder, pure, Except.pure]
  have hpage : migrateLeases (sampleBothOpened.leaser.iter sortedOrder none) 2 1 0 =
      .ok ⟨[.migrate 5 0 2], some 4⟩ := by
    rw [hiter]
    rfl
  simp only [LeaserMigration.execute, checkOwner, newCode, tryMigrateLeases, bind_ok, ensure_ok,
    pure_ok]
  exact ⟨(), rfl, 2, ⟨(), trivial, rfl⟩, _, hpage, rfl⟩

theorem sample_reachable : Reachable (Step fun _ => true) Instantiated sampleMigrated := by
  refine ⟨sampleInstantiated, sampleEvents, ⟨rfl, rfl, rfl, rfl, rfl, rfl, rfl⟩, ?_⟩
  have hopened : Step (fun _ => true) sampleInstantiated
      (.openLease 10 3 5 100, sortedOrder, fun _ => true) sampleOpened := ⟨trivial, rfl⟩
  have hboth : Step (fun _ => true) sampleOpened
      (.openLease 10 4 6 100, sortedOrder, fun _ => true) sampleBothOpened := ⟨trivial, rfl⟩
  have hmigrated : Step (fun _ => true) sampleBothOpened
      (.migrateLeases 9 2 0 1, sortedOrder, fun _ => true) sampleMigrated := by
    refine ⟨trivial, ?_⟩
    simp only [Protocol.handle]
    rw [sample_page]
    rfl
  exact Run.next _ _ _ [_, _] _ (Run.next _ _ _ [_] _ (run_one _ _ _ hopened) hboth) hmigrated

theorem pool_refuses (self : Pool) (now code : ℕ) (contract : Addr) (funds : List LppPool.CwCoin)
    (msg : LppPool.Msg) (hne : code ≠ self.config.leaseCode)
    (hmsg : (∃ amount, msg = .openLoan amount) ∨
      (msg = .repayLoan ∧ ∃ payment, funds = [⟨.lpn, payment⟩])) :
    self.execute now ⟨contract, some code, funds, msg⟩ =
      failing (.platform (.unexpectedCode self.config.leaseCode contract)) := by
  have hvalidate : (self.credit funds).validateLeaseAddr contract (some code) =
      failing (.platform (.unexpectedCode self.config.leaseCode contract)) := by
    rw [Pool.validateLeaseAddr]
    exact if_neg hne
  rcases hmsg with ⟨amount, rfl⟩ | ⟨rfl, payment, rfl⟩
  · simp only [Pool.execute, Pool.tryOpenLoan, hvalidate]
    rfl
  · have hpayment : LppPool.receivedOne .lpn [⟨.lpn, payment⟩] = pure payment := rfl
    simp only [Pool.execute, Pool.tryRepayLoan, hvalidate, hpayment]
    rfl

/-- However openings, finalizations, pages and closings interleave, the pool and the reserve have
the lease code of the leaser, and the leases of the customers before the next one of the migration
run it. -/
theorem migration_keeps_up (known : ℕ → Bool) (self : Protocol)
    (h : Reachable (Step known) Instantiated self) :
    self.pool.config.leaseCode = self.leaser.config.leaseCode ∧
      self.reserve.config.leaseCode = self.leaser.config.leaseCode ∧
      ∀ customer lease, self.leaser.leased customer lease → self.progress.Below customer →
        self.codes lease = some self.leaser.config.leaseCode := by
  have hc := reachable_coherent known self h
  exact ⟨hc.lppCode, hc.reserveCode, hc.behind⟩

theorem migration_keeps_up_sample :
    sampleMigrated.pool.config.leaseCode = sampleMigrated.leaser.config.leaseCode ∧
      sampleMigrated.reserve.config.leaseCode = sampleMigrated.leaser.config.leaseCode ∧
      ∀ customer lease, sampleMigrated.leaser.leased customer lease →
        sampleMigrated.progress.Below customer →
        sampleMigrated.codes lease = some sampleMigrated.leaser.config.leaseCode :=
  migration_keeps_up (fun _ => true) sampleMigrated sample_reachable

/-- A contract of another code than that of the leaser is refused by the pool, by the reserve and
by the leaser alike, each naming the code of the leaser. -/
theorem left_behind_refused (known : ℕ → Bool) (self : Protocol)
    (h : Reachable (Step known) Instantiated self) (contract : Addr) (code : ℕ)
    (hcode : self.codes contract = some code) (hne : code ≠ self.leaser.config.leaseCode) :
    (∀ now amount funds, self.pool.execute now ⟨contract, some code, funds, .openLoan amount⟩ =
        failing (.platform (.unexpectedCode self.leaser.config.leaseCode contract))) ∧
      (∀ now payment, self.pool.execute now ⟨contract, some code, [⟨.lpn, payment⟩], .repayLoan⟩ =
        failing (.platform (.unexpectedCode self.leaser.config.leaseCode contract))) ∧
      (∀ amount, ReserveContract.execute self.codes self.reserve contract
          (.coverLiquidationLosses amount) =
        failing (.platform (.unexpectedCode self.leaser.config.leaseCode contract))) ∧
      ∀ order customer, self.codes customer = none →
        LeaserMigration.execute ⟨known, self.codes⟩ order contract self.leaser
            (.finalizeLease customer) =
          failing (.platform (.unexpectedCode self.leaser.config.leaseCode contract)) := by
  have hc := reachable_coherent known self h
  have hpool : code ≠ self.pool.config.leaseCode := by rwa [hc.lppCode]
  have hreserve : code ≠ self.reserve.config.leaseCode := by rwa [hc.reserveCode]
  rw [← hc.lppCode]
  refine ⟨?_, ?_, ?_, ?_⟩
  · intro now amount funds
    exact pool_refuses self.pool now code contract funds _ hpool (.inl ⟨amount, rfl⟩)
  · intro now payment
    exact pool_refuses self.pool now code contract _ _ hpool (.inr ⟨rfl, payment, rfl⟩)
  · intro amount
    rw [hc.lppCode, ← hc.reserveCode]
    have hvalidate : ReserveContract.validateCodeId self.codes contract
        self.reserve.config.leaseCode =
          failing (.unexpectedCode self.reserve.config.leaseCode contract) := by
      rw [ReserveContract.validateCodeId, hcode]
      exact if_neg hreserve
    rw [ReserveContract.execute, hvalidate]
    rfl
  · intro order customer hcustomer
    rw [hc.lppCode]
    simp only [LeaserMigration.execute, validateCustomer, validateLease, hcode, hcustomer, ensure,
      if_neg hne]
    rfl

/-- The lease of the customer 4 is not there yet. -/
theorem left_behind_refused_sample :
    (∀ now amount funds, sampleMigrated.pool.execute now ⟨6, some 1, funds, .openLoan amount⟩ =
        failing (.platform (.unexpectedCode 2 6))) ∧
      (∀ now payment, sampleMigrated.pool.execute now ⟨6, some 1, [⟨.lpn, payment⟩], .repayLoan⟩ =
        failing (.platform (.unexpectedCode 2 6))) ∧
      (∀ amount, ReserveContract.execute sampleMigrated.codes sampleMigrated.reserve 6
          (.coverLiquidationLosses amount) = failing (.platform (.unexpectedCode 2 6))) ∧
      ∀ order customer, sampleMigrated.codes customer = none →
        LeaserMigration.execute ⟨fun _ => true, sampleMigrated.codes⟩ order 6
            sampleMigrated.leaser (.finalizeLease customer) =
          failing (.platform (.unexpectedCode 2 6)) :=
  left_behind_refused (fun _ => true) sampleMigrated sample_reachable 6 1 rfl (by decide)

end Nolus.LeaseCode
