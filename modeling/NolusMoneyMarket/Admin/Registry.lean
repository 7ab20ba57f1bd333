import NolusMoneyMarket.Admin.Contract
import NolusMoneyMarket.Base.Runs

/-! # The registry over time

The messages to the admin contract and the replies to its instantiations, in
any order. A failed message leaves no trace, thus only those that go through
are steps. While an instantiation is under way the new contract may call the
others, and these the admin contract again, so a reply belongs to the latest
of the instantiations that are still open. -/

set_option autoImplicit false

namespace Nolus.AdminRegistry
open Nolus.Fallible Nolus.KeyedStore Nolus.Runs Nolus.AccessControl Nolus.Admin
open Nolus.Versioning (ReleaseId)

variable {J N : Type} [LinearOrder N]

inductive Call (N J : Type)
  | execute (sender : Addr) (funds : List (String × ℕ)) (msg : ExecuteMsg N J)
  | sudo_ (msg : SudoMsg N J)

def Call.apply (storage : Storage N) (querier : Querier) (address : Addr) :
    Call N J → Outcome (ContractError N) (List (Message N J) × Storage N)
  | .execute sender funds msg => Admin.execute storage querier address sender funds msg
  | .sudo_ msg => Admin.sudo_ storage querier address msg

structure Request where
  number : ℕ
  expected : ExpectedInstantiation
deriving DecidableEq, Repr

/-- An instantiation whose reply has gone through, with what the reply has reported and the
number of requests up to it. -/
structure Instantiated where
  request : Request
  address : Addr
  codeId : Option CodeId
  requests : ℕ
deriving DecidableEq, Repr

structure Deregistered (N : Type) where
  sender : Addr
  record : N × Protocol

structure World (N : Type) where
  address : Addr
  storage : Storage N
  requests : ℕ
  pending : List Request
  instantiated : List Instantiated
  registered : List (N × Protocol)
  deregistered : List (Deregistered N)

namespace World

def after (w : World N) (next : Storage N) : Call N J → World N
  | .execute _ _ (.instantiate codeId expectedAddress _ _ _) =>
    { w with
      storage := next
      requests := w.requests + 1
      pending := ⟨w.requests + 1, ⟨codeId, expectedAddress⟩⟩ :: w.pending }
  | .execute _ _ (.registerProtocol name protocol) =>
    { w with storage := next, registered := w.registered ++ [(name, protocol)] }
  | .execute sender _ (.deregisterProtocol _) =>
    { w with
      storage := next
      deregistered := w.deregistered ++
        (findLeaser w.storage sender).toList.map fun record => ⟨sender, record⟩ }
  | .sudo_ (.registerProtocol name protocol) =>
    { w with storage := next, registered := w.registered ++ [(name, protocol)] }
  | .sudo_ _ => { w with storage := next }

def replied (w : World N) (next : Storage N) (querier : Querier) (instantiatedAddr : Addr)
    (request : Request) (rest : List Request) : World N :=
  { w with
    storage := next
    pending := rest
    instantiated := w.instantiated ++
      [⟨request, instantiatedAddr, querier.contractInfo instantiatedAddr, w.requests⟩] }

end World

inductive Event (N J : Type)
  | call (querier : Querier) (call : Call N J)
  | reply (querier : Querier) (instantiatedAddr : Addr)

inductive Step : World N → Event N J → World N → Prop
  | call (w : World N) (querier : Querier) (call : Call N J) (messages : List (Message N J))
      (next : Storage N) (h : call.apply w.storage querier w.address = .ok (messages, next)) :
      Step w (.call querier call) (w.after next call)
  | reply (w : World N) (querier : Querier) (instantiatedAddr : Addr) (request : Request)
      (rest : List Request) (next : Storage N) (hpending : w.pending = request :: rest)
      (h : Admin.reply w.storage querier instantiatedAddr = .ok next) :
      Step w (.reply querier instantiatedAddr) (w.replied next querier instantiatedAddr request rest)

inductive Start : World N → Prop
  | instantiated (address : Addr) (querier : Querier) (msg : InstantiateMsg N)
      (storage : Storage N) (h : Admin.instantiate querier msg = .ok storage) :
      Start ⟨address, storage, 0, [], [], records msg.contracts.protocol, []⟩

/-! ## What a call does to the storage -/

inductive Effect (storage : Storage N) : Call N J → Storage N → Prop
  | requested (sender : Addr) (funds : List (String × ℕ)) (codeId : CodeId)
      (expectedAddress : Addr) (protocol : N) (label message : String) :
      Effect storage (.execute sender funds
        (.instantiate codeId expectedAddress protocol label message))
        (storage.storeExpected ⟨codeId, expectedAddress⟩)
  | registered (call : Call N J) (name : N) (protocol : Protocol)
      (hcall : (∃ sender funds, call = .execute sender funds (.registerProtocol name protocol)) ∨
        call = .sudo_ (.registerProtocol name protocol))
      (hnew : name ∉ storage.protocolContracts) :
      Effect storage call
        { storage with protocolContracts := storage.protocolContracts.insert name protocol }
  | deregistered (sender : Addr) (funds : List (String × ℕ))
      (spec : ProtocolContracts (MigrationSpec J)) (record : N × Protocol)
      (h : findLeaser storage sender = some record) :
      Effect storage (.execute sender funds (.deregisterProtocol spec))
        (storage.removeProtocol record.1)
  | granted (user : Addr) :
      Effect storage (.sudo_ (.changeDexAdmin user)) (storage.grantTo user)
  | migrated (toRelease : ReleaseId) (spec : ContractsMigration N J) :
      Effect storage (.sudo_ (.migrateContracts toRelease spec)) storage
  | executed (messages : ContractsExecute N J) :
      Effect storage (.sudo_ (.executeContracts messages)) storage

theorem register_ok (storage next : Storage N) (querier : Querier) (name : N)
    (protocol : Protocol) (h : registerProtocol storage querier name protocol = .ok next) :
    name ∉ storage.protocolContracts ∧
      next = { storage with protocolContracts := storage.protocolContracts.insert name protocol } := by
  simp only [registerProtocol, Storage.addProtocol, bind_ok] at h
  obtain ⟨_, -, h⟩ := h
  split_ifs at h with hin
  · cases h
  · cases h
    exact ⟨hin, rfl⟩

theorem apply_effect (storage next : Storage N) (querier : Querier) (address : Addr)
    (call : Call N J) (messages : List (Message N J))
    (h : call.apply storage querier address = .ok (messages, next)) : Effect storage call next := by
  cases call with
  | execute sender funds msg =>
    cases msg with
    | instantiate codeId expectedAddress protocol label message =>
      simp only [Call.apply, Admin.execute, bind_ok, pure_ok, Prod.mk.injEq] at h
      obtain ⟨_, -, -, rfl⟩ := h
      exact .requested _ _ _ _ _ _ _
    | registerProtocol name protocol =>
      simp only [Call.apply, Admin.execute, bind_ok, pure_ok, Prod.mk.injEq] at h
      obtain ⟨_, -, _, hregister, -, rfl⟩ := h
      obtain ⟨hnew, rfl⟩ := register_ok _ _ _ _ _ hregister
      exact .registered _ name protocol (.inl ⟨sender, funds, rfl⟩) hnew
    | deregisterProtocol spec =>
      simp only [Call.apply, Admin.execute, Admin.deregisterProtocol, bind_ok, okOr_ok, pure_ok,
        Prod.mk.injEq] at h
      obtain ⟨record, hfind, _, -, -, rfl⟩ := h
      exact .deregistered _ _ _ _ hfind
  | sudo_ msg =>
    cases msg with
    | changeDexAdmin user =>
      simp only [Call.apply, Admin.sudo_, bind_ok, pure_ok, Prod.mk.injEq] at h
      obtain ⟨_, -, -, rfl⟩ := h
      exact .granted _
    | registerProtocol name protocol =>
      simp only [Call.apply, Admin.sudo_, bind_ok, pure_ok, Prod.mk.injEq] at h
      obtain ⟨_, hregister, -, rfl⟩ := h
      obtain ⟨hnew, rfl⟩ := register_ok _ _ _ _ _ hregister
      exact .registered _ name protocol (.inr rfl) hnew
    | migrateContracts toRelease spec =>
      simp only [Call.apply, Admin.sudo_, bind_ok, pure_ok, Prod.mk.injEq] at h
      obtain ⟨_, -, -, rfl⟩ := h
      exact .migrated _ _
    | executeContracts messages =>
      simp only [Call.apply, Admin.sudo_, bind_ok, pure_ok, Prod.mk.injEq] at h
      obtain ⟨_, -, -, rfl⟩ := h
      exact .executed _

/-! ## What every step keeps -/

/-- An instantiation is expected only as the latest one requested, and those done have been as
their own requests expected them, with no other request in between. -/
structure Answered (w : World N) : Prop where
  expecting : ∀ expected, w.storage.expectedInstantiation = some expected →
    ∃ rest, w.pending = ⟨w.requests, expected⟩ :: rest
  done : ∀ entry ∈ w.instantiated, entry.address = entry.request.expected.address ∧
    entry.codeId = some entry.request.expected.codeId ∧ entry.requests = entry.request.number

theorem effect_answered (w : World N) (call : Call N J) (next : Storage N)
    (h : Effect w.storage call next) (hw : Answered w) : Answered (w.after next call) := by
  have hkept (expected : ExpectedInstantiation)
      (hsame : w.storage.expectedInstantiation = some expected) := hw.expecting expected hsame
  cases h with
  | requested sender funds codeId expectedAddress protocol label message =>
    refine ⟨fun expected hsome => ?_, hw.done⟩
    cases hsome
    exact ⟨w.pending, rfl⟩
  | registered _ name protocol hcall hnew =>
    obtain ⟨sender, funds, rfl⟩ | rfl := hcall <;> exact ⟨hkept, hw.done⟩
  | deregistered sender funds spec record hfind => exact ⟨hkept, hw.done⟩
  | granted user => exact ⟨hkept, hw.done⟩
  | migrated toRelease spec => exact ⟨hkept, hw.done⟩
  | executed messages => exact ⟨hkept, hw.done⟩

omit [LinearOrder N] in
theorem reply_ok (storage next : Storage N) (querier : Querier) (instantiatedAddr : Addr)
    (h : Admin.reply storage querier instantiatedAddr = .ok next) :
    ∃ expected, storage.expectedInstantiation = some expected ∧
      instantiatedAddr = expected.address ∧
      querier.contractInfo instantiatedAddr = some expected.codeId ∧
      next = storage.clearExpected := by
  simp only [Admin.reply, Storage.loadExpected, instantiateReply, bind_ok, okOr_ok, ensure_ok,
    pure_ok] at h
  obtain ⟨expected, hexpected, -, ⟨-, haddress, codeId, hinfo, hcode⟩, rfl⟩ := h
  exact ⟨expected, hexpected, haddress, hcode ▸ hinfo, rfl⟩

theorem step_answered (w : World N) (event : Event N J) (w' : World N) (h : Step w event w')
    (hw : Answered w) : Answered w' := by
  cases h with
  | call querier call messages next h =>
    exact effect_answered w call next (apply_effect _ _ _ _ _ _ h) hw
  | reply querier instantiatedAddr request rest next hpending h =>
    obtain ⟨expected, hexpected, haddress, hinfo, rfl⟩ := reply_ok _ _ _ _ h
    obtain ⟨others, hothers⟩ := hw.expecting expected hexpected
    rw [hpending, List.cons.injEq] at hothers
    obtain ⟨rfl, -⟩ := hothers
    refine ⟨by simp [World.replied, Storage.clearExpected], fun entry hentry => ?_⟩
    rcases List.mem_append.1 hentry with hold | hnew
    · exact hw.done entry hold
    · obtain rfl := List.mem_singleton.1 hnew
      exact ⟨haddress, hinfo, rfl⟩

/-- Every protocol registered so far is registered still or has been deregistered once, by its
own leaser. -/
structure Conserved (w : World N) : Prop where
  conserved : w.registered.Perm
    (w.deregistered.map Deregistered.record ++ records w.storage.protocolContracts)
  leasers : ∀ entry ∈ w.deregistered, entry.record.2.contracts.leaser = entry.sender

theorem findLeaser_some (storage : Storage N) (sender : Addr) (record : N × Protocol)
    (h : findLeaser storage sender = some record) :
    storage.protocolContracts.lookup record.1 = some record.2 ∧
      record.2.contracts.leaser = sender := by
  refine ⟨(mem_records _ _ _).1 (List.mem_of_find?_eq_some h), ?_⟩
  simpa using List.find?_some h

theorem registered_conserved (w : World N) (name : N) (protocol : Protocol)
    (hnew : name ∉ w.storage.protocolContracts) (hw : Conserved w) :
    (w.registered ++ [(name, protocol)]).Perm (w.deregistered.map Deregistered.record ++
      records (w.storage.protocolContracts.insert name protocol)) := by
  refine (hw.conserved.append_right _).trans ?_
  rw [List.append_assoc]
  refine List.Perm.append_left _ (List.Perm.trans ?_ (records_insert _ _ _ hnew).symm)
  exact List.perm_append_singleton _ _

theorem effect_conserved (w : World N) (call : Call N J) (next : Storage N)
    (h : Effect w.storage call next) (hw : Conserved w) : Conserved (w.after next call) := by
  cases h with
  | requested sender funds codeId expectedAddress protocol label message =>
    exact ⟨hw.conserved, hw.leasers⟩
  | registered _ name protocol hcall hnew =>
    obtain ⟨sender, funds, rfl⟩ | rfl := hcall <;>
      exact ⟨registered_conserved w name protocol hnew hw, hw.leasers⟩
  | deregistered sender funds spec record hfind =>
    obtain ⟨hlookup, hleaser⟩ := findLeaser_some _ _ _ hfind
    constructor
    · simp only [World.after, hfind, Option.toList_some, List.map_cons, List.map_nil,
        List.map_append, List.append_assoc]
      refine hw.conserved.trans (List.Perm.append_left _ ?_)
      exact records_erase _ _ _ hlookup
    · intro entry hentry
      simp only [World.after, hfind, Option.toList_some, List.map_cons, List.map_nil,
        List.mem_append, List.mem_singleton] at hentry
      rcases hentry with hold | rfl
      · exact hw.leasers entry hold
      · exact hleaser
  | granted user => exact ⟨hw.conserved, hw.leasers⟩
  | migrated toRelease spec => exact ⟨hw.conserved, hw.leasers⟩
  | executed messages => exact ⟨hw.conserved, hw.leasers⟩

theorem step_conserved (w : World N) (event : Event N J) (w' : World N) (h : Step w event w')
    (hw : Conserved w) : Conserved w' := by
  cases h with
  | call querier call messages next h =>
    exact effect_conserved w call next (apply_effect _ _ _ _ _ _ h) hw
  | reply querier instantiatedAddr request rest next hpending h =>
    obtain ⟨_, -, -, -, rfl⟩ := reply_ok _ _ _ _ h
    exact ⟨hw.conserved, hw.leasers⟩

/-- The contracts of a name do not change as long as it is registered. -/
theorem step_unchanged (w : World N) (event : Event N J) (w' : World N) (h : Step w event w')
    (name : N) (old new : Protocol) (hold : w.storage.protocolContracts.lookup name = some old)
    (hnew : w'.storage.protocolContracts.lookup name = some new) : old = new := by
  have hsame (hlookup : w.storage.protocolContracts.lookup name = some new) : old = new := by
    rw [hold] at hlookup
    exact Option.some.inj hlookup
  cases h with
  | reply querier instantiatedAddr request rest next hpending h =>
    obtain ⟨_, -, -, -, rfl⟩ := reply_ok _ _ _ _ h
    exact hsame hnew
  | call querier call messages next h =>
    cases apply_effect _ _ _ _ _ _ h with
    | requested sender funds codeId expectedAddress protocol label message => exact hsame hnew
    | registered _ added protocol hcall habsent =>
      have hne : name ≠ added := by
        rintro rfl
        rw [AList.lookup_eq_none.2 habsent] at hold
        cases hold
      apply hsame
      obtain ⟨sender, funds, rfl⟩ | rfl := hcall <;>
        rwa [World.after, AList.lookup_insert_ne hne] at hnew
    | deregistered sender funds spec record hfind =>
      apply hsame
      by_cases hname : name = record.1
      · rw [hname, World.after, Storage.removeProtocol, AList.lookup_erase] at hnew
        cases hnew
      · rwa [World.after, Storage.removeProtocol, AList.lookup_erase_ne hname] at hnew
    | granted user => exact hsame hnew
    | migrated toRelease spec => exact hsame hnew
    | executed messages => exact hsame hnew

/-! ## Every run -/

theorem start_storage (querier : Querier) (msg : InstantiateMsg N) (storage : Storage N)
    (h : Admin.instantiate querier msg = .ok storage) :
    storage.expectedInstantiation = none ∧ storage.protocolContracts = msg.contracts.protocol := by
  simp only [Admin.instantiate, bind_ok, pure_ok] at h
  obtain ⟨_, -, rfl⟩ := h
  exact ⟨rfl, rfl⟩

theorem start_answered (w : World N) (h : Start w) : Answered w := by
  obtain ⟨address, querier, msg, storage, hstart⟩ := h
  obtain ⟨hexpected, -⟩ := start_storage querier msg storage hstart
  constructor
  · intro expected hsome
    rw [hexpected] at hsome
    cases hsome
  · intro entry hentry
    cases hentry

theorem start_conserved (w : World N) (h : Start w) : Conserved w := by
  obtain ⟨address, querier, msg, storage, hstart⟩ := h
  obtain ⟨-, hprotocols⟩ := start_storage querier msg storage hstart
  constructor
  · simp [hprotocols]
  · intro entry hentry
    cases hentry

/-- Whatever the calls made while an instantiation is under way, a reply goes through only for the
address and the code of its own request, and only if no other request has been made since. -/
theorem instantiations_answered (w : World N)
    (h : Reachable (Step (J := J)) Start w) :
    (∀ entry ∈ w.instantiated, entry.address = entry.request.expected.address ∧
      entry.codeId = some entry.request.expected.codeId ∧
      entry.requests = entry.request.number) ∧
    ∀ querier instantiatedAddr w', Step (J := J) w (.reply querier instantiatedAddr) w' →
      ∃ request rest, w.pending = request :: rest ∧ request.number = w.requests ∧
        w'.pending = rest ∧ w'.storage.expectedInstantiation = none := by
  have hw := reachable_induction _ Answered start_answered step_answered w h
  refine ⟨hw.done, fun querier instantiatedAddr w' hstep => ?_⟩
  cases hstep with
  | reply _ _ request rest next hpending hreply =>
    obtain ⟨expected, hexpected, -, -, rfl⟩ := reply_ok _ _ _ _ hreply
    obtain ⟨others, hothers⟩ := hw.expecting expected hexpected
    rw [hpending, List.cons.injEq] at hothers
    exact ⟨request, rest, hpending, by rw [hothers.1], rfl, rfl⟩

/-- The registry holds what has been registered less what its leasers have deregistered, and no
name in it is given other contracts. -/
theorem registry_conserved (w : World N) (h : Reachable (Step (J := J)) Start w) :
    w.registered.Perm
      (w.deregistered.map Deregistered.record ++ records w.storage.protocolContracts) ∧
    (∀ entry ∈ w.deregistered, entry.record.2.contracts.leaser = entry.sender) ∧
    ∀ (event : Event N J) (w' : World N), Step w event w' → ∀ name old new,
      w.storage.protocolContracts.lookup name = some old →
      w'.storage.protocolContracts.lookup name = some new → old = new := by
  have hw := reachable_induction _ Conserved start_conserved step_conserved w h
  exact ⟨hw.conserved, hw.leasers, step_unchanged w⟩

def sampleChain : Querier where
  isAddress := fun _ => true
  contractInfo := fun contract => if contract < 100 then some (contract + 200) else none

def sampleContracts : Contracts ℕ := ⟨⟨11, 12⟩, ∅⟩

def sampleProtocol : Protocol := ⟨.neutron, .osmosis, ⟨21, 22, 23, 24, 25⟩⟩

def sampleSpec : ProtocolContracts (MigrationSpec ℕ) :=
  ⟨⟨9, 0, none⟩, ⟨9, 0, none⟩, ⟨9, 0, none⟩, ⟨9, 0, none⟩, ⟨9, 0, none⟩⟩

def sampleStorage : Storage ℕ := ⟨some 14, some sampleContracts.platform, ∅, none⟩

def sampleStarted : World ℕ := ⟨13, sampleStorage, 0, [], [], [], []⟩

def sampleRequested : World ℕ :=
  { sampleStarted with
    storage := sampleStorage.storeExpected ⟨221, 21⟩
    requests := 1
    pending := [⟨1, ⟨221, 21⟩⟩] }

def sampleReplied : World ℕ :=
  { sampleStarted with
    requests := 1
    instantiated := [⟨⟨1, ⟨221, 21⟩⟩, 21, some 221, 1⟩] }

def sampleRegistered : World ℕ :=
  { sampleReplied with
    storage := { sampleStorage with protocolContracts := AList.singleton 7 sampleProtocol }
    registered := [(7, sampleProtocol)] }

def sampleDeregistered : World ℕ :=
  { sampleRegistered with
    storage := sampleStorage
    deregistered := [⟨21, (7, sampleProtocol)⟩] }

theorem sample_started : Start sampleStarted :=
  .instantiated 13 sampleChain ⟨14, sampleContracts⟩ sampleStorage rfl

theorem requested_reachable : Reachable (@Step ℕ ℕ _) Start sampleRequested :=
  ⟨sampleStarted, _, sample_started, run_one _ _ _
    (.call _ sampleChain (.execute 14 [] (.instantiate 221 21 7 "leaser" "msg")) _ _ rfl)⟩

theorem deregistered_reachable : Reachable (@Step ℕ ℕ _) Start sampleDeregistered := by
  obtain ⟨start, ops, hstart, hrun⟩ := requested_reachable
  refine ⟨start, _, hstart, Run.next _ sampleRegistered _ _ _ (Run.next _ sampleReplied _ _ _
    (Run.next _ sampleRequested _ _ _ hrun (.reply _ sampleChain 21 _ _ _ rfl rfl))
    (.call _ sampleChain (.execute 14 [] (.registerProtocol 7 sampleProtocol)) _ _ rfl))
    (.call _ sampleChain (.execute 21 [] (.deregisterProtocol sampleSpec)) _ _ rfl)⟩

theorem instantiations_answered_sample :
    (∀ entry ∈ sampleDeregistered.instantiated,
      entry.address = entry.request.expected.address ∧
      entry.codeId = some entry.request.expected.codeId ∧
      entry.requests = entry.request.number) ∧
    ∀ querier instantiatedAddr w',
      Step (J := ℕ) sampleDeregistered (.reply querier instantiatedAddr) w' →
      ∃ request rest, sampleDeregistered.pending = request :: rest ∧
        request.number = sampleDeregistered.requests ∧ w'.pending = rest ∧
        w'.storage.expectedInstantiation = none :=
  instantiations_answered sampleDeregistered deregistered_reachable

theorem registry_conserved_sample :
    sampleDeregistered.registered.Perm
      (sampleDeregistered.deregistered.map Deregistered.record ++
        records sampleDeregistered.storage.protocolContracts) ∧
    (∀ entry ∈ sampleDeregistered.deregistered,
      entry.record.2.contracts.leaser = entry.sender) ∧
    ∀ (event : Event ℕ ℕ) (w' : World ℕ), Step sampleDeregistered event w' → ∀ name old new,
      sampleDeregistered.storage.protocolContracts.lookup name = some old →
      w'.storage.protocolContracts.lookup name = some new → old = new :=
  registry_conserved sampleDeregistered deregistered_reachable

end Nolus.AdminRegistry
