import NolusMoneyMarket.Leaser.Migrate

/-! # Pages of a migration

The pages of a migration are sent one after the other, each from the key the
previous one has returned. Together they cover the records of the customers in
their order, a record always within a single page. A key is taken for a valid
one unless it is of a smart contract, and a customer may well be one. -/

set_option autoImplicit false

namespace Nolus.LeaserPages
open Nolus.Fallible Nolus.KeyedStore Nolus.LeaserLeases Nolus.LeaserMigration

abbrev Record : Type := Addr × Finset Addr

/-- How a page is sent, and the order the leases of its customers come in. -/
structure Page where
  maxLeases : ℕ
  order : HashOrder

def contPages (querier : Querier) (sender : Addr) (toRelease : ℕ) :
    List Page → Option Status → Storage → Outcome Error (List Response)
  | page :: pages, some (.contunuationKey key), self => do
    let (response, next) ← execute querier page.order sender self
      (.migrateLeasesCont key toRelease page.maxLeases)
    let responses ← contPages querier sender toRelease pages response.status next
    pure (response :: responses)
  | _, _, _ => pure []

def migratePages (querier : Querier) (sender : Addr) (newCodeId toRelease : ℕ) :
    List Page → Storage → Outcome Error (List Response)
  | page :: pages, self => do
    let (response, next) ← execute querier page.order sender self
      (.migrateLeases newCodeId toRelease page.maxLeases)
    let responses ← contPages querier sender toRelease pages response.status next
    pure (response :: responses)
  | [], _ => pure []

def stored (records : List Record) : Multiset Addr := (records.map fun r => r.2.val).sum

def size (records : List Record) : ℕ := (records.map fun r => r.2.card).sum

def isMigration : Msg → Bool
  | .migrate _ _ _ => true
  | _ => false

def migrations (msgs : Batch) : Batch := msgs.filter isMigration

theorem stored_cons (r : Record) (records : List Record) :
    stored (r :: records) = r.2.val + stored records := by
  simp [stored]

theorem stored_append (chunk rest : List Record) :
    stored (chunk ++ rest) = stored chunk + stored rest := by
  simp [stored]

theorem card_stored (records : List Record) : (stored records).card = size records := by
  induction records with
  | nil => rfl
  | cons r records ih =>
    rw [stored_cons, Multiset.card_add, ih]
    rfl

theorem migrations_append (msgs rest : Batch) :
    migrations (msgs ++ rest) = migrations msgs ++ migrations rest := List.filter_append ..

/-! ## A page -/

def leasesOf (order : HashOrder) (records : List Record) : List Addr :=
  records.flatMap fun r => order.intoIter r.2

theorem leasesOf_coe (order : HashOrder) (records : List Record) :
    (leasesOf order records : Multiset Addr) = stored records := by
  induction records with
  | nil => rfl
  | cons r records ih =>
    rw [stored_cons, ← ih, ← intoIter_coe order, Multiset.coe_add]
    rfl

def toMigrate (toRelease newCode : ℕ) (leases : List Addr) : Batch :=
  leases.map fun lease => .migrate lease toRelease newCode

def MigrateBatch.filled (self : MigrateBatch) (order : HashOrder) (toRelease : ℕ)
    (chunk : List Record) : MigrateBatch :=
  { self with
    leasesLeft := self.leasesLeft - size chunk
    msgs := self.msgs ++ toMigrate toRelease self.newCode (leasesOf order chunk) }

def customerOf (order : HashOrder) (r : Record) : Customer := ⟨r.1, order.intoIter r.2⟩

theorem migrateOrBeNext_fits (self : MigrateBatch) (order : HashOrder) (toRelease : ℕ) (r : Record)
    (hbits : r.2.card < 2 ^ maxLeasesBits) (h : r.2.card ≤ self.leasesLeft) :
    self.migrateOrBeNext (customerOf order r) toRelease =
      (none, MigrateBatch.filled self order toRelease [r]) := by
  have hlen : (customerOf order r).leases.length = r.2.card := intoIter_length order r.2
  simp only [MigrateBatch.migrateOrBeNext, MigrateBatch.migrateLeases]
  rw [hlen, if_pos hbits, (checkedSub_some _ _ _).2 ⟨h, rfl⟩]
  simp [MigrateBatch.filled, size, leasesOf, toMigrate, customerOf]

theorem migrateOrBeNext_next (self : MigrateBatch) (order : HashOrder) (toRelease : ℕ) (r : Record)
    (hbits : r.2.card < 2 ^ maxLeasesBits) (h : self.leasesLeft < r.2.card) :
    self.migrateOrBeNext (customerOf order r) toRelease = (some (pure r.1), self) := by
  have hlen : (customerOf order r).leases.length = r.2.card := intoIter_length order r.2
  have hnone : checkedSub self.leasesLeft r.2.card = none := by
    rw [checkedSub, if_neg (by omega)]
  simp only [MigrateBatch.migrateOrBeNext, MigrateBatch.migrateLeases]
  rw [hlen, if_pos hbits, hnone]
  rfl

theorem findNext_migrated (self batch : MigrateBatch) (toRelease : ℕ) (customer : Customer)
    (customers : List (Outcome Error Customer))
    (h : self.migrateOrBeNext customer toRelease = (none, batch)) :
    self.findNext toRelease (pure customer :: customers) = batch.findNext toRelease customers := by
  simp only [pure, Except.pure, MigrateBatch.findNext, h]

theorem findNext_next (self batch : MigrateBatch) (toRelease : ℕ) (customer : Customer)
    (customers : List (Outcome Error Customer)) (next : Outcome Error Addr)
    (h : self.migrateOrBeNext customer toRelease = (some next, batch)) :
    self.findNext toRelease (pure customer :: customers) = (some next, batch) := by
  simp only [pure, Except.pure, MigrateBatch.findNext, h]

theorem filled_nothing (self : MigrateBatch) (order : HashOrder) (toRelease : ℕ) :
    MigrateBatch.filled self order toRelease [] = self := by
  simp [MigrateBatch.filled, size, leasesOf, toMigrate]

theorem filled_cons (self : MigrateBatch) (order : HashOrder) (toRelease : ℕ) (r : Record)
    (chunk : List Record) :
    MigrateBatch.filled (MigrateBatch.filled self order toRelease [r]) order toRelease chunk =
      MigrateBatch.filled self order toRelease (r :: chunk) := by
  simp [MigrateBatch.filled, size, leasesOf, toMigrate, Nat.sub_sub]

/-- A page takes as many customers as there is room for the leases of. -/
structure Fills (room : ℕ) (chunk rest : List Record) : Prop where
  within : size chunk ≤ room
  next : ∀ r ∈ rest.head?, room < size chunk + r.2.card

/-- The batch takes the leases of whole customers as long as there is room for them. -/
theorem findNext_records (order : HashOrder) (toRelease : ℕ) (records : List Record)
    (self : MigrateBatch) (hbits : ∀ r ∈ records, r.2.card < 2 ^ maxLeasesBits) :
    ∃ chunk rest, records = chunk ++ rest ∧ Fills self.leasesLeft chunk rest ∧
      self.findNext toRelease (records.map fun r => pure (customerOf order r)) =
        (rest.head?.map fun r => pure r.1, MigrateBatch.filled self order toRelease chunk) := by
  induction records generalizing self with
  | nil => exact ⟨[], [], rfl, ⟨Nat.zero_le _, by simp⟩, by rw [filled_nothing]; rfl⟩
  | cons r records ih =>
    have hr := hbits r List.mem_cons_self
    by_cases hfits : r.2.card ≤ self.leasesLeft
    · have hroom : (MigrateBatch.filled self order toRelease [r]).leasesLeft =
          self.leasesLeft - r.2.card := by simp [MigrateBatch.filled, size]
      obtain ⟨chunk, rest, hsplit, ⟨hsize, hnext⟩, hfind⟩ :=
        ih (MigrateBatch.filled self order toRelease [r])
          fun r' h => hbits r' (List.mem_cons_of_mem _ h)
      rw [hroom] at hsize hnext
      have hcons : size (r :: chunk) = r.2.card + size chunk := by simp [size]
      refine ⟨r :: chunk, rest, by rw [hsplit, List.cons_append], ⟨by omega, ?_⟩, ?_⟩
      · intro r' hr'
        have hlt := hnext r' hr'
        omega
      · rw [← filled_cons, ← hfind, List.map_cons]
        exact findNext_migrated self _ toRelease _ _
          (migrateOrBeNext_fits self order toRelease r hr hfits)
    · refine ⟨[], r :: records, rfl, ⟨Nat.zero_le _, ?_⟩, ?_⟩
      · rintro _ ⟨⟩
        simpa [size] using hfits
      · rw [filled_nothing, List.map_cons]
        exact findNext_next self _ toRelease _ _ _
          (migrateOrBeNext_next self order toRelease r hr (by omega))

structure Migrates (toRelease newCode limit : ℕ) (chunk : List Record) (msgs : Batch) : Prop where
  leases : (migrations msgs : Multiset Msg) =
    (stored chunk).map fun lease => .migrate lease toRelease newCode
  within : (migrations msgs).length ≤ limit

theorem migrations_toMigrate (toRelease newCode : ℕ) (leases : List Addr) :
    migrations (toMigrate toRelease newCode leases) = toMigrate toRelease newCode leases := by
  rw [migrations, List.filter_eq_self]
  intro msg hmsg
  obtain ⟨lease, -, rfl⟩ := List.mem_map.1 hmsg
  rfl

theorem migrates_chunk (order : HashOrder) (toRelease newCode limit : ℕ) (chunk : List Record)
    (h : size chunk ≤ limit) :
    Migrates toRelease newCode limit chunk
      (toMigrate toRelease newCode (leasesOf order chunk)) where
  leases := by
    rw [migrations_toMigrate, toMigrate, ← Multiset.map_coe, leasesOf_coe]
  within := by
    rw [migrations_toMigrate, toMigrate, List.length_map, ← Multiset.coe_card, leasesOf_coe,
      card_stored]
    exact h

theorem migrateLeases_records (order : HashOrder) (leaseCode limit toRelease : ℕ)
    (records : List Record) (hbits : limit < 2 ^ maxLeasesBits)
    (hlimit : ∀ r ∈ records, r.2.card ≤ limit) :
    ∃ chunk rest result, records = chunk ++ rest ∧ Fills limit chunk rest ∧
      migrateLeases (records.map fun r => pure (customerOf order r)) leaseCode limit toRelease =
        .ok result ∧
      result.nextCustomer = rest.head?.map Prod.fst ∧
      Migrates toRelease leaseCode limit chunk result.msgs := by
  obtain ⟨chunk, rest, hsplit, hfills, hfind⟩ :=
    findNext_records order toRelease records (.new leaseCode limit)
      fun r h => lt_of_le_of_lt (hlimit r h) hbits
  have hmsgs := migrates_chunk order toRelease leaseCode limit chunk hfills.within
  refine ⟨chunk, rest, ⟨toMigrate toRelease leaseCode (leasesOf order chunk),
    rest.head?.map Prod.fst⟩, hsplit, hfills, ?_, rfl, hmsgs⟩
  rw [migrateLeases, hfind]
  cases rest with
  | nil => rfl
  | cons r rest => rfl

theorem fills_some (room : ℕ) (chunk rest : List Record) (h : Fills room chunk rest)
    (hroom : ∀ r ∈ rest, r.2.card ≤ room) (hnil : chunk = []) : rest = [] := by
  subst hnil
  cases rest with
  | nil => rfl
  | cons r rest =>
    have hnext := h.next r rfl
    have hfits := hroom r List.mem_cons_self
    simp only [size, List.map_nil, List.sum_nil] at hnext
    omega

/-! ## The keys -/

/-- The customers there is no room for in their turn, with so much of it left in the current
page. -/
def stops : (ℕ → Page) → ℕ → List Record → List Addr
  | _, _, [] => []
  | pages, room, r :: records =>
    if r.2.card ≤ room then stops pages (room - r.2.card) records
    else r.1 :: stops (fun i => pages (i + 1)) ((pages 0).maxLeases - r.2.card) records

/-- The customers that the pages past the first one start from. -/
def keys (pages : ℕ → Page) (records : List Record) : List Addr :=
  stops (fun i => pages (i + 1)) (pages 0).maxLeases records

def starts (pages : ℕ → Page) : List Record → List Addr
  | [] => []
  | r :: records => r.1 :: keys pages (r :: records)

theorem stops_filled (pages : ℕ → Page) (room : ℕ) (chunk rest : List Record)
    (h : Fills room chunk rest) (hroom : ∀ r ∈ rest, r.2.card ≤ (pages 0).maxLeases) :
    stops pages room (chunk ++ rest) = starts pages rest := by
  induction chunk generalizing room with
  | nil =>
    cases rest with
    | nil => rfl
    | cons r rest =>
      have hnext := h.next r rfl
      have hfits := hroom r List.mem_cons_self
      simp only [size, List.map_nil, List.sum_nil] at hnext
      rw [List.nil_append, stops, if_neg (by omega), starts, keys, stops, if_pos hfits]
  | cons r chunk ih =>
    have hcons : size (r :: chunk) = r.2.card + size chunk := by simp [size]
    have hwithin := h.within
    rw [List.cons_append, stops, if_pos (by omega)]
    apply ih
    constructor
    · omega
    · intro r' hr'
      have hnext := h.next r' hr'
      omega

/-! ## A run of pages -/

/-- The customers are covered page by page up to what is left. A page takes whole customers,
and its key is the first customer after them. -/
inductive Covers (toRelease newCode : ℕ) :
    List Record → List Page → List Response → List Record → Prop
  | stop (records : List Record) (pages : List Page) :
      Covers toRelease newCode records pages [] records
  | page (chunk rest left : List Record) (page : Page) (pages : List Page) (response : Response)
      (responses : List Response) :
      Migrates toRelease newCode page.maxLeases chunk response.messages →
      response.status = some (emitStatus (rest.head?.map Prod.fst)) →
      Covers toRelease newCode rest pages responses left →
      Covers toRelease newCode (chunk ++ rest) (page :: pages) (response :: responses) left

theorem covers_migrations (toRelease newCode : ℕ) (records left : List Record)
    (pages : List Page) (responses : List Response)
    (h : Covers toRelease newCode records pages responses left) :
    (responses.flatMap fun r => migrations r.messages : Multiset Msg) +
        (stored left).map (fun lease => .migrate lease toRelease newCode) =
      (stored records).map fun lease => .migrate lease toRelease newCode := by
  induction h with
  | stop records pages => exact zero_add _
  | page chunk rest left page pages response responses hpage _ _ ih =>
    rw [List.flatMap_cons, ← Multiset.coe_add, add_assoc, ih, hpage.leases, stored_append,
      Multiset.map_add]

theorem covers_status (toRelease newCode : ℕ) (records left : List Record) (pages : List Page)
    (responses : List Response) (h : Covers toRelease newCode records pages responses left)
    (hsome : responses ≠ []) :
    ∃ last, responses.getLast? = some last ∧
      last.status = some (emitStatus (left.head?.map Prod.fst)) := by
  induction h with
  | stop _ _ => exact absurd rfl hsome
  | page chunk rest left page pages response responses _ hstatus hrest ih =>
    cases hrest with
    | stop _ _ => exact ⟨response, rfl, hstatus⟩
    | page chunk' rest' _ page' pages' response' responses' _ _ _ =>
      obtain ⟨last, hlast, hdone⟩ := ih (List.cons_ne_nil _ _)
      exact ⟨last, by rw [List.getLast?_cons_cons]; exact hlast, hdone⟩

theorem iter_from (self : Storage) (order : HashOrder) (before rest : List Record) (r : Record)
    (h : records self.customerLeases = before ++ r :: rest) :
    self.iter order (some r.1) = (r :: rest).map fun r => pure (customerOf order r) := by
  rw [Storage.iter, range_from _ before rest r h]
  rfl

/-- What the pages rely on: they are sent by the owner, and there is room in a page for any
customer. -/
structure Pageable (sender : Addr) (storage : Storage) (pages : ℕ → Page) : Prop where
  owner : storage.owner = sender
  fits : ∀ i, (pages i).maxLeases < 2 ^ maxLeasesBits
  room : ∀ i, ∀ r ∈ records storage.customerLeases, r.2.card ≤ (pages i).maxLeases

theorem pageable_coded (sender : Addr) (storage : Storage) (pages : ℕ → Page) (code : ℕ)
    (h : Pageable sender storage pages) :
    Pageable sender { storage with config.leaseCode := code } pages := ⟨h.owner, h.fits, h.room⟩

theorem pageable_next (sender : Addr) (storage : Storage) (pages : ℕ → Page)
    (h : Pageable sender storage pages) : Pageable sender storage fun i => pages (i + 1) :=
  ⟨h.owner, fun i => h.fits (i + 1), fun i => h.room (i + 1)⟩

def firstPages (n : ℕ) (pages : ℕ → Page) : List Page := (List.range n).map pages

theorem firstPages_succ (n : ℕ) (pages : ℕ → Page) :
    firstPages (n + 1) pages = pages 0 :: firstPages n fun i => pages (i + 1) := by
  rw [firstPages, List.range_succ_eq_map, List.map_cons, List.map_map]
  rfl

section Continued

variable (querier : Querier) (sender : Addr) (toRelease : ℕ) (self : Storage)

theorem cont_page (pages : ℕ → Page) (before rest : List Record) (r : Record)
    (hp : Pageable sender self pages) (h : records self.customerLeases = before ++ r :: rest)
    (hkey : querier.codeOf r.1 = none) :
    ∃ chunk rest' response, r :: rest = chunk ++ rest' ∧ chunk ≠ [] ∧
      keys pages (r :: rest) = starts (fun i => pages (i + 1)) rest' ∧
      execute querier (pages 0).order sender self
        (.migrateLeasesCont r.1 toRelease (pages 0).maxLeases) = .ok (response, self) ∧
      response.status = some (emitStatus (rest'.head?.map Prod.fst)) ∧
      Migrates toRelease self.config.leaseCode (pages 0).maxLeases chunk response.messages := by
  have hroom : ∀ i, ∀ r' ∈ r :: rest, r'.2.card ≤ (pages i).maxLeases := by
    intro i r' hr'
    apply hp.room i
    rw [h]
    exact List.mem_append_right _ hr'
  obtain ⟨chunk, rest', result, hsplit, hfills, hresult, hnext, hmigrates⟩ :=
    migrateLeases_records (pages 0).order self.config.leaseCode (pages 0).maxLeases toRelease
      (r :: rest) (hp.fits 0) (hroom 0)
  have hleft : ∀ r' ∈ rest', r' ∈ r :: rest := by
    intro r' hr'
    rw [hsplit]
    exact List.mem_append_right _ hr'
  refine ⟨chunk, rest', ⟨result.msgs, emitStatus result.nextCustomer⟩, hsplit, ?_, ?_, ?_,
    by rw [hnext], hmigrates⟩
  · intro hnil
    rw [hnil, fills_some _ _ _ hfills (fun r' hr' => hroom 0 r' (hleft r' hr')) hnil] at hsplit
    cases hsplit
  · rw [hsplit]
    exact stops_filled _ _ _ _ hfills fun r' hr' => hroom 1 r' (hleft r' hr')
  · rw [← iter_from self (pages 0).order before rest r h] at hresult
    simp only [execute, checkOwner, validateCustomer, tryMigrateLeasesCont, bind_ok, ensure_ok,
      pure_ok]
    exact ⟨(), hp.owner, r.1, ⟨(), hkey, rfl⟩, result, hresult, rfl⟩

theorem cont_refused (order : HashOrder) (key : Addr) (maxLeases : ℕ)
    (hkey : querier.codeOf key ≠ none) (responded : Response × Storage) :
    execute querier order sender self (.migrateLeasesCont key toRelease maxLeases) ≠
      .ok responded := by
  intro h
  simp only [execute, validateCustomer, bind_ok, ensure_ok, pure_ok] at h
  obtain ⟨_, -, _, ⟨_, hnone, -⟩, -⟩ := h
  exact hkey hnone

theorem cont_pages (n : ℕ) (pages : ℕ → Page) (before rest : List Record)
    (hp : Pageable sender self pages) (h : records self.customerLeases = before ++ rest)
    (hkeys : ∀ key ∈ starts pages rest, querier.codeOf key = none) :
    ∃ responses left, contPages querier sender toRelease (firstPages n pages)
        (some (emitStatus (rest.head?.map Prod.fst))) self = .ok responses ∧
      Covers toRelease self.config.leaseCode rest (firstPages n pages) responses left ∧
      (rest.length ≤ n → left = []) := by
  induction n generalizing pages before rest with
  | zero =>
    refine ⟨[], rest, by cases rest <;> rfl, .stop rest [], ?_⟩
    exact fun hlen => List.length_eq_zero_iff.1 (Nat.le_zero.1 hlen)
  | succ n ih =>
    rw [firstPages_succ]
    cases rest with
    | nil => exact ⟨[], [], rfl, .stop [] _, fun _ => rfl⟩
    | cons r rest =>
      obtain ⟨chunk, rest', response, hsplit, hchunk, hnext, hexecute, hstatus, hmigrates⟩ :=
        cont_page querier sender toRelease self pages before rest r hp h
          (hkeys r.1 List.mem_cons_self)
      rw [starts, hnext] at hkeys
      rw [hsplit, ← List.append_assoc] at h
      obtain ⟨responses, left, hrun, hcovers, hleft⟩ := ih (fun i => pages (i + 1))
        (before ++ chunk) rest' (pageable_next _ _ _ hp) h
        fun key hkey => hkeys key (List.mem_cons_of_mem _ hkey)
      rw [← hstatus] at hrun
      refine ⟨response :: responses, left, ?_, ?_, ?_⟩
      · simp only [List.head?_cons, Option.map_some, emitStatus, contPages, bind_ok, pure_ok]
        exact ⟨(response, self), hexecute, responses, hrun, rfl⟩
      · rw [hsplit]
        exact .page chunk rest' left (pages 0) _ response responses hmigrates hstatus hcovers
      · intro hlen
        apply hleft
        have hpos := List.length_pos_of_ne_nil hchunk
        rw [hsplit] at hlen
        rw [List.length_append] at hlen
        omega

def Done (responses : List Response) : Prop :=
  ∃ last, responses.getLast? = some last ∧ last.status = some .done

theorem done_rest (response : Response) (responses : List Response) (rest : List Record)
    (hstatus : response.status = some (emitStatus (rest.head?.map Prod.fst)))
    (h : Done (response :: responses)) (hrest : rest ≠ []) : Done responses := by
  obtain ⟨last, hlast, hdone⟩ := h
  cases responses with
  | nil =>
    cases rest with
    | nil => exact absurd rfl hrest
    | cons r rest =>
      have heq : response = last := Option.some.inj hlast
      rw [← heq, hstatus] at hdone
      cases hdone
  | cons next responses =>
    rw [List.getLast?_cons_cons] at hlast
    exact ⟨last, hlast, hdone⟩

/-- Pages that go through to the end have started from no smart contract. -/
theorem cont_pages_keys (n : ℕ) (pages : ℕ → Page) (before rest : List Record)
    (responses : List Response) (hp : Pageable sender self pages)
    (h : records self.customerLeases = before ++ rest)
    (hrun : contPages querier sender toRelease (firstPages n pages)
      (some (emitStatus (rest.head?.map Prod.fst))) self = .ok responses)
    (hdone : rest ≠ [] → Done responses) :
    ∀ key ∈ starts pages rest, querier.codeOf key = none := by
  induction n generalizing pages before rest responses with
  | zero =>
    cases rest with
    | nil => simp [starts]
    | cons r rest =>
      cases hrun
      obtain ⟨last, hlast, -⟩ := hdone (List.cons_ne_nil _ _)
      cases hlast
  | succ n ih =>
    cases rest with
    | nil => simp [starts]
    | cons r rest =>
      rw [firstPages_succ] at hrun
      simp only [List.head?_cons, Option.map_some, emitStatus, contPages, bind_ok, pure_ok] at hrun
      obtain ⟨⟨response, next⟩, hexecute, responses, hrun, rfl⟩ := hrun
      have hkey : querier.codeOf r.1 = none := by
        by_contra hcode
        exact cont_refused querier sender toRelease self _ _ _ hcode _ hexecute
      obtain ⟨chunk, rest', response', hsplit, -, hnext, hagain, hstatus, -⟩ :=
        cont_page querier sender toRelease self pages before rest r hp h hkey
      rw [hexecute, Except.ok.injEq, Prod.mk.injEq] at hagain
      obtain ⟨rfl, rfl⟩ := hagain
      rw [hsplit, ← List.append_assoc] at h
      simp only [hstatus] at hrun
      have hrest := ih (fun i => pages (i + 1)) (before ++ chunk) rest' responses
        (pageable_next _ _ _ hp) h hrun
        (done_rest response responses rest' hstatus (hdone (List.cons_ne_nil _ _)))
      rw [starts, hnext]
      exact List.forall_mem_cons.2 ⟨hkey, hrest⟩

end Continued

section Migration

variable (querier : Querier) (sender : Addr) (newCodeId toRelease : ℕ) (self : Storage)
  (pages : ℕ → Page)

theorem first_page (hp : Pageable sender self pages) (hcode : querier.knownCode newCodeId = true) :
    ∃ chunk rest response, records self.customerLeases = chunk ++ rest ∧ (chunk = [] → rest = []) ∧
      keys pages (records self.customerLeases) = starts (fun i => pages (i + 1)) rest ∧
      execute querier (pages 0).order sender self
          (.migrateLeases newCodeId toRelease (pages 0).maxLeases) =
        .ok (response, { self with config.leaseCode := newCodeId }) ∧
      response.status = some (emitStatus (rest.head?.map Prod.fst)) ∧
      Migrates toRelease newCodeId (pages 0).maxLeases chunk response.messages := by
  obtain ⟨chunk, rest, result, hsplit, hfills, hresult, hnext, hmigrates⟩ :=
    migrateLeases_records (pages 0).order newCodeId (pages 0).maxLeases toRelease
      (records self.customerLeases) (hp.fits 0) (hp.room 0)
  have hleft : ∀ i, ∀ r ∈ rest, r.2.card ≤ (pages i).maxLeases := by
    intro i r hr
    apply hp.room i
    rw [hsplit]
    exact List.mem_append_right _ hr
  have hrefs : migrations (updateRemoteRefs { self with config.leaseCode := newCodeId } newCodeId) =
      [] := rfl
  refine ⟨chunk, rest, ⟨result.msgs ++ updateRemoteRefs { self with config.leaseCode := newCodeId }
    newCodeId, emitStatus result.nextCustomer⟩, hsplit, fills_some _ _ _ hfills (hleft 0), ?_, ?_,
    by rw [hnext], ?_⟩
  · rw [hsplit]
    exact stops_filled _ _ _ _ hfills (hleft 1)
  · simp only [execute, checkOwner, newCode, tryMigrateLeases, bind_ok, ensure_ok, pure_ok]
    exact ⟨(), hp.owner, newCodeId, ⟨(), hcode, rfl⟩, result, hresult, rfl⟩
  · constructor
    · rw [migrations_append, hrefs, List.append_nil]
      exact hmigrates.leases
    · rw [migrations_append, hrefs, List.append_nil]
      exact hmigrates.within

theorem all_pages (n : ℕ) (hp : Pageable sender self pages)
    (hcode : querier.knownCode newCodeId = true)
    (hkeys : ∀ key ∈ keys pages (records self.customerLeases), querier.codeOf key = none) :
    ∃ responses left, migratePages querier sender newCodeId toRelease (firstPages (n + 1) pages)
        self = .ok responses ∧ responses ≠ [] ∧
      Covers toRelease newCodeId (records self.customerLeases) (firstPages (n + 1) pages) responses
        left ∧
      ((records self.customerLeases).length ≤ n + 1 → left = []) := by
  obtain ⟨chunk, rest, response, hsplit, hchunk, hnext, hexecute, hstatus, hmigrates⟩ :=
    first_page querier sender newCodeId toRelease self pages hp hcode
  rw [hnext] at hkeys
  have hp' := pageable_next _ _ _ (pageable_coded sender self pages newCodeId hp)
  obtain ⟨responses, left, hrun, hcovers, hleft⟩ := cont_pages querier sender toRelease
    { self with config.leaseCode := newCodeId } n _ chunk rest hp' hsplit hkeys
  rw [← hstatus] at hrun
  rw [firstPages_succ]
  refine ⟨response :: responses, left, ?_, List.cons_ne_nil _ _, ?_, ?_⟩
  · simp only [migratePages, bind_ok, pure_ok]
    exact ⟨_, hexecute, responses, hrun, rfl⟩
  · rw [hsplit]
    exact .page chunk rest left (pages 0) _ response responses hmigrates hstatus hcovers
  · intro hlen
    apply hleft
    rw [hsplit, List.length_append] at hlen
    by_cases hnil : chunk = []
    · simp [hchunk hnil]
    · have hpos := List.length_pos_of_ne_nil hnil
      omega

/-- A number of pages goes through up to one with no next key. They schedule a migration of every
stored lease exactly once, no more in a page than its limit and those of a customer in one page. -/
def MigratesAll : Prop :=
  ∃ n responses, migratePages querier sender newCodeId toRelease (firstPages n pages) self =
      .ok responses ∧
    Covers toRelease newCodeId (records self.customerLeases) (firstPages n pages) responses [] ∧
    Done responses ∧
    (responses.flatMap fun r => migrations r.messages : Multiset Msg) =
      (stored (records self.customerLeases)).map fun lease => .migrate lease toRelease newCodeId

theorem migratesAll_keys (hp : Pageable sender self pages)
    (hcode : querier.knownCode newCodeId = true)
    (h : MigratesAll querier sender newCodeId toRelease self pages) :
    ∀ key ∈ keys pages (records self.customerLeases), querier.codeOf key = none := by
  obtain ⟨n, responses, hrun, -, hdone, -⟩ := h
  cases n with
  | zero =>
    cases hrun
    obtain ⟨last, hlast, -⟩ := hdone
    cases hlast
  | succ n =>
    rw [firstPages_succ] at hrun
    simp only [migratePages, bind_ok, pure_ok] at hrun
    obtain ⟨⟨response, next⟩, hexecute, responses, hrun, rfl⟩ := hrun
    obtain ⟨chunk, rest, response', hsplit, -, hnext, hagain, hstatus, -⟩ :=
      first_page querier sender newCodeId toRelease self pages hp hcode
    rw [hexecute, Except.ok.injEq, Prod.mk.injEq] at hagain
    obtain ⟨rfl, rfl⟩ := hagain
    simp only [hstatus] at hrun
    have hp' := pageable_next _ _ _ (pageable_coded sender self pages newCodeId hp)
    rw [hnext]
    exact cont_pages_keys querier sender toRelease _ n _ chunk rest responses hp' hsplit hrun
      (done_rest response responses rest hstatus hdone)

/-- The pages migrate all the leases exactly when no page but the first one starts from a smart
contract. -/
theorem migrates_all_iff (hcode : querier.knownCode newCodeId = true)
    (hp : Pageable sender self pages) :
    MigratesAll querier sender newCodeId toRelease self pages ↔
      ∀ key ∈ keys pages (records self.customerLeases), querier.codeOf key = none := by
  refine ⟨migratesAll_keys querier sender newCodeId toRelease self pages hp hcode, ?_⟩
  intro hkeys
  obtain ⟨responses, left, hrun, hsome, hcovers, hleft⟩ := all_pages querier sender newCodeId
    toRelease self pages (records self.customerLeases).length hp hcode hkeys
  obtain rfl := hleft (Nat.le_succ _)
  have hall := covers_migrations _ _ _ _ _ _ hcovers
  refine ⟨_, responses, hrun, hcovers, covers_status _ _ _ _ _ _ hcovers hsome, ?_⟩
  simpa [stored] using hall

end Migration

def sampleConfig : Config := ⟨4, 101, 102, 103⟩

def twoCustomers : Storage :=
  { Storage.new 9 sampleConfig with
    customerLeases := ((∅ : Store Addr (Finset Addr)).insert 1 {10}).insert 2 {20} }

theorem twoCustomers_iter :
    twoCustomers.iter sortedOrder none = [.ok ⟨1, [10]⟩, .ok ⟨2, [20]⟩] := by
  have hrecords : records twoCustomers.customerLeases = [(1, {10}), (2, {20})] := rfl
  simp [Storage.iter, range, hrecords, sortedOrder, pure, Except.pure]

theorem twoCustomers_pageable : Pageable 9 twoCustomers fun _ => ⟨1, sortedOrder⟩ :=
  ⟨rfl, fun _ => by decide, fun _ => by decide⟩

/-- The first customer is a smart contract, the only key is of the second one. -/
theorem migrates_all_sample :
    Pageable 9 twoCustomers (fun _ => ⟨1, sortedOrder⟩) ∧
    MigratesAll ⟨fun _ => true, fun addr => if addr = 1 then some 7 else none⟩ 9 5 0 twoCustomers
      fun _ => ⟨1, sortedOrder⟩ := by
  refine ⟨twoCustomers_pageable, ?_⟩
  apply (migrates_all_iff _ 9 5 0 twoCustomers _ rfl twoCustomers_pageable).2
  have hkeys : keys (fun _ => ⟨1, sortedOrder⟩) (records twoCustomers.customerLeases) = [2] := by
    rfl
  rw [hkeys]
  decide

/-- The second customer is a smart contract. The first page returns it as the next key, and
that key is not accepted. -/
theorem contract_customer_stuck :
    (∀ r ∈ records twoCustomers.customerLeases, r.2.card ≤ 1) ∧
      execute ⟨fun _ => true, fun addr => if addr = 2 then some 7 else none⟩ sortedOrder 9
          twoCustomers (.migrateLeases 5 0 1) =
        .ok (⟨[.migrate 10 0 5, .lppNewLeaseCode 101 5, .reserveNewLeaseCode 102 5],
          some (.contunuationKey 2)⟩, { twoCustomers with config.leaseCode := 5 }) ∧
      ∀ order toRelease maxLeases,
        execute ⟨fun _ => true, fun addr => if addr = 2 then some 7 else none⟩ order 9
            { twoCustomers with config.leaseCode := 5 }
            (.migrateLeasesCont 2 toRelease maxLeases) =
          failing (.invalidContinuationKey "smart contract key") := by
  refine ⟨by decide, ?_, fun _ _ _ => rfl⟩
  have hpage : migrateLeases (twoCustomers.iter sortedOrder none) 5 1 0 =
      .ok ⟨[.migrate 10 0 5], some 2⟩ := by
    rw [twoCustomers_iter]
    rfl
  simp only [execute, checkOwner, newCode, tryMigrateLeases, bind_ok, ensure_ok, pure_ok]
  exact ⟨(), rfl, 5, ⟨(), trivial, rfl⟩, _, hpage, rfl⟩

end Nolus.LeaserPages
