import NolusMoneyMarket.Lease.Accounts

/-! # The books of a lease

The books of a lease contract are kept along its runs: what it takes in and
what the reserve covers, what it sends to the pool, to the profit and back to
the customer, and what stays on its account. The pool keeps its own, of the
interest and of the principal. Past each call the books balance, and the loan
is at the pool exactly as long as the contract has it to repay. -/

set_option autoImplicit false

namespace Nolus.LeaseBooks
open Nolus.Fallible Nolus.Fraction Nolus.Prices Nolus.Runs
open Nolus.LeaseLoan Nolus.LeasePosition Nolus.LeasePayment Nolus.LeaseSettle Nolus.LeaseSteady
open Nolus.Leases Nolus.LeaseContract Nolus.LeaseHandled Nolus.LeaseWatch Nolus.LeaseAccounts
open Nolus.SwapTasks hiding Env Message err timeBits amountBits
open Nolus.LppLoan (RepayShares)
open Nolus.Interest (year hour)

variable {Currency Data Msg : Type}

/-! ## The books -/

/-- The pool lends, the lease takes payments in, the reserve covers losses; the pool is repaid, the
profit and the customer get their parts, and the rest is kept. The pool splits what it is repaid
into interest, principal and an excess. The lease buys the asset, and releases it. -/
structure Books where
  lent : ℕ
  received : ℕ
  covered : ℕ
  repaid : ℕ
  profit : ℕ
  change : ℕ
  kept : ℕ
  interest : ℕ
  principal : ℕ
  excess : ℕ
  bought : ℕ
  released : ℕ
deriving DecidableEq, Repr

def Books.blank : Books := ⟨0, 0, 0, 0, 0, 0, 0, 0, 0, 0, 0, 0⟩

structure Turn (Currency Data : Type) where
  before : World Currency Data
  env : Env Currency
  call : Call Currency Data
  response : Response Currency Data

def lentBy : Call Currency Data → ℕ
  | .loanOpened principal => principal.amount
  | _ => 0

def Turn.dues (turn : Turn Currency Data) : ℕ :=
  match lease turn.before.state, turn.before.pool with
  | some dto, some loan => duesOf dto loan turn.env.now
  | _, _ => 0

/-- What of a payment stays on the account: what it is above the total due when it pays the lease
off, and all of it when the close policy asks for a close past it. -/
def Turn.kept (turn : Turn Currency Data) (payment : ℕ) : ℕ :=
  match turn.response.next with
  | .paidActive _ => payment - turn.dues
  | .sellAsset spec _ => if spec.repayable = .fullClose then payment else 0
  | _ => 0

def Turn.shares (turn : Turn Currency Data) : RepayShares :=
  ((poolRepayAll turn.before.now turn.before.pool
    (amountsTo .pool turn.response.messages)).map Prod.snd).getD noShares

section Posting

variable [DecidableEq Currency]

def Turn.taken (client : SwapClient Data Msg) (turn : Turn Currency Data) : Taken :=
  LeaseHandled.taken client turn.env turn.before.state turn.call

def Books.post (client : SwapClient Data Msg) (self : Books) (turn : Turn Currency Data) :
    Books where
  lent := self.lent + lentBy turn.call
  received := self.received + (turn.taken client).payment
  covered := self.covered + totalTo .reserve turn.response.messages
  repaid := self.repaid + totalTo .pool turn.response.messages
  profit := self.profit + totalTo .profit turn.response.messages
  change := self.change + totalTo .customer turn.response.messages
  kept := self.kept + turn.kept (turn.taken client).payment
  interest := self.interest + turn.shares.interest
  principal := self.principal + turn.shares.principal
  excess := self.excess + turn.shares.excess
  bought := self.bought + (turn.taken client).bought
  released := self.released + (turn.taken client).released

def called (w : World Currency Data) :
    Event Currency Data → Option (World Currency Data × Env Currency × Call Currency Data)
  | .loanOpened env loan =>
    match w.state with
    | .requestLoan form _ =>
      some ({ w with pool := some loan }, env, .loanOpened ⟨form.lpn, loan.principalDue⟩)
    | _ => none
  | .call env call => some (w, env, call)
  | .timeAlarm env refused =>
    if refused then none else some ({ w with timeAlarm := none }, env, .platform .timeAlarm)
  | .priceAlarm env refused =>
    if refused then none else some ({ w with priceAlarm := none }, env, .priceAlarm)
  | .refused _ => none

def turn (client : SwapClient Data Msg) (w : World Currency Data) (event : Event Currency Data) :
    Option (Turn Currency Data) :=
  (called w event).bind fun made =>
    match made.1.state.handle client made.2.1 made.1.lpp made.2.2 with
    | .error _ => none
    | .ok response =>
      (made.1.settle response).map fun _ => ⟨made.1, made.2.1, made.2.2, response⟩

def Books.after (client : SwapClient Data Msg) (self : Books) (w : World Currency Data)
    (event : Event Currency Data) : Books :=
  (turn client { w with now := event.now } event).elim self (self.post client)

/-- The pool opens no loan of nothing, and it alone answers a request of a loan; the oracle gives
no price of a zero amount. -/
def Fair : Event Currency Data → Prop
  | .loanOpened env loan =>
    0 < loan.principalDue ∧ ∀ currency price, env.price currency = .ok price → Proper price
  | .call env call => (∀ principal, call ≠ .loanOpened principal) ∧
    ∀ currency price, env.price currency = .ok price → Proper price
  | .timeAlarm env _ => ∀ currency price, env.price currency = .ok price → Proper price
  | .priceAlarm env _ => ∀ currency price, env.price currency = .ok price → Proper price
  | .refused _ => True

def FairStep (client : SwapClient Data Msg) (w : World Currency Data) (event : Event Currency Data)
    (w' : World Currency Data) : Prop := Fair event ∧ Step client w event w'

def Posts (client : SwapClient Data Msg) (before : World Currency Data × Books)
    (event : Event Currency Data) (after : World Currency Data × Books) : Prop :=
  FairStep client before.1 event after.1 ∧ after.2 = before.2.after client before.1 event

def Begun (s : World Currency Data × Books) : Prop := Opening s.1 ∧ s.2 = .blank

end Posting

/-! ## A turn balances -/

/-- What holds between the loan of the pool before and past a turn, and what comes in and goes
out with it. -/
structure TurnBalanced (t : Turn Currency Data) (took : Taken) (pool : Option LppLoan.Loan)
    (shares : RepayShares) : Prop where
  backed : pool.isSome = owing t.response.next
  someLeft : ∀ loan, pool = some loan → 0 < loan.principalDue
  loan : owed t.before.pool = owed pool + shares.principal
  split_ : totalTo .pool t.response.messages = shares.interest + shares.principal
  exact_ : shares.excess = 0
  payments : took.payment + totalTo .reserve t.response.messages =
    totalTo .pool t.response.messages + totalTo .profit t.response.messages +
      totalTo .customer t.response.messages + t.kept took.payment
  asset : asset t.before.state + took.bought = asset t.response.next + took.released

theorem kept_nothing (t : Turn Currency Data) : t.kept 0 = 0 := by
  unfold Turn.kept
  split
  · exact Nat.zero_sub _
  · split_ifs <;> rfl
  · rfl

/-- Nothing of a payment is sent, and none comes in. -/
theorem quiet_balanced (t : Turn Currency Data) (took : Taken) (pool : Option LppLoan.Loan)
    (shares : RepayShares) (hquiet : Quiet t.response.messages) (hnone : took.payment = 0)
    (hbacked : t.before.pool.isSome = owing t.response.next)
    (hleft : ∀ loan, t.before.pool = some loan → 0 < loan.principalDue)
    (hasset : asset t.before.state + took.bought = asset t.response.next + took.released)
    (h : poolRepayAll t.before.now t.before.pool (amountsTo .pool t.response.messages) =
      some (pool, shares)) : TurnBalanced t took pool shares := by
  have htotal : ∀ account, totalTo account t.response.messages = 0 := by
    intro account
    rw [totalTo, amountsTo_quiet account _ hquiet]
    rfl
  rw [amountsTo_quiet _ _ hquiet] at h
  cases h
  constructor
  · exact hbacked
  · exact hleft
  · rfl
  · exact htotal _
  · rfl
  · rw [hnone, kept_nothing]
    simp only [htotal]
  · exact hasset

/-- A payment that is passed on, up to what it is above the total due. -/
theorem passed_balanced (t : Turn Currency Data) (dto : LeaseDTO Currency) (repayFn : RepayFn)
    (amount : ℕ) (lppLoan : LppLoan.Loan) (result : RepayLeaseResult Currency)
    (pool : Option LppLoan.Loan) (shares : RepayShares)
    (hself : lease t.before.state = some dto) (hpool : t.before.pool = some lppLoan)
    (hpos : 0 < lppLoan.principalDue)
    (hs : Settles repayFn dto lppLoan amount t.before.now result)
    (hmessages : ∀ account, amountsTo account t.response.messages =
      amountsTo account (repayMessages result.response : List (LeaseContract.Message Currency)))
    (hasset : asset t.response.next = result.lease.position.amount)
    (howing : owing t.response.next = true ↔ amount < duesOf dto lppLoan t.before.now)
    (hkept : t.kept amount = amount - duesOf dto lppLoan t.before.now)
    (h : poolRepayAll t.before.now t.before.pool (amountsTo .pool t.response.messages) =
      some (pool, shares)) : TurnBalanced t ⟨amount, 0, repayFn.asset⟩ pool shares := by
  have htotal : ∀ account, totalTo account t.response.messages =
      (if account = .pool then result.response.lppRepay.getD 0 else 0) +
        (if .profit = account then result.response.profit else 0) := by
    intro account
    rw [totalTo, hmessages account]
    exact repayMessages_to account result.response
  have hparts := (payment_parts (loanOf dto lppLoan) amount t.before.now
    (loanOf_scheduled dto lppLoan)).2
  rw [hmessages, repayMessages_pool, hs.response, hpool] at h
  obtain ⟨hsome, hleft, hprincipal, hsplit, hexcess⟩ :=
    pool_past dto lppLoan amount t.before.now pool shares hs.margin hpos h
  constructor
  · rw [Bool.eq_iff_iff, hsome, howing]
  · exact hleft
  · rw [hpool]
    exact hprincipal
  · rw [htotal, hs.response]
    simpa using hsplit
  · exact hexcess
  · simp only [htotal, hs.response, hkept]
    simpa [duesOf] using hparts.symm
  · have hstored : asset t.before.state = dto.position.amount := by
      rw [asset, hself]
      rfl
    rw [hstored, hasset, hs.asset]
    rfl

theorem repaid_balanced (t : Turn Currency Data) (dto : LeaseDTO Currency) (repayFn : RepayFn)
    (amount : ℕ) (lppLoan : LppLoan.Loan) (result : RepayLeaseResult Currency)
    (pool : Option LppLoan.Loan) (shares : RepayShares)
    (hself : lease t.before.state = some dto) (hpool : t.before.pool = some lppLoan)
    (hpos : 0 < lppLoan.principalDue)
    (hs : Settles repayFn dto lppLoan amount t.before.now result) (hnow : t.env.now = t.before.now)
    (hpast : Past result t.response)
    (h : poolRepayAll t.before.now t.before.pool (amountsTo .pool t.response.messages) =
      some (pool, shares)) : TurnBalanced t ⟨amount, 0, repayFn.asset⟩ pool shares := by
  have hdues : t.dues = duesOf dto lppLoan t.before.now := by
    rw [Turn.dues, hself, hpool, ← hnow]
  obtain ⟨before, env, call, response⟩ := t
  cases hpast with
  | paid hstatus =>
    have hdue := hs.paid hstatus
    apply passed_balanced _ dto repayFn amount lppLoan result pool shares hself hpool hpos hs
      (fun _ => rfl) rfl _ _ h
    · simpa [owing] using hdue
    · rw [← hdues]
      rfl
  | due zone alarms hstatus =>
    have hdue := hs.due zone alarms hstatus
    apply passed_balanced _ dto repayFn amount lppLoan result pool shares hself hpool hpos hs
      _ rfl _ _ h
    · intro account
      rw [amountsTo_append, amountsTo_quiet account _ (quiet_alarms alarms), List.nil_append]
    · simpa [owing] using hdue
    · exact (Nat.sub_eq_zero_of_le hdue.le).symm
  | liquidation liquidation repayable swap dex hstatus hne hquiet =>
    have hdue := hs.liquidation liquidation hstatus
    apply passed_balanced _ dto repayFn amount lppLoan result pool shares hself hpool hpos hs
      _ rfl _ _ h
    · intro account
      rw [amountsTo_append, amountsTo_quiet account _ hquiet, List.append_nil]
    · simpa [owing] using hdue
    · exact (if_neg hne).trans (Nat.sub_eq_zero_of_le hdue.le).symm
  | closeAsked strategy swap dex hstatus hquiet =>
    have htotal : ∀ account, totalTo account swap = 0 := by
      intro account
      rw [totalTo, amountsTo_quiet account _ hquiet]
      rfl
    rw [amountsTo_quiet _ _ hquiet, hpool] at h
    cases h
    constructor
    · rfl
    · rintro loan ⟨⟩
      exact hpos
    · rw [hpool]
      rfl
    · exact htotal _
    · rfl
    · simp only [htotal, Turn.kept, if_true]
      omega
    · have hstored : asset before.state = dto.position.amount := by
        rw [asset, hself]
        rfl
      change asset before.state + 0 = result.lease.position.amount + repayFn.asset
      rw [hstored, hs.asset]
      rfl

/-- A full close pays all that is due, and gives the rest back. -/
theorem closed_balanced (t : Turn Currency Data) (dto : LeaseDTO Currency)
    (recipient : Option Addr) (amount : ℕ) (lppLoan : LppLoan.Loan) (receipt : FullRepayReceipt)
    (pool : Option LppLoan.Loan) (shares : RepayShares)
    (hself : lease t.before.state = some dto) (hpool : t.before.pool = some lppLoan)
    (hpos : 0 < lppLoan.principalDue)
    (hclose : (t.env.lease dto lppLoan).closeFull amount t.before.now = .ok receipt)
    (hmessages : t.response.messages = closeMessages receipt recipient ++ [.finalize dto.customer])
    (hnext : t.response.next = .closed ∨ t.response.next = .liquidated)
    (h : poolRepayAll t.before.now t.before.pool (amountsTo .pool t.response.messages) =
      some (pool, shares)) :
    TurnBalanced t ⟨amount, 0, dto.position.amount⟩ pool shares := by
  have hle : (loanOf dto lppLoan).marginPaidBy ≤ t.before.now := by
    simp only [Lease.closeFull, Lease.repay, bind_ok] at hclose
    obtain ⟨_, -, _, ⟨r, hr, -⟩, -⟩ := hclose
    exact (repay_time _ _ _ r hr).1
  have hreceipt := evaluates_ok _ _ _ (closeFull_evaluates _ amount t.before.now hle) hclose
  have hfinalize : ∀ account, amountsTo account t.response.messages =
      amountsTo account
        (closeMessages receipt recipient : List (LeaseContract.Message Currency)) := by
    intro account
    rw [hmessages, amountsTo_append]
    exact List.append_nil _
  have htotal : ∀ account, totalTo account t.response.messages =
      totalTo account
        (closeMessages receipt recipient : List (LeaseContract.Message Currency)) := by
    intro account
    rw [totalTo, hfinalize account]
    rfl
  have hlosses := settlement_losses (t.env.lease dto lppLoan) amount t.before.now
  have hchange := settlement_change (t.env.lease dto lppLoan) amount t.before.now
  rw [← hreceipt] at hlosses hchange
  have hrepay : receipt.lppRepay = ((loanOf dto lppLoan).repaymentAt
      (max (duesOf dto lppLoan t.before.now) amount) t.before.now).loan.lppLoan.message := by
    rw [hreceipt]
    rfl
  have hprofit : receipt.profit = ((loanOf dto lppLoan).repaymentAt
      (max (duesOf dto lppLoan t.before.now) amount) t.before.now).profit := by
    rw [hreceipt]
    rfl
  have hparts := (payment_parts (loanOf dto lppLoan) (max (duesOf dto lppLoan t.before.now) amount)
    t.before.now (loanOf_scheduled dto lppLoan)).2
  change _ = duesOf dto lppLoan t.before.now - amount at hlosses
  change _ = amount - duesOf dto lppLoan t.before.now at hchange
  change _ + _ + (_ - duesOf dto lppLoan t.before.now) = _ at hparts
  rw [hfinalize, closeMessages_pool, hrepay, hpool] at h
  obtain ⟨hsome, hleft, hprincipal, hsplit, hexcess⟩ :=
    pool_past dto lppLoan _ t.before.now pool shares hle hpos h
  have hkept : t.kept amount = 0 := by
    unfold Turn.kept
    rcases hnext with hnext | hnext <;> rw [hnext]
  have hended : owing t.response.next = false ∧ asset t.response.next = 0 := by
    rcases hnext with hnext | hnext <;> rw [hnext] <;> exact ⟨rfl, rfl⟩
  constructor
  · rw [hended.1, Bool.eq_false_iff, Ne, hsome, Nat.not_lt]
    exact le_max_left _ _
  · exact hleft
  · rw [hpool]
    exact hprincipal
  · rw [htotal, closeMessages_to, hrepay]
    simpa using hsplit
  · exact hexcess
  · simp only [htotal, closeMessages_to, hkept, hlosses, hchange]
    simp only [if_true, reduceCtorEq, if_false, hrepay, hprofit]
    omega
  · have hstored : asset t.before.state = dto.position.amount := by
      rw [asset, hself]
      rfl
    rw [hstored, hended.2, Nat.zero_add]
    rfl

/-- Every kind of a call that goes through balances. The loan is at the pool before it, unless the
call is the one that brings the loan. -/
theorem handled_balanced (t : Turn Currency Data) (took : Taken) (pool : Option LppLoan.Loan)
    (shares : RepayShares)
    (hhandled : Handled t.before.lpp t.env t.before.state t.call took t.response)
    (hnow : t.env.now = t.before.now)
    (hprices : ∀ currency price, t.env.price currency = .ok price → Proper price)
    (hlent : ∀ principal, t.call = .loanOpened principal → t.before.pool.isSome = true)
    (hbacked : (∀ principal, t.call ≠ .loanOpened principal) →
      t.before.pool.isSome = owing t.before.state)
    (hleft : ∀ loan, t.before.pool = some loan → 0 < loan.principalDue)
    (h : poolRepayAll t.before.now t.before.pool (amountsTo .pool t.response.messages) =
      some (pool, shares)) : TurnBalanced t took pool shares := by
  have hpool : ∀ lppLoan, t.before.lpp = .ok lppLoan → t.before.pool = some lppLoan :=
    fun lppLoan hlpp => (okOr_ok _ _ _).1 hlpp
  have hstored : ∀ dto, lease t.before.state = some dto →
      asset t.before.state = dto.position.amount := by
    intro dto hself
    rw [asset, hself]
    rfl
  obtain ⟨before, env, call, response⟩ := t
  cases hhandled with
  | requested form downpayment principal spec dex messages hself hcall hquiet =>
    change before.state = _ at hself
    apply quiet_balanced _ _ _ _ hquiet rfl (hlent principal hcall) hleft _ h
    rw [hself]
    rfl
  | goesOn messages next hcall hquiet hasset howing =>
    apply quiet_balanced _ _ _ _ hquiet rfl _ hleft _ h
    · rw [hbacked hcall]
      exact howing.symm
    · exact congrArg (· + 0) hasset.symm
  | bought spec dex amount messages next hself hcall hquiet hasset howing =>
    change before.state = _ at hself
    apply quiet_balanced _ _ _ _ hquiet rfl _ hleft _ h
    · rw [hbacked hcall, howing, hself]
      rfl
    · simp only [hself, hasset]
      exact Nat.zero_add _
  | repaid dto repayFn amount lppLoan result response hself howing hcall hlpp hexec hpast =>
    have hsome := hpool lppLoan hlpp
    have hs := exec_settles repayFn dto lppLoan _ amount env.now result
      (hprices dto.currency) hexec
    rw [show env.now = before.now from hnow] at hs
    exact repaid_balanced ⟨before, env, call, response⟩ dto repayFn amount lppLoan result pool
      shares hself hsome (hleft lppLoan hsome) hs hnow hpast h
  | closed dto recipient amount lppLoan receipt next hself howing hcall hlpp hclose hnext =>
    have hsome := hpool lppLoan hlpp
    rw [show env.now = before.now from hnow] at hclose
    exact closed_balanced ⟨before, env, call, _⟩ dto recipient amount lppLoan receipt pool shares
      hself hsome (hleft lppLoan hsome) hclose rfl hnext h
  | handedOver dto messages hself howing hcall hquiet =>
    apply quiet_balanced _ _ _ _ hquiet rfl _ hleft _ h
    · rw [hbacked hcall, howing]
      rfl
    · rw [hstored dto hself]
      exact (Nat.zero_add _).symm

/-! ## The books of a run -/

theorem settled_pool (w w' : World Currency Data) (response : Response Currency Data)
    (h : w.settle response = some w') :
    w'.state = response.next ∧ ∃ shares, poolRepayAll w.now w.pool
      (amountsTo .pool response.messages) = some (w'.pool, shares) := by
  simp only [World.settle, Option.map_eq_some_iff] at h
  obtain ⟨w₁, hexecuted, rfl⟩ := h
  exact ⟨rfl, executed_pool w w₁ _ hexecuted⟩

section Runs

variable [DecidableEq Currency]

structure Led (client : SwapClient Data Msg) (t : Turn Currency Data)
    (w' : World Currency Data) : Prop where
  handled : t.before.state.handle client t.env t.before.lpp t.call = .ok t.response
  settled : t.before.settle t.response = some w'

theorem turn_made (client : SwapClient Data Msg) (w before : World Currency Data)
    (event : Event Currency Data) (env : Env Currency) (call : Call Currency Data)
    (h : called w event = some (before, env, call)) :
    (before.call client env call = none ∧ turn client w event = none) ∨
      ∃ w' response, before.call client env call = some w' ∧
        turn client w event = some ⟨before, env, call, response⟩ ∧
        Led client ⟨before, env, call, response⟩ w' := by
  unfold turn World.call
  rw [h, Option.bind_some]
  cases hhandled : before.state.handle client env before.lpp call with
  | error reason => exact .inl ⟨rfl, rfl⟩
  | ok response =>
    simp only
    cases hsettled : before.settle response with
    | none => exact .inl ⟨rfl, rfl⟩
    | some w' => exact .inr ⟨w', response, rfl, rfl, ⟨hhandled, hsettled⟩⟩

/-- What happens is a turn, or it leaves the state and the loan as they are. -/
theorem happens_turn (client : SwapClient Data Msg) (w w' : World Currency Data)
    (event : Event Currency Data) (h : w.happens client event = some w') :
    (turn client w event = none ∧ w'.state = w.state ∧ w'.pool = w.pool) ∨
      ∃ t, turn client w event = some t ∧ called w event = some (t.before, t.env, t.call) ∧
        Led client t w' := by
  have hnone : called w event = none → turn client w event = none := by
    intro hcalled
    rw [turn, hcalled]
    rfl
  -- a call that fails leaves a world with the same state and the same loan
  have hmade : ∀ before env call fallback, called w event = some (before, env, call) →
      some ((before.call client env call).getD fallback) = some w' →
      fallback.state = w.state → fallback.pool = w.pool →
      (turn client w event = none ∧ w'.state = w.state ∧ w'.pool = w.pool) ∨
        ∃ t, turn client w event = some t ∧ called w event = some (t.before, t.env, t.call) ∧
          Led client t w' := by
    intro before env call fallback hcalled hw' hstate hpool
    rcases turn_made client w before event env call hcalled with
      ⟨hfails, hturn⟩ | ⟨w₁, response, hgoes, hturn, hled⟩
    · rw [hfails] at hw'
      cases hw'
      exact .inl ⟨hturn, hstate, hpool⟩
    · rw [hgoes] at hw'
      cases hw'
      exact .inr ⟨_, hturn, hcalled, hled⟩
  cases event with
  | loanOpened env loan =>
    cases hstate : w.state with
    | requestLoan form downpayment =>
      simp only [World.happens, hstate] at h
      have hcalled : called w (.loanOpened env loan) = some ({ w with pool := some loan }, env,
          .loanOpened ⟨form.lpn, loan.principalDue⟩) := by
        simp only [called, hstate]
      rcases turn_made client w _ _ env _ hcalled with
        ⟨hfails, -⟩ | ⟨w₁, response, hgoes, hturn, hled⟩
      · simp only [hstate] at hfails
        rw [hfails] at h
        cases h
      · simp only [hstate] at hgoes
        rw [hgoes] at h
        cases h
        exact .inr ⟨_, hturn, hcalled, hled⟩
    | _ =>
      simp only [World.happens, hstate] at h
      cases h
      refine .inl ⟨hnone ?_, hstate, rfl⟩
      simp only [called, hstate]
  | call env call => exact hmade _ env call _ rfl h rfl rfl
  | timeAlarm env refused =>
    simp only [World.happens] at h
    split_ifs at h
    cases refused with
    | true =>
      cases h
      exact .inl ⟨hnone rfl, rfl, rfl⟩
    | false => exact hmade _ env _ _ rfl h rfl rfl
  | priceAlarm env refused =>
    simp only [World.happens] at h
    split at h
    · cases h
    · cases refused with
      | true =>
        cases h
        exact .inl ⟨hnone rfl, rfl, rfl⟩
      | false => exact hmade _ env _ _ rfl h rfl rfl
  | refused now =>
    cases h
    exact .inl ⟨hnone rfl, rfl, rfl⟩

/-- In every state of a run the books balance, and the loan is at the pool, with some principal
left, just as long as the contract has it to repay. -/
structure Balanced (s : World Currency Data × Books) : Prop where
  backed : s.1.pool.isSome = owing s.1.state
  someLeft : ∀ loan, s.1.pool = some loan → 0 < loan.principalDue
  loan : s.2.lent = s.2.principal + owed s.1.pool
  split_ : s.2.repaid = s.2.interest + s.2.principal
  exact_ : s.2.excess = 0
  payments : s.2.received + s.2.covered =
    s.2.repaid + s.2.profit + s.2.change + s.2.kept
  asset : s.2.bought = s.2.released + asset s.1.state

omit [DecidableEq Currency] in
/-- What a call finds: a loan the pool has just lent, or the one it has. -/
theorem called_finds (w before : World Currency Data) (event : Event Currency Data)
    (env : Env Currency) (call : Call Currency Data) (hfair : Fair event)
    (hbacked : w.pool.isSome = owing w.state)
    (hleft : ∀ loan, w.pool = some loan → 0 < loan.principalDue)
    (hnow : event.now = w.now) (h : called w event = some (before, env, call)) :
    before.state = w.state ∧ env.now = before.now ∧
      (∀ currency price, env.price currency = .ok price → Proper price) ∧
      (∀ principal, call = .loanOpened principal → before.pool.isSome = true) ∧
      ((∀ principal, call ≠ .loanOpened principal) → before.pool.isSome = owing before.state) ∧
      (∀ loan, before.pool = some loan → 0 < loan.principalDue) ∧
      owed before.pool = owed w.pool + lentBy call := by
  cases event with
  | loanOpened env loan =>
    cases hstate : w.state with
    | requestLoan form downpayment =>
      simp only [called, hstate] at h
      cases h
      rw [hstate] at hbacked
      have hnone : w.pool = none := by simpa [owing] using hbacked
      refine ⟨rfl, hnow, hfair.2, fun _ _ => rfl, fun hcall => absurd rfl (hcall _), ?_, ?_⟩
      · rintro loan' ⟨⟩
        exact hfair.1
      · rw [hnone]
        exact (Nat.zero_add _).symm
    | _ =>
      simp only [called, hstate] at h
      cases h
  | call env call =>
    cases h
    have hlent : lentBy call = 0 := by
      cases call with
      | loanOpened principal => exact absurd rfl (hfair.1 principal)
      | _ => rfl
    refine ⟨rfl, hnow, hfair.2, fun principal hcall => absurd hcall (hfair.1 principal),
      fun _ => hbacked, hleft, ?_⟩
    rw [hlent]
    rfl
  | timeAlarm env refused =>
    cases refused with
    | true => cases h
    | false =>
      cases h
      refine ⟨rfl, hnow, hfair, ?_, fun _ => hbacked, hleft, rfl⟩
      intro principal hcall
      cases hcall
  | priceAlarm env refused =>
    cases refused with
    | true => cases h
    | false =>
      cases h
      refine ⟨rfl, hnow, hfair, ?_, fun _ => hbacked, hleft, rfl⟩
      intro principal hcall
      cases hcall
  | refused now => cases h

theorem step_balanced (client : SwapClient Data Msg) (s s' : World Currency Data × Books)
    (event : Event Currency Data) (h : Posts client s event s') (hs : Balanced s) :
    Balanced s' := by
  obtain ⟨w, b⟩ := s
  obtain ⟨w', b'⟩ := s'
  obtain ⟨⟨hfair, hstep⟩, hbooks⟩ := h
  simp only [Step, World.step] at hstep
  split_ifs at hstep with hpast
  rcases happens_turn client { w with now := event.now } w' event hstep with
    ⟨hnone, hstate, hpool⟩ | ⟨t, hturn, hcalled, hled⟩
  · have hsame : b' = b := by
      rw [show b' = _ from hbooks, Books.after, hnone]
      rfl
    subst hsame
    obtain ⟨hbacked, hleft, hloan, hsplit, hexact, hpayments, hasset⟩ := hs
    constructor
    · rw [hpool, hstate]
      exact hbacked
    · rw [hpool]
      exact hleft
    · rw [hpool]
      exact hloan
    · exact hsplit
    · exact hexact
    · exact hpayments
    · rw [hstate]
      exact hasset
  · have hposted : b' = b.post client t := by
      rw [show b' = _ from hbooks, Books.after, hturn]
      rfl
    obtain ⟨hstate, hnow, hprices, hlent, hbacked, hleft, howed⟩ :=
      called_finds { w with now := event.now } t.before event t.env t.call hfair hs.backed
        hs.someLeft rfl hcalled
    change t.before.state = w.state at hstate
    change _ = owed w.pool + _ at howed
    obtain ⟨hnext, shares, hpool⟩ := settled_pool t.before w' t.response hled.settled
    have hb := handled_balanced t (t.taken client) w'.pool shares
      (handle_handled client t.env t.before.state t.call t.response hled.handled) hnow hprices hlent
      hbacked hleft hpool
    have hshares : t.shares = shares := by
      rw [Turn.shares, hpool]
      rfl
    have hloan := hb.loan
    have hsplit := hb.split_
    have hpayments := hb.payments
    have hasset := hb.asset
    obtain ⟨-, -, hloan', hsplit', hexact', hpayments', hasset'⟩ := hs
    subst hposted
    simp only at hloan' hsplit' hexact' hpayments' hasset'
    rw [hstate] at hasset
    constructor
    · rw [hnext]
      exact hb.backed
    · exact hb.someLeft
    · simp only [Books.post, hshares]
      omega
    · simp only [Books.post, hshares]
      omega
    · simp only [Books.post, hshares, hb.exact_, hexact']
    · simp only [Books.post]
      omega
    · simp only [Books.post, hnext]
      omega

theorem books_balanced (client : SwapClient Data Msg) (s : World Currency Data × Books)
    (h : Reachable (Posts client) Begun s) : Balanced s := by
  refine reachable_induction Begun Balanced ?_ (fun s event s' => step_balanced client s s' event)
    s h
  rintro ⟨w, b⟩ ⟨⟨⟨form, downpayment, hstate⟩, -, -, hpool⟩, hblank⟩
  simp only at hstate hpool hblank
  subst hblank
  constructor
  · rw [hpool, hstate]
    rfl
  · intro loan hloan
    rw [hpool] at hloan
    cases hloan
  · rw [hpool]
    rfl
  · rfl
  · rfl
  · rfl
  · rw [hstate]
    rfl

end Runs

def sampleStopLoss : List (Event ℕ (List ℕ)) :=
  sampleOpened ++
    [.call { sampleEnv 0 with sender := 1 } (.changeClosePolicy ⟨some (.set 650), none⟩),
      .call { sampleEnv 0 with price := fun _ => .ok ⟨10, 9⟩ } (.repay [⟨0, 10⟩])]

def samplePost (s : World ℕ (List ℕ) × Books) (event : Event ℕ (List ℕ)) :
    Option (World ℕ (List ℕ) × Books) :=
  (s.1.step sampleClient event).map fun w => (w, s.2.after sampleClient s.1 event)

def sampleStopped : World ℕ (List ℕ) × Books :=
  (sampleStopLoss.foldlM samplePost (sampleOpening, .blank)).getD (sampleOpening, .blank)

theorem sample_fair : ∀ event ∈ sampleStopLoss, Fair event := by
  have hproper : Proper ⟨1, 1⟩ ∧ Proper ⟨10, 9⟩ :=
    ⟨⟨by decide, by decide⟩, ⟨by decide, by decide⟩⟩
  simp [sampleStopLoss, sampleOpened, sampleCall, Fair, sampleEnv, samplePoolLoan, hproper]

theorem sample_posted (events : List (Event ℕ (List ℕ))) (s : World ℕ (List ℕ) × Books)
    (hfair : ∀ event ∈ events, Fair event)
    (hrun : events.foldlM samplePost (sampleOpening, .blank) = some s) :
    Reachable (Posts sampleClient) Begun s := by
  refine ⟨(sampleOpening, .blank), events, ⟨sample_begun, rfl⟩, ?_⟩
  apply run_mono_on Fair _ _ _ _ _ hfair (run_foldlM samplePost _ _ _ hrun)
  intro s event s' hfair hpost
  obtain ⟨w, hstep, rfl⟩ := Option.map_eq_some_iff.1 hpost
  exact ⟨⟨hfair, hstep⟩, rfl⟩

theorem sample_stopped : Reachable (Posts sampleClient) Begun sampleStopped :=
  sample_posted sampleStopLoss _ sample_fair rfl

/-- A year after its opening the sample lease is repaid in part. It is sold to stop the loss once
the price has fallen, and pays the rest with a change left. -/
def sampleSelling : List (Event ℕ (List ℕ)) :=
  sampleOpened ++
    [.call { sampleEnv year with sender := 1 } (.repay [⟨0, 200⟩]),
      .call { sampleEnv year with sender := 1 } (.changeClosePolicy ⟨some (.set 650), none⟩),
      .priceAlarm { sampleEnv (year + hour) with sender := 3, price := fun _ => .ok ⟨10, 7⟩ } false,
      .call (sampleEnv (year + hour)) (.platform (.response [700])),
      .call (sampleEnv (year + hour)) (.platform .inner),
      .call (sampleEnv (year + hour)) (.platform (.response [])),
      .call { sampleEnv (year + hour) with dex.balance := fun _ => some 700 } (.platform .inner)]

def sampleSold : World ℕ (List ℕ) × Books :=
  (sampleSelling.foldlM samplePost (sampleOpening, .blank)).getD (sampleOpening, .blank)

theorem sample_selling_fair : ∀ event ∈ sampleSelling, Fair event := by
  have hproper : Proper ⟨1, 1⟩ ∧ Proper ⟨10, 7⟩ :=
    ⟨⟨by decide, by decide⟩, ⟨by decide, by decide⟩⟩
  simp [sampleSelling, sampleOpened, sampleCall, Fair, sampleEnv, samplePoolLoan, hproper]

theorem sample_sold : Reachable (Posts sampleClient) Begun sampleSold :=
  sample_posted sampleSelling _ sample_selling_fair rfl

/-- No lease goes on without its loan at the pool, and none is paid off, closed or liquidated with
the loan left there. -/
theorem loan_until_repaid [DecidableEq Currency] (client : SwapClient Data Msg)
    (w : World Currency Data) (h : Reachable (FairStep client) Opening w) :
    w.pool.isSome = owing w.state ∧ ∀ loan, w.pool = some loan → 0 < loan.principalDue := by
  obtain ⟨w₀, events, hopening, hrun⟩ := h
  obtain ⟨b, hposts⟩ := run_noted
    (fun (b : Books) w event => b.after client w event) w₀ w events hrun .blank
  have hb := books_balanced client (w, b) ⟨_, events, ⟨hopening, rfl⟩, hposts⟩
  exact ⟨hb.backed, hb.someLeft⟩

theorem loan_until_repaid_sample :
    sampleStopped.1.pool.isSome = owing sampleStopped.1.state ∧
      ∀ loan, sampleStopped.1.pool = some loan → 0 < loan.principalDue := by
  have hrun : sampleStopLoss.foldlM (World.step sampleClient) sampleOpening =
      some sampleStopped.1 := by rfl
  refine loan_until_repaid sampleClient sampleStopped.1 ⟨_, sampleStopLoss, sample_begun, ?_⟩
  exact run_mono_on Fair _ (fun _ _ _ hfair hstep => ⟨hfair, hstep⟩) _ _ _ sample_fair
    (run_foldlM _ _ _ _ hrun)

/-- All that a lease takes in, with all that the reserve covers, goes to the pool, to the profit and
back to the customer, or is kept as a payment above the total due or one a close is asked past. -/
theorem payments_accounted [DecidableEq Currency] (client : SwapClient Data Msg)
    (s : World Currency Data × Books) (h : Reachable (Posts client) Begun s) :
    s.2.received + s.2.covered = s.2.repaid + s.2.profit + s.2.change + s.2.kept :=
  (books_balanced client s h).payments

/-- The payment is at none of the accounts, since the stop loss is asked for past it. -/
theorem payments_accounted_sample :
    sampleStopped.2.received = 10 ∧ sampleStopped.2.kept = 10 ∧
      sampleStopped.2.received + sampleStopped.2.covered =
        sampleStopped.2.repaid + sampleStopped.2.profit + sampleStopped.2.change +
          sampleStopped.2.kept :=
  ⟨rfl, rfl, payments_accounted sampleClient sampleStopped sample_stopped⟩

/-- The pool gets back what it has lent together with the interest and nothing in excess, up to
the principal that is still due to it. -/
theorem pool_repaid_exactly [DecidableEq Currency] (client : SwapClient Data Msg)
    (s : World Currency Data × Books) (h : Reachable (Posts client) Begun s) :
    s.2.lent + s.2.interest = s.2.repaid + owed s.1.pool ∧ s.2.excess = 0 := by
  have hb := books_balanced client s h
  have hloan := hb.loan
  have hsplit := hb.split_
  exact ⟨by omega, hb.exact_⟩

theorem pool_repaid_exactly_sample :
    sampleSold.2.lent = 600 ∧ sampleSold.2.interest = 60 ∧ sampleSold.2.repaid = 660 ∧
      sampleSold.2.lent + sampleSold.2.interest =
        sampleSold.2.repaid + owed sampleSold.1.pool ∧ sampleSold.2.excess = 0 :=
  ⟨rfl, rfl, rfl, pool_repaid_exactly sampleClient sampleSold sample_sold⟩

/-- What a lease has bought is sold, handed over, or still its position. -/
theorem asset_accounted [DecidableEq Currency] (client : SwapClient Data Msg)
    (s : World Currency Data × Books) (h : Reachable (Posts client) Begun s) :
    s.2.bought = s.2.released + asset s.1.state :=
  (books_balanced client s h).asset

theorem asset_accounted_sample :
    sampleSold.2.bought = 1000 ∧ sampleSold.2.released = 1000 ∧
      sampleSold.2.bought = sampleSold.2.released + asset sampleSold.1.state :=
  ⟨rfl, rfl, asset_accounted sampleClient sampleSold sample_sold⟩

end Nolus.LeaseBooks
