import NolusMoneyMarket.Lease.Opening
import NolusMoneyMarket.Lpp.Ledger

/-! # Quotes

A customer asks the leaser for a quote before a lease is opened. The leaser
works it out of the prices of the oracle, the liability of its configuration
and the rate of the pool. The lease does so again as it is opened, and the pool
has the last word. The two come to the same borrow and the same rate. -/

set_option autoImplicit false

namespace Nolus.LeaserQuotes
open Nolus.Fallible Nolus.Fraction Nolus.Prices Nolus.LeaseLiability Nolus.LeasePosition
open Nolus.LeaseOpening
open Nolus.LppPool (Pool)
open Nolus.LppLoan (Loan ContractError)

variable {ε : Type}

inductive OracleError
  | failedToFetchPrice (from_ to_ : ℕ)
deriving DecidableEq, Repr

inductive Error
  | std
  | priceOracle (cause : OracleError)
  | zeroDownpayment
  | noLiquidity
deriving DecidableEq, Repr

inductive LeaseError
  | noPayment
  | priceOracle (cause : OracleError)
  | position (cause : PositionError)
deriving DecidableEq, Repr

structure CoinDTO where
  currency : ℕ
  amount : ℕ
deriving DecidableEq, Repr

structure Oracle where
  base : ℕ
  basePrice : ℕ → Option Price

def Oracle.priceOf (self : Oracle) (c : ℕ) : Outcome OracleError Price :=
  if c = self.base then pure Price.identity
  else okOr (self.basePrice c) (.failedToFetchPrice c self.base)

/-! ## The leaser -/

/-- A query that fails in another contract, by a panic as well, is an error of the one that has
asked. -/
def lppQuote (pool : Pool) (now borrow : ℕ) : Outcome Error ℕ :=
  if borrow = 0 then failing .zeroDownpayment
  else match pool.queryQuote borrow now with
    | .ok (some rate) => pure rate
    | .ok none => failing .noLiquidity
    | .error _ => failing .std

structure QuoteResponse where
  total : ℕ
  borrow : ℕ
  annualInterestRate : ℕ
  annualInterestRateMargin : ℕ
deriving DecidableEq, Repr

def quote (oracle : Oracle) (pool : Pool) (now : ℕ) (liability : Liability)
    (leaseInterestRateMargin : ℕ) (downpayment : CoinDTO) (leaseAsset : ℕ) (maxLtd : Option ℕ) :
    Outcome Error QuoteResponse := do
  let downpaymentPrice ← mapError .priceOracle (oracle.priceOf downpayment.currency)
  let downpaymentLpn ← total downpayment.amount downpaymentPrice
  ensure (downpaymentLpn ≠ 0) (.error .zeroDownpayment)
  let borrow ← liability.initBorrowAmount downpaymentLpn maxLtd
  let assetPrice ← mapError .priceOracle (oracle.priceOf leaseAsset)
  let invested ← coinAdd downpaymentLpn borrow
  let totalAsset ← total invested assetPrice.inv
  let annualInterestRate ← lppQuote pool now borrow
  pure ⟨totalAsset, borrow, annualInterestRate, leaseInterestRateMargin⟩

/-! ## The lease -/

structure OpenLoanReqResult where
  downpayment : CoinDTO
  downpaymentLpn : ℕ
  borrowLpn : ℕ
deriving DecidableEq, Repr

/-- The first coin of a payment currency is the downpayment. -/
def openLoanReq (oracle : Oracle) (isPayment : ℕ → Bool) (spec : Spec) (fundsIn : List CoinDTO)
    (maxLtd : Option ℕ) : Outcome LeaseError OpenLoanReqResult := do
  let downpayment ← okOr (fundsIn.find? fun coin => isPayment coin.currency) .noPayment
  let price ← mapError .priceOracle (oracle.priceOf downpayment.currency)
  let downpaymentLpn ← total downpayment.amount price
  let borrowLpn ← mapError .position (spec.calcBorrowAmount downpaymentLpn maxLtd)
  pure ⟨downpayment, downpaymentLpn, borrowLpn⟩

/-! ## Successes do not depend on the errors of the one that computes -/

variable {ε' : Type}

theorem safeMul_elsewhere (width whole v : ℕ) (ratio : Ratio)
    (h : (safeMul width whole ratio : Outcome ε ℕ) = .ok v) :
    (safeMul width whole ratio : Outcome ε' ℕ) = .ok v := by
  unfold safeMul at h ⊢
  split_ifs at h ⊢ with hwhole hzero hfits
  · rw [(pure_ok _ _).1 h]
    rfl
  · exact absurd h (panicking_ok _ _)
  · rw [(pure_ok _ _).1 h]
    rfl
  · exact absurd h (panicking_ok _ _)

theorem total_elsewhere (amount v : ℕ) (price : Price)
    (h : (total amount price : Outcome ε ℕ) = .ok v) :
    (total amount price : Outcome ε' ℕ) = .ok v := safeMul_elsewhere _ _ _ _ h

theorem initBorrowAmount_elsewhere (self : Liability) (downpayment borrow : ℕ)
    (mayMaxLtd : Option ℕ)
    (h : (self.initBorrowAmount downpayment mayMaxLtd : Outcome ε ℕ) = .ok borrow) :
    (self.initBorrowAmount downpayment mayMaxLtd : Outcome ε' ℕ) = .ok borrow := by
  simp only [Liability.initBorrowAmount, bind_ok, nativeSub_ok] at h ⊢
  obtain ⟨complement, hcomplement, defaultBorrow, hdefault, hborrow⟩ := h
  refine ⟨complement, hcomplement, defaultBorrow, safeMul_elsewhere _ _ _ _ hdefault, ?_⟩
  cases mayMaxLtd with
  | none =>
    rw [(pure_ok _ _).1 hborrow]
    rfl
  | some maxLtd =>
    simp only [bind_ok, pure_ok] at hborrow ⊢
    obtain ⟨requested, hrequested, hmin⟩ := hborrow
    exact ⟨requested, safeMul_elsewhere _ _ _ _ hrequested, hmin⟩

/-! ## The two agree -/

theorem lppQuote_ok (pool : Pool) (now borrow rate : ℕ) :
    lppQuote pool now borrow = .ok rate ↔
      borrow ≠ 0 ∧ pool.queryQuote borrow now = .ok (some rate) := by
  unfold lppQuote
  split_ifs with hzero
  · simp [hzero]
  · cases pool.queryQuote borrow now with
    | error fault => simp [hzero]
    | ok answer => cases answer <;> simp [hzero]

structure Requested (oracle : Oracle) (spec : Spec) (maxLtd : Option ℕ)
    (req : OpenLoanReqResult) : Prop where
  price : ∃ price, oracle.priceOf req.downpayment.currency = .ok price ∧
    (total req.downpayment.amount price : Outcome LeaseError ℕ) = .ok req.downpaymentLpn
  borrow : (spec.liability.initBorrowAmount req.downpaymentLpn maxLtd : Outcome PositionError ℕ) =
    .ok req.borrowLpn
  downpaid : 0 < req.downpaymentLpn
  fits : req.downpaymentLpn + req.borrowLpn < 2 ^ amountBits

theorem openLoanReq_ok (oracle : Oracle) (isPayment : ℕ → Bool) (spec : Spec)
    (fundsIn : List CoinDTO) (maxLtd : Option ℕ) (req : OpenLoanReqResult)
    (h : openLoanReq oracle isPayment spec fundsIn maxLtd = .ok req) :
    Requested oracle spec maxLtd req := by
  simp only [openLoanReq, bind_ok, okOr_ok, mapError_ok, pure_ok] at h
  obtain ⟨downpayment, -, price, hprice, downpaymentLpn, htotal, borrow, hborrow, rfl⟩ := h
  obtain ⟨hopened, -⟩ := calcBorrowAmount_ok spec downpaymentLpn borrow maxLtd hborrow
  simp only [Spec.calcBorrowAmount, bind_ok, ensure_ok, pure_ok] at hborrow
  obtain ⟨_, _, _, _, _, hinit, _, _, _, _, _, _, _, _, _, _, rfl⟩ := hborrow
  exact
    { price := ⟨price, hprice, htotal⟩
      borrow := hinit
      downpaid := lt_of_lt_of_le spec.minTransaction_pos hopened.downpaid
      fits := hopened.fits }

theorem coinAdd_fits (a b : ℕ) (h : a + b < 2 ^ amountBits) :
    (coinAdd a b : Outcome ε ℕ) = .ok (a + b) := (coinAdd_ok a b (a + b)).2 ⟨h, rfl⟩

def quoteOf (oracle : Oracle) (invested leaseAsset borrow rate leaseInterestRateMargin : ℕ) :
    Outcome Error QuoteResponse := do
  let assetPrice ← mapError .priceOracle (oracle.priceOf leaseAsset)
  let totalAsset ← total invested assetPrice.inv
  pure ⟨totalAsset, borrow, rate, leaseInterestRateMargin⟩

theorem quote_requested (oracle : Oracle) (pool : Pool) (now : ℕ) (spec : Spec)
    (maxLtd : Option ℕ) (req : OpenLoanReqResult) (rate : ℕ)
    (h : Requested oracle spec maxLtd req)
    (hrate : lppQuote pool now req.borrowLpn = .ok rate) (margin leaseAsset : ℕ) :
    quote oracle pool now spec.liability margin req.downpayment leaseAsset maxLtd =
      quoteOf oracle (req.downpaymentLpn + req.borrowLpn) leaseAsset req.borrowLpn rate margin := by
  obtain ⟨price, hprice, htotal⟩ := h.price
  have htotal' : (total req.downpayment.amount price : Outcome Error ℕ) = .ok req.downpaymentLpn :=
    total_elsewhere _ _ _ htotal
  have hborrow : (spec.liability.initBorrowAmount req.downpaymentLpn maxLtd : Outcome Error ℕ) =
      .ok req.borrowLpn := initBorrowAmount_elsewhere _ _ _ _ h.borrow
  simp only [quote, quoteOf, hprice, mapError, htotal', ensure, h.downpaid.ne', hborrow,
    coinAdd_fits _ _ h.fits, hrate, bind, Except.bind, ne_eq, not_false_eq_true, if_true]

def sampleOracle : Oracle where
  base := 0
  basePrice := fun c => if c = 1 then some ⟨1, 1⟩ else if c = 2 then some ⟨1, 2⟩ else none

def samplePool : Pool := LppLedger.sampleDeposited.pool

def sampleReq : OpenLoanReqResult := ⟨⟨1, 77⟩, 77, 115⟩

theorem sample_request :
    openLoanReq sampleOracle (fun _ => true) LeaseSteady.sampleSpec [⟨1, 77⟩] (some 1500) =
      .ok sampleReq :=
  rfl

/-- A lease borrows what has been quoted for its downpayment, at the rate that has been quoted. -/
theorem opened_as_quoted (oracle : Oracle) (isPayment : ℕ → Bool) (pool next : Pool) (now : ℕ)
    (spec : Spec) (fundsIn : List CoinDTO) (maxLtd : Option ℕ) (req : OpenLoanReqResult)
    (lease : LppLoan.Addr) (code : Option ℕ)
    (hreq : openLoanReq oracle isPayment spec fundsIn maxLtd = .ok req)
    (hloan : pool.execute now ⟨lease, code, [], .openLoan req.borrowLpn⟩ = .ok next) :
    ∃ rate, next.loans.lookup lease = some ⟨req.borrowLpn, rate, now⟩ ∧
      ∀ margin leaseAsset,
        quote oracle pool now spec.liability margin req.downpayment leaseAsset maxLtd =
          quoteOf oracle (req.downpaymentLpn + req.borrowLpn) leaseAsset req.borrowLpn rate
            margin := by
  have hrequested := openLoanReq_ok oracle isPayment spec fundsIn maxLtd req hreq
  have hcredit : pool.credit [] = pool := rfl
  simp only [Pool.execute, hcredit, Pool.tryOpenLoan, bind_ok, ensure_ok, okOr_ok] at hloan
  obtain ⟨_, _, _, hsome, answer, hanswer, rate, rfl, loans, hloans, total, -, hsent⟩ := hloan
  obtain ⟨-, rfl⟩ := LppEffects.sendLpn_ok _ _ _ hsent
  obtain ⟨-, rfl⟩ := LppLoan.openLoan_ok _ _ _ _ hloans
  have hrate := (lppQuote_ok pool now req.borrowLpn rate).2 ⟨hsome, hanswer⟩
  exact ⟨rate, AList.lookup_insert _,
    quote_requested oracle pool now spec maxLtd req rate hrequested hrate⟩

theorem sample_loan :
    samplePool.execute 10 ⟨5, some 1, [], .openLoan 115⟩ = .ok
      { samplePool with
        total := ⟨115, 0, ⟨8, 115⟩, 10⟩
        loans := AList.insert 5 ⟨115, 73, 10⟩ ∅
        balance := 885 } := rfl

theorem opened_as_quoted_sample :
    ∃ rate, (AList.insert 5 ⟨115, 73, 10⟩ ∅ : LppLoan.Repo).lookup 5 = some ⟨115, rate, 10⟩ ∧
      ∀ margin leaseAsset,
        quote sampleOracle samplePool 10 LeaseSteady.sampleSpec.liability margin ⟨1, 77⟩ leaseAsset
            (some 1500) =
          quoteOf sampleOracle (77 + 115) leaseAsset 115 rate margin :=
  opened_as_quoted sampleOracle (fun _ => true) samplePool _ 10 LeaseSteady.sampleSpec [⟨1, 77⟩]
    (some 1500) sampleReq 5 (some 1) sample_request sample_loan

structure Lendable (pool : Pool) (now amount annual : ℕ) : Prop where
  balance : amount ≤ pool.balance
  interest : ∃ due, (pool.total.totalInterestDueByNow now : Outcome ContractError ℕ) = .ok due
  annual : (pool.total.annualInterestRate.of pool.total.totalPrincipalDue :
    Outcome ContractError ℕ) = .ok annual
  principal : pool.total.totalPrincipalDue + amount < 2 ^ amountBits

theorem queryQuote_lendable (pool : Pool) (amount now rate : ℕ)
    (h : pool.queryQuote amount now = .ok (some rate)) :
    ∃ annual, Lendable pool now amount annual := by
  unfold Pool.queryQuote at h
  split_ifs at h with hbalance
  · cases (pure_ok _ _).1 h
  · simp only [bind_ok, coinAdd_ok] at h
    obtain ⟨due, hdue, _, ⟨hprincipal, -⟩, -⟩ := h
    have hinterest := hdue
    simp only [LppTotal.Total.totalInterestDueByNow, Interest.interest, bind_ok] at hinterest
    obtain ⟨_, -, _, ⟨annual, hannual, -⟩, -⟩ := hinterest
    exact ⟨annual, Nat.le_of_not_lt hbalance, ⟨due, hdue⟩, hannual, hprincipal⟩

theorem borrow_lendable (pool : Pool) (now amount annual rate : ℕ)
    (hl : Lendable pool now amount annual) :
    ∃ due, pool.total.borrow now amount rate = (do
      let loanAnnual ← (percent rate).of amount
      let newAnnualInterest ← okOr (checkedAdd amountBits annual loanAnnual)
        (.overflowError "Annual interest calculation overflow")
      pure ⟨pool.total.totalPrincipalDue + amount, due,
        ⟨newAnnualInterest, pool.total.totalPrincipalDue + amount⟩, now⟩) := by
  obtain ⟨due, hdue⟩ := hl.interest
  have hprincipal : checkedAdd amountBits pool.total.totalPrincipalDue amount =
      some (pool.total.totalPrincipalDue + amount) := (checkedAdd_some _ _ _ _).2 ⟨hl.principal, rfl⟩
  refine ⟨due, ?_⟩
  rw [LppTotal.Total.borrow, hdue, hprincipal, hl.annual]
  rfl

theorem sendLpn_covered (self : Pool) (amount : ℕ) (h : amount ≤ self.balance) :
    self.sendLpn amount = .ok { self with balance := self.balance - amount } := if_pos h

/-- Past the quote only the totals are left to decide. -/
theorem execute_quoted (pool : Pool) (now borrow rate annual : ℕ) (lease : LppLoan.Addr)
    (hrate : lppQuote pool now borrow = .ok rate) (hfree : pool.loans.lookup lease = none)
    (hl : Lendable pool now borrow annual) :
    pool.execute now ⟨lease, some pool.config.leaseCode, [], .openLoan borrow⟩ = (do
      let total ← pool.total.borrow now borrow rate
      pure { pool with
        loans := pool.loans.insert lease ⟨borrow, rate, now⟩
        total := total
        balance := pool.balance - borrow }) := by
  obtain ⟨hsome, hanswer⟩ := (lppQuote_ok _ _ _ _).1 hrate
  have hcredit : pool.credit [] = pool := rfl
  have hvalid : pool.validateLeaseAddr lease (some pool.config.leaseCode) = .ok () := by
    simp [Pool.validateLeaseAddr, okOr, ensure, bind, Except.bind]
  have hopened : pool.loans.openLoan lease ⟨borrow, rate, now⟩ =
      .ok (pool.loans.insert lease ⟨borrow, rate, now⟩) := by
    simp [LppLoan.Repo.openLoan, hfree, pure, Except.pure]
  simp only [Pool.execute, hcredit, Pool.tryOpenLoan, hvalid, hanswer, hopened, ensure, okOr,
    if_pos hsome, bind, Except.bind]
  cases pool.total.borrow now borrow rate with
  | error fault => rfl
  | ok total => exact sendLpn_covered { pool with loans := _, total := total } borrow hl.balance

structure Lends (pool : Pool) (annual : ℕ) (lease : LppLoan.Addr) (loan : Loan)
    (answer : Outcome ContractError Pool) : Prop where
  lent : loan.annualInterest < 2 ^ amountBits → annual + loan.annualInterest < 2 ^ amountBits →
    ∃ next, answer = .ok next ∧ next.loans.lookup lease = some loan ∧
      next.balance + loan.principalDue = pool.balance
  refused : loan.annualInterest < 2 ^ amountBits → 2 ^ amountBits ≤ annual + loan.annualInterest →
    answer = failing (.overflowError "Annual interest calculation overflow")
  panics : 2 ^ amountBits ≤ loan.annualInterest →
    answer = panicking (.overflow "unexpected overflow")

theorem quoted_lends (pool : Pool) (now borrow rate annual : ℕ) (lease : LppLoan.Addr)
    (hrate : lppQuote pool now borrow = .ok rate) (hfree : pool.loans.lookup lease = none)
    (hfits : borrow < 2 ^ amountBits) (hl : Lendable pool now borrow annual) :
    Lends pool annual lease ⟨borrow, rate, now⟩
      (pool.execute now ⟨lease, some pool.config.leaseCode, [], .openLoan borrow⟩) := by
  obtain ⟨due, htotal⟩ := borrow_lendable pool now borrow annual rate hl
  have hannual (h : (percent rate).part borrow < 2 ^ amountBits) :
      ((percent rate).of borrow : Outcome ContractError ℕ) = .ok ((percent rate).part borrow) :=
    safeMul_fits _ _ _ (percent_total_pos rate) h
  rw [execute_quoted pool now borrow rate annual lease hrate hfree hl, htotal]
  refine ⟨fun hloan hsum => ?_, fun hloan hsum => ?_, fun hloan => ?_⟩
  · have hadd : checkedAdd amountBits annual ((percent rate).part borrow) =
        some (annual + (percent rate).part borrow) := (checkedAdd_some _ _ _ _).2 ⟨hsum, rfl⟩
    rw [hannual hloan]
    simp only [bind, Except.bind, hadd, okOr]
    exact ⟨_, rfl, AList.lookup_insert _, Nat.sub_add_cancel hl.balance⟩
  · have hadd : checkedAdd amountBits annual ((percent rate).part borrow) = none :=
      if_neg (Nat.not_lt.2 hsum)
    rw [hannual hloan]
    simp only [bind, Except.bind, hadd, okOr]
    rfl
  · have hpanics : ((percent rate).of borrow : Outcome ContractError ℕ) =
        panicking (.overflow "unexpected overflow") :=
      safeMul_unfit _ _ _ (percent_total_pos rate) hfits hloan
    rw [hpanics]
    rfl

/-- The pool lends a lease what has been quoted for it, but where its own annual interest or that
of the loan would overflow. -/
theorem quoted_is_lent (oracle : Oracle) (isPayment : ℕ → Bool) (pool : Pool) (now : ℕ)
    (spec : Spec) (fundsIn : List CoinDTO) (maxLtd : Option ℕ) (req : OpenLoanReqResult)
    (lease : LppLoan.Addr) (margin leaseAsset : ℕ) (quoted : QuoteResponse)
    (hreq : openLoanReq oracle isPayment spec fundsIn maxLtd = .ok req)
    (hquote : quote oracle pool now spec.liability margin req.downpayment leaseAsset maxLtd =
      .ok quoted) (hfree : pool.loans.lookup lease = none) :
    req.borrowLpn = quoted.borrow ∧
      ∃ annual, (pool.total.annualInterestRate.of pool.total.totalPrincipalDue :
          Outcome ContractError ℕ) = .ok annual ∧
        Lends pool annual lease ⟨quoted.borrow, quoted.annualInterestRate, now⟩
          (pool.execute now ⟨lease, some pool.config.leaseCode, [], .openLoan req.borrowLpn⟩) := by
  have hrequested := openLoanReq_ok oracle isPayment spec fundsIn maxLtd req hreq
  obtain ⟨price, hprice, htotal⟩ := hrequested.price
  simp only [quote, bind_ok, mapError_ok, ensure_ok, pure_ok] at hquote
  obtain ⟨price', hprice', downpaymentLpn, htotal', _, -, borrow, hborrow, _, -, _, -, _, -, rate,
    hrate, rfl⟩ := hquote
  rw [hprice] at hprice'
  obtain rfl := Except.ok.inj hprice'
  rw [total_elsewhere _ _ _ htotal] at htotal'
  obtain rfl := Except.ok.inj htotal'
  rw [initBorrowAmount_elsewhere _ _ _ _ hrequested.borrow] at hborrow
  obtain rfl := Except.ok.inj hborrow
  obtain ⟨-, hanswer⟩ := (lppQuote_ok _ _ _ _).1 hrate
  obtain ⟨annual, hl⟩ := queryQuote_lendable pool req.borrowLpn now rate hanswer
  have hfits : req.borrowLpn < 2 ^ amountBits := by
    have hsum := hrequested.fits
    omega
  exact ⟨rfl, annual, hl.annual, quoted_lends pool now _ rate annual lease hrate hfree hfits hl⟩

theorem quoted_is_lent_sample :
    sampleReq.borrowLpn = 115 ∧
      ∃ annual, (samplePool.total.annualInterestRate.of samplePool.total.totalPrincipalDue :
          Outcome ContractError ℕ) = .ok annual ∧
        Lends samplePool annual 5 ⟨115, 73, 10⟩
          (samplePool.execute 10 ⟨5, some 1, [], .openLoan sampleReq.borrowLpn⟩) :=
  quoted_is_lent sampleOracle (fun _ => true) samplePool 10 LeaseSteady.sampleSpec [⟨1, 77⟩]
    (some 1500) sampleReq 5 30 2 ⟨96, 115, 73, 30⟩ sample_request rfl rfl

end Nolus.LeaserQuotes
