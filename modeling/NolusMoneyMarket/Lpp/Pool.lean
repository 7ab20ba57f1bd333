import NolusMoneyMarket.Base.Runs
import NolusMoneyMarket.Lpp.Config
import NolusMoneyMarket.Lpp.Deposit
import NolusMoneyMarket.Lpp.Total

/-! # The liquidity pool

The contract state with its bank balances, and every message that changes
them. Funds attached to a message are credited before it is handled, payments
out are debited after it, and a failed message leaves nothing behind. The code
of the sender is what a query of its contract info would return. -/

set_option autoImplicit false

namespace Nolus.LppPool
open Nolus.Fallible Nolus.Fraction Nolus.Prices Nolus.LppLoan Nolus.LppTotal
open Nolus.LppConfig Nolus.LppDeposit Nolus.KeyedStore

structure CwCoin where
  denom : Denom
  amount : ℕ
deriving DecidableEq, Repr

def receivedOne (expected : Denom) (funds : List CwCoin) : Outcome ContractError ℕ :=
  match funds with
  | [] => failing (.platform (.noFunds expected))
  | [coin] =>
    if coin.denom = expected then pure coin.amount else failing (.unknownCurrency coin.denom)
  | _ => failing (.platform (.unexpectedFunds expected))

def fundsOf (denom : Denom) (funds : List CwCoin) : ℕ :=
  (funds.map fun coin => if coin.denom = denom then coin.amount else 0).sum

structure Pool where
  config : Config
  leaseCodeAdmin : Addr
  total : Total
  loans : Repo
  lenders : Deposits
  balance : ℕ
  balanceNls : ℕ

def Pool.credit (self : Pool) (funds : List CwCoin) : Pool :=
  { self with
    balance := self.balance + fundsOf .lpn funds
    balanceNls := self.balanceNls + fundsOf .nls funds }

def Pool.sendLpn (self : Pool) (amount : ℕ) : Outcome ContractError Pool :=
  if amount ≤ self.balance then pure { self with balance := self.balance - amount }
  else failing (.platform .insufficientFunds)

def Pool.sendNls (self : Pool) (amount : ℕ) : Outcome ContractError Pool :=
  if amount ≤ self.balanceNls then pure { self with balanceNls := self.balanceNls - amount }
  else failing (.platform .insufficientFunds)

def Pool.totalDue (self : Pool) (now : ℕ) : Outcome ContractError ℕ := do
  let interest ← self.total.totalInterestDueByNow now
  coinAdd self.total.totalPrincipalDue interest

def Pool.commitedBalance (self : Pool) (pendingDeposit : ℕ) : Outcome ContractError ℕ :=
  nativeSub self.balance pendingDeposit

def Pool.totalLpn (self : Pool) (now pendingDeposit : ℕ) : Outcome ContractError ℕ := do
  let balance ← self.commitedBalance pendingDeposit
  let due ← self.totalDue now
  coinAdd balance due

def Pool.utilization (balance totalDue : ℕ) : Outcome ContractError ℕ :=
  if balance = 0 then pure hundred
  else do
    let whole ← coinAdd totalDue balance
    percentFromRatio totalDue whole

def Pool.depositCapacity (self : Pool) (now pendingDeposit : ℕ) :
    Outcome ContractError (Option ℕ) :=
  if self.config.minUtilization = 0 then pure none
  else do
    let totalDue ← self.totalDue now
    let balance ← self.commitedBalance pendingDeposit
    let utilization ← Pool.utilization balance totalDue
    if self.config.minUtilization < utilization then do
      let limit ← Ratio.of ⟨hundred, self.config.minUtilization⟩ totalDue
      let rest ← nativeSub limit balance
      let capacity ← nativeSub rest totalDue
      pure (some capacity)
    else pure (some 0)

/-- The price of a receipt: the worth of the pool over the receipts issued. -/
def Pool.calculatePrice (self : Pool) (now pendingDeposit : ℕ) : Outcome ContractError Price :=
  if self.lenders.globals.balanceNlpn = 0 then pure Price.identity
  else do
    let worth ← self.totalLpn now pendingDeposit
    Price.new self.lenders.globals.balanceNlpn worth

def Pool.withdrawLpn (self : Pool) (now amountNlpn : ℕ) : Outcome ContractError ℕ := do
  let price ← self.calculatePrice now 0
  let amountLpn ← Prices.total amountNlpn price
  if self.balance < amountLpn then failing .noLiquidity else pure amountLpn

def Pool.queryQuote (self : Pool) (quote now : ℕ) : Outcome ContractError (Option ℕ) :=
  if self.balance < quote then pure none
  else do
    let totalInterest ← self.total.totalInterestDueByNow now
    let principalPastQuote ← coinAdd self.total.totalPrincipalDue quote
    let totalLiabilityPastQuote ← coinAdd principalPastQuote totalInterest
    let totalBalancePastQuote ← nativeSub self.balance quote
    let rate ← self.config.borrowRate.calculate totalLiabilityPastQuote totalBalancePastQuote
    pure (some rate)

def Pool.validateLeaseAddr (self : Pool) (leaseAddr : Addr) (code : Option ℕ) :
    Outcome ContractError Unit := do
  let code ← okOr code (.platform .cosmWasmQueryContractInfo)
  ensure (code = self.config.leaseCode)
    (.error (.platform (.unexpectedCode self.config.leaseCode leaseAddr)))

def Pool.tryOpenLoan (self : Pool) (now : ℕ) (leaseAddr : Addr) (code : Option ℕ)
    (amount : ℕ) : Outcome ContractError Pool := do
  let _ ← self.validateLeaseAddr leaseAddr code
  let _ ← ensure (amount ≠ 0) (.error .zeroLoanAmount)
  let quote ← self.queryQuote amount now
  let annualInterestRate ← okOr quote .noLiquidity
  let loans ← self.loans.openLoan leaseAddr ⟨amount, annualInterestRate, now⟩
  let total ← self.total.borrow now amount annualInterestRate
  Pool.sendLpn { self with loans := loans, total := total } amount

/-- The payment is in the balance by now; only its excess goes back. -/
def Pool.tryRepayLoan (self : Pool) (now : ℕ) (leaseAddr : Addr) (code : Option ℕ)
    (funds : List CwCoin) : Outcome ContractError Pool := do
  let repayAmount ← receivedOne .lpn funds
  let _ ← self.validateLeaseAddr leaseAddr code
  let loan ← self.loans.load leaseAddr
  let (repaid, payment) ← loan.repay now repayAmount
  let loans ← self.loans.save leaseAddr repaid
  let total ← self.total.repay now payment.interest payment.principal loan.annualInterestRate
  Pool.sendLpn { self with loans := loans, total := total } payment.excess

def Pool.tryDeposit (self : Pool) (now : ℕ) (lender : Addr) (funds : List CwCoin) :
    Outcome ContractError Pool := do
  let pendingDeposit ← receivedOne .lpn funds
  let capacity ← self.depositCapacity now pendingDeposit
  let _ ← ensure (∀ limit ∈ capacity, pendingDeposit ≤ limit)
    (.error .utilizationBelowMinimalRates)
  let price ← self.calculatePrice now pendingDeposit
  let (lenders, _) ← self.lenders.deposit lender pendingDeposit price
  pure { self with lenders := lenders }

def Pool.tryWithdraw (self : Pool) (now : ℕ) (lender : Addr) (amountNlpn : ℕ) :
    Outcome ContractError Pool := do
  let _ ← ensure (amountNlpn ≠ 0) (.error .zeroWithdrawFunds)
  let paymentLpn ← self.withdrawLpn now amountNlpn
  let deposit ← self.lenders.load lender
  let (lenders, reward) ← self.lenders.withdraw lender deposit amountNlpn
  let paid ← Pool.sendLpn { self with lenders := lenders } paymentLpn
  paid.sendNls (reward.getD 0)

def Pool.tryDistributeRewards (self : Pool) (funds : List CwCoin) :
    Outcome ContractError Pool := do
  let amount ← receivedOne .nls funds
  let lenders ← self.lenders.distributeRewards amount
  pure { self with lenders := lenders }

def Pool.tryClaimRewards (self : Pool) (lender : Addr) : Outcome ContractError Pool := do
  let deposit ← self.lenders.load lender
  let (lenders, reward) ← self.lenders.claimRewards lender deposit
  let _ ← ensure (reward ≠ 0) (.error .noRewards)
  Pool.sendNls { self with lenders := lenders } reward

def Pool.newLeaseCode (self : Pool) (sender : Addr) (code : ℕ) : Outcome ContractError Pool := do
  let _ ← ensure (self.leaseCodeAdmin = sender) (.error .unauthorized)
  pure { self with config := { self.config with leaseCode := code } }

inductive Msg
  | newLeaseCode (code : ℕ)
  | distributeRewards
  | claimRewards
  | openLoan (amount : ℕ)
  | repayLoan
  | deposit
  | burn (amount : ℕ)

structure Call where
  sender : Addr
  senderCode : Option ℕ
  funds : List CwCoin
  msg : Msg

def Pool.execute (self : Pool) (now : ℕ) (call : Call) : Outcome ContractError Pool :=
  let funded := self.credit call.funds
  match call.msg with
  | .newLeaseCode code => funded.newLeaseCode call.sender code
  | .distributeRewards => funded.tryDistributeRewards call.funds
  | .claimRewards => funded.tryClaimRewards call.sender
  | .openLoan amount => funded.tryOpenLoan now call.sender call.senderCode amount
  | .repayLoan => funded.tryRepayLoan now call.sender call.senderCode call.funds
  | .deposit => funded.tryDeposit now call.sender call.funds
  | .burn amount => funded.tryWithdraw now call.sender amount

/-- What changes the pool from the outside: messages, the governance, and plain transfers. -/
inductive Event
  | execute (call : Call)
  | newBorrowRate (rate : InterestRate)
  | minUtilization (level : ℕ) (bound : level ≤ hundred)
  | transfer (funds : List CwCoin)

def Pool.handle (self : Pool) (now : ℕ) (event : Event) : Outcome ContractError Pool :=
  match event with
  | .execute call => self.execute now call
  | .newBorrowRate rate => pure { self with config := { self.config with borrowRate := rate } }
  | .minUtilization level bound => pure { self with config :=
      { self.config with minUtilization := level, min_utilization_le := bound } }
  | .transfer funds => pure (self.credit funds)

structure Chain where
  pool : Pool
  time : ℕ

/-- A block does not come before the previous one; only successful events are steps,
a failed one is rolled back. -/
def Step (chain : Chain) (label : ℕ × Event) (next : Chain) : Prop :=
  chain.time ≤ label.1 ∧ chain.pool.handle label.1 label.2 = .ok next.pool ∧
    next.time = label.1

def Chain.advance (self : Chain) (label : ℕ × Event) : Option Chain :=
  match self.pool.handle label.1 label.2 with
  | .ok pool => if self.time ≤ label.1 then some ⟨pool, label.1⟩ else none
  | .error _ => none

theorem advance_step (chain : Chain) (label : ℕ × Event) (next : Chain)
    (h : chain.advance label = some next) : Step chain label next := by
  unfold Chain.advance at h
  split at h
  · rename_i pool hpool
    split_ifs at h with htime
    cases h
    exact ⟨htime, hpool, rfl⟩
  · cases h

theorem advance_run (chain next : Chain) (events : List (ℕ × Event))
    (h : events.foldlM Chain.advance chain = some next) :
    Runs.Run Step chain events next :=
  Runs.run_mono Step advance_step _ _ _ (Runs.run_foldlM Chain.advance chain next events h)

def Empty (chain : Chain) : Prop :=
  chain.pool.total = Total.new ∧ chain.pool.loans = ∅ ∧
    chain.pool.lenders = ⟨∅, DepositsGlobals.default⟩

def Pool.supply (self : Pool) : ℕ := self.lenders.globals.balanceNlpn

def Pool.worth (self : Pool) (now : ℕ) : ℕ :=
  self.balance + (self.total.totalPrincipalDue + self.total.interestBy now)

def Pool.minted (self : Pool) (now amount : ℕ) : ℕ :=
  if self.supply = 0 then amount else self.supply * amount / self.worth now

end Nolus.LppPool
