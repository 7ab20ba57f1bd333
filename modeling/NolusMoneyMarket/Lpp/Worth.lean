import NolusMoneyMarket.Base.SharePool
import NolusMoneyMarket.Lpp.Ledger

/-! # The worth of the pool receipts

The contract state seen as a pool of shares: its worth is the bank balance
with everything the loans owe by a given time. Every successful event is a
move of that pool, and so is the passing of time. A deposit worth less than a
receipt mints none. -/

set_option autoImplicit false

namespace Nolus.LppWorth
open Nolus.Fallible Nolus.Prices Nolus.LppLoan Nolus.LppTotal Nolus.LppDeposit Nolus.LppPool
open Nolus.LppEffects Nolus.LppLedger Nolus.SharePools Nolus.Runs

def sharesAt (pool : Pool) (now : ℕ) : SharePool := ⟨pool.worth now, pool.supply⟩

theorem worth_mono (pool : Pool) (t u : ℕ) (h : t ≤ u) : pool.worth t ≤ pool.worth u := by
  have hi := interestBy_mono pool.total t u h
  simp only [Pool.worth]
  omega

theorem interestBy_changed (total : Total) (now interest : ℕ) (ht : total.lastUpdateTime = now)
    (hi : total.totalInterestDue = interest) : total.interestBy now = interest := by
  rw [← ht, interestBy_last, hi]

theorem opened_worth (old next : Pool) (now : ℕ) (lease : Addr) (amount rate funds : ℕ)
    (h : LoanOpened old now lease amount rate funds next) :
    next.worth now = old.worth now + funds ∧ next.supply = old.supply := by
  have hi := interestBy_changed _ _ _ h.total.time.2 h.total.interest
  have hp := h.total.principal
  have hb := h.balance
  constructor
  · simp only [Pool.worth]
    omega
  · rw [Pool.supply, h.lenders]
    rfl

theorem repaid_worth (old next : Pool) (now : ℕ) (lease : Addr) (loan : Loan) (payment : ℕ)
    (h : LoanRepaid old now lease loan payment next) :
    old.worth now ≤ next.worth now ∧ next.supply = old.supply := by
  have hi := interestBy_changed _ _ _ h.total.time.2 h.total.interest
  have hp := h.total.principal
  have hc := h.total.covered
  have hb := h.balance
  have hs := shares_sum loan now payment
  constructor
  · simp only [Pool.worth]
    omega
  · rw [Pool.supply, h.lenders]
    rfl

theorem deposited_move (old next : Pool) (now amount : ℕ) (h : Deposited old now amount next) :
    Move (sharesAt old now) (sharesAt next now) := by
  have hb := h.balance
  have hw : next.worth now = old.worth now + amount := by
    simp only [Pool.worth, h.total]
    omega
  have hs := h.supply
  have hnext : sharesAt next now = ⟨old.worth now + amount, old.supply + old.minted now amount⟩ := by
    rw [sharesAt, hw, hs]
  rw [hnext, Pool.minted]
  split_ifs with h0
  · rw [h0, Nat.zero_add]
    exact Move.first (sharesAt old now) amount h0
  · exact Move.mint (sharesAt old now) amount (Nat.pos_of_ne_zero h0)

theorem withdrawn_move (old next : Pool) (now burnt funds paid : ℕ)
    (h : Withdrawn old now burnt funds paid next) :
    Move (sharesAt old now) (sharesAt next now) := by
  have hb := h.balance
  have hc := h.covered
  have hs := h.supply
  have hp := h.price
  have hw : next.worth now = old.worth now + funds - paid := by
    simp only [Pool.worth, h.total]
    omega
  split_ifs at hp with h0
  · have hburnt : burnt = 0 := by omega
    have hmove := Move.gain (sharesAt old now) (next.worth now)
      (by simp only [sharesAt]; omega)
    have hnext : sharesAt next now = ⟨next.worth now, old.supply⟩ := by
      rw [sharesAt, hs, hburnt, Nat.sub_zero]
    rw [hnext]
    exact hmove
  · have hnext : sharesAt next now = ⟨old.worth now + funds - paid, old.supply - burnt⟩ := by
      rw [sharesAt, hw, hs]
    rw [hnext, hp]
    exact Move.burn (sharesAt old now) funds burnt hc (Nat.pos_of_ne_zero h0)

/-- Every effect of the pool is a move of the shares at the time of its block. -/
theorem effect_move (old next : Pool) (now : ℕ) (loanOp : Bool)
    (h : Effect now old next loanOp) : Move (sharesAt old now) (sharesAt next now) := by
  cases h with
  | opened lease amount rate funds h =>
    obtain ⟨hw, hs⟩ := opened_worth _ _ _ _ _ _ _ h
    rw [sharesAt, sharesAt, hs]
    exact Move.gain ⟨old.worth now, old.supply⟩ _ (by simp only; omega)
  | repaid lease loan payment h =>
    obtain ⟨hw, hs⟩ := repaid_worth _ _ _ _ _ _ h
    rw [sharesAt, sharesAt, hs]
    exact Move.gain ⟨old.worth now, old.supply⟩ _ hw
  | deposited amount h => exact deposited_move _ _ _ _ h
  | withdrawn burnt funds paid h => exact withdrawn_move _ _ _ _ _ _ h
  | idle h =>
    have hb := h.balance
    rw [sharesAt, sharesAt, h.supply]
    apply Move.gain ⟨old.worth now, old.supply⟩
    simp only [Pool.worth, h.total]
    omega

theorem time_notBelow (pool : Pool) (t u : ℕ) (h : t ≤ u) :
    NotBelow (sharesAt pool t) (sharesAt pool u) :=
  Nat.mul_le_mul_right _ (worth_mono pool t u h)

def Covered (pool : Pool) (now : ℕ) : Prop := 0 < pool.supply → pool.supply ≤ pool.worth now

theorem covered_later (pool : Pool) (t u : ℕ) (h : t ≤ u) (hc : Covered pool t) :
    Covered pool u :=
  fun hs => (hc hs).trans (worth_mono pool t u h)

theorem step_move (chain : Chain) (label : ℕ × Event) (next : Chain)
    (h : Step chain label next) (hs : Sound chain) :
    Move (sharesAt chain.pool next.time) (sharesAt next.pool next.time) := by
  have heff := step_effect _ _ _ h hs
  rw [h.2.2]
  exact effect_move _ _ _ _ heff

theorem step_covered (chain : Chain) (label : ℕ × Event) (next : Chain)
    (h : Step chain label next) (hs : Sound chain) (hc : Covered chain.pool chain.time) :
    Covered next.pool next.time := by
  have htime : chain.time ≤ next.time := by
    rw [h.2.2]
    exact h.1
  intro hn
  exact move_backed _ _ (step_move _ _ _ h hs) (covered_later _ _ _ htime hc) hn

theorem reachable_covered (chain : Chain) (h : Reachable Step Empty chain) :
    Covered chain.pool chain.time := by
  apply (reachable_induction Empty (fun c => Sound c ∧ Covered c.pool c.time) ?_ ?_ chain h).2
  · intro c hc
    have h0 : c.pool.supply = 0 := by
      rw [Pool.supply, hc.2.2]
      rfl
    exact ⟨empty_sound c hc, fun hs => absurd hs (by omega)⟩
  · intro c label next hstep hc
    exact ⟨step_sound _ _ _ hstep hc.1, step_covered _ _ _ hstep hc.1 hc.2⟩

theorem step_ratio (chain : Chain) (label : ℕ × Event) (next : Chain)
    (h : Step chain label next) (hs : Sound chain) (h1 : 0 < chain.pool.supply)
    (h2 : 0 < next.pool.supply) :
    (sharesAt chain.pool chain.time).ratio ≤ (sharesAt next.pool next.time).ratio := by
  have htime : chain.time ≤ next.time := by
    rw [h.2.2]
    exact h.1
  have hmove := move_notBelow _ _ (step_move _ _ _ h hs) h1
  have hwait := time_notBelow chain.pool _ _ htime
  exact notBelow_ratio _ _ h1 h2 (notBelow_trans _ (sharesAt chain.pool next.time) _ h1 hwait hmove)

theorem new_above_identity (shares worth : ℕ) (price : Price) (h : shares ≤ worth)
    (hn : (Price.new shares worth : Outcome ContractError Price) = .ok price) :
    Price.identity ≤ price := by
  obtain ⟨hg, h1, h2⟩ := new_ok _ _ _ hn
  rw [le_def]
  simp only [Price.identity, Nat.one_mul]
  apply Nat.le_of_mul_le_mul_right _ hg
  omega

/-- The asserted price of a receipt is never below the initial one, also while the funds
of the message being handled are in the balance already. -/
theorem calculatePrice_above_identity (pool : Pool) (now pending : ℕ) (funds : List CwCoin)
    (price : Price) (hl : Ledger pool) (hc : Covered pool now)
    (hp : pending ≤ fundsOf .lpn funds)
    (h : (pool.credit funds).calculatePrice now pending = .ok price) :
    Price.identity ≤ price := by
  rcases calculatePrice_ok _ _ _ _ (credit_ledger _ funds hl).proper h with
    ⟨_, rfl⟩ | ⟨hs, _, _, hn⟩
  · exact le_refl (1 * 1)
  · apply new_above_identity _ _ _ _ hn
    have hcov := hc hs
    have hsupply : (pool.credit funds).supply = pool.supply := rfl
    have hworth : (pool.credit funds).worth now = pool.worth now + fundsOf .lpn funds := by
      simp only [Pool.worth, Pool.credit]
      omega
    omega

/-- The pool is worth at least its receipts, the price it asserts is never below the
initial one, and the worth of a receipt never decreases from one event to the next. -/
theorem pool_worth_covers_receipts (chain : Chain) (h : Reachable Step Empty chain) :
    (∀ now, chain.time ≤ now → 0 < chain.pool.supply →
        chain.pool.supply ≤ chain.pool.worth now) ∧
      (∀ now w, chain.pool.totalLpn now 0 = .ok w → w = chain.pool.worth now) ∧
      (∀ now pending funds price, chain.time ≤ now → pending ≤ fundsOf .lpn funds →
        (chain.pool.credit funds).calculatePrice now pending = .ok price →
        Price.identity ≤ price) ∧
      ∀ label next, Step chain label next → 0 < chain.pool.supply → 0 < next.pool.supply →
        (chain.pool.worth chain.time : ℚ) / chain.pool.supply ≤
          (next.pool.worth next.time : ℚ) / next.pool.supply := by
  have hs := reachable_sound chain h
  have hc := reachable_covered chain h
  constructor
  · intro now hnow
    exact covered_later _ _ _ hnow hc
  constructor
  · intro now w hw
    have he := (totalLpn_ok _ _ _ _ hs.ledger.proper hw).2.2
    simpa [Pool.worth] using he
  constructor
  · intro now pending funds price hnow hp hprice
    exact calculatePrice_above_identity _ _ _ _ _ hs.ledger (covered_later _ _ _ hnow hc) hp hprice
  · intro label next hstep h1 h2
    exact step_ratio _ _ _ hstep hs h1 h2

theorem pool_worth_covers_receipts_halved :
    (∀ now, sampleHalved.time ≤ now → 0 < sampleHalved.pool.supply →
        sampleHalved.pool.supply ≤ sampleHalved.pool.worth now) ∧
      (∀ now w, sampleHalved.pool.totalLpn now 0 = .ok w → w = sampleHalved.pool.worth now) ∧
      (∀ now pending funds price, sampleHalved.time ≤ now → pending ≤ fundsOf .lpn funds →
        (sampleHalved.pool.credit funds).calculatePrice now pending = .ok price →
        Price.identity ≤ price) ∧
      ∀ label next, Step sampleHalved label next → 0 < sampleHalved.pool.supply →
        0 < next.pool.supply →
        (sampleHalved.pool.worth sampleHalved.time : ℚ) / sampleHalved.pool.supply ≤
          (next.pool.worth next.time : ℚ) / next.pool.supply :=
  pool_worth_covers_receipts sampleHalved sample_reachable

/-! ## Deposits too small for a receipt -/

theorem minted_pos (pool : Pool) (now amount : ℕ) (ha : 0 < amount) (hc : Covered pool now) :
    0 < pool.minted now amount ↔ pool.supply = 0 ∨ pool.worth now ≤ pool.supply * amount := by
  unfold Pool.minted
  split_ifs with h0
  · exact ⟨fun _ => .inl h0, fun _ => ha⟩
  · have hworth : 0 < pool.worth now := by
      have hs : 0 < pool.supply := Nat.pos_of_ne_zero h0
      have hle := hc hs
      omega
    rw [Nat.div_pos_iff]
    constructor
    · intro h
      exact .inr h.2
    · intro h
      exact ⟨hworth, h.resolve_left h0⟩

/-- A successful deposit mints receipts to the lender exactly when there are none yet or
the amount is worth one receipt at least. -/
theorem deposit_mints_iff (chain : Chain) (h : Reachable Step Empty chain) (now : ℕ) (call : Call)
    (next : Pool) (hnow : chain.time ≤ now) (hm : call.msg = .deposit)
    (he : chain.pool.execute now call = .ok next) :
    (chain.pool.lenders.loadOrDefault call.sender).depositedNlpn <
        (next.lenders.loadOrDefault call.sender).depositedNlpn ↔
      chain.pool.supply = 0 ∨
        chain.pool.worth now ≤ chain.pool.supply * fundsOf .lpn call.funds := by
  have hs := reachable_sound chain h
  have hc := covered_later _ _ _ hnow (reachable_covered chain h)
  obtain ⟨hdep, hlender⟩ := deposit_deposits _ _ _ _ hs.ledger.proper hm he
  rw [hlender, ← minted_pos _ _ _ hdep.amount_pos hc]
  omega

def donated : Chain :=
  ⟨⟨sampleConfig, 0, Total.new, ∅, ⟨AList.insert 9 ⟨1, none, 0⟩ ∅, ⟨1, none⟩⟩, 3, 0⟩, 2⟩

def donatedDeposited : Pool :=
  ⟨sampleConfig, 0, Total.new, ∅,
    ⟨AList.insert 8 ⟨0, none, 0⟩ (AList.insert 9 ⟨1, none, 0⟩ ∅), ⟨1, none⟩⟩, 5, 0⟩

theorem donated_reachable : Reachable Step Empty donated :=
  ⟨sampleEmpty,
    [(1, .execute ⟨9, none, [⟨.lpn, 1⟩], .deposit⟩), (2, .transfer [⟨.lpn, 2⟩])],
    ⟨rfl, rfl, rfl⟩, advance_run _ _ _ rfl⟩

theorem donated_deposit :
    donated.pool.execute 3 ⟨8, none, [⟨.lpn, 2⟩], .deposit⟩ = .ok donatedDeposited := rfl

theorem deposit_mints_iff_donated :
    (donated.pool.lenders.loadOrDefault 8).depositedNlpn <
        (donatedDeposited.lenders.loadOrDefault 8).depositedNlpn ↔
      donated.pool.supply = 0 ∨ donated.pool.worth 3 ≤ donated.pool.supply * 2 :=
  deposit_mints_iff donated donated_reachable 3 ⟨8, none, [⟨.lpn, 2⟩], .deposit⟩ donatedDeposited
    (by decide) rfl donated_deposit

/-- The deposit of two is accepted and mints nothing. -/
theorem deposit_mints_nothing :
    Reachable Step Empty donated ∧
      donated.pool.execute 3 ⟨8, none, [⟨.lpn, 2⟩], .deposit⟩ = .ok donatedDeposited ∧
      (donated.pool.lenders.loadOrDefault 8).depositedNlpn =
        (donatedDeposited.lenders.loadOrDefault 8).depositedNlpn ∧
      donatedDeposited.supply = donated.pool.supply :=
  ⟨donated_reachable, donated_deposit, by decide, by decide⟩

end Nolus.LppWorth
