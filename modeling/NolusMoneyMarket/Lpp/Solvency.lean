import NolusMoneyMarket.Lpp.Rewards

/-! # Solvency of the rewards

The rights of all deposits together with the rewards paid grow by what is
distributed. Only a change of the receipts of an open deposit adds to them, by
less than one reward, since the product recorded then is rounded down. The
rewards a lender may claim are never more than the right of the deposit. -/

set_option autoImplicit false

namespace Nolus.LppSolvency
open Nolus.Fallible Nolus.Fraction Nolus.Prices Nolus.LppLoan Nolus.LppTotal
open Nolus.LppDeposit Nolus.LppPool Nolus.LppLedger Nolus.LppRewards Nolus.KeyedStore
open Nolus.RewardIndex Nolus.Runs

def right (lenders : Deposits) (data : DepositData) : ℚ := (account data).right (index lenders)

def rights (lenders : Deposits) : ℚ := sum (right lenders) lenders.deposits

/-- What the query of the rewards returns, and nothing where it fails. -/
def queried (lenders : Deposits) (data : DepositData) : ℕ :=
  match (data.calculateReward lenders.globals : Outcome ContractError ℕ) with
  | .ok reward => reward
  | .error _ => 0

def claimable (lenders : Deposits) : ℕ := sum (queried lenders) lenders.deposits

theorem queried_le_right (lenders : Deposits) (data : DepositData) (hp : AllPriced lenders)
    (hd : Priced data.rewardPerToken) : (queried lenders data : ℚ) ≤ right lenders data := by
  unfold queried
  split
  · rename_i reward hr
    obtain ⟨_, rfl⟩ := calculateReward_ok _ _ _ hp.globals hd hr
    exact due_le_right _ _ (index_nonneg lenders)
  · exact_mod_cast right_nonneg _ _

theorem claimable_le_rights (lenders : Deposits) (hp : AllPriced lenders) :
    (claimable lenders : ℚ) ≤ rights lenders := by
  rw [claimable, sum_cast]
  apply sum_le_sum
  intro addr data hl
  exact queried_le_right lenders data hp (hp.deposits addr data hl)

theorem default_right (lenders : Deposits) : right lenders DepositData.default = 0 := by
  simp [right, account, DepositData.default, Account.right, accrued, perToken]

theorem same_index (old next : Deposits)
    (h : next.globals.rewardPerToken = old.globals.rewardPerToken) : right next = right old := by
  funext data
  rw [right, right, index, index, h]

theorem distributed_rights (old next : Deposits) (rewards : ℕ) (share price : Price)
    (h : Distributed old next rewards share price) (hp : AllPriced old)
    (hb : old.Balanced) : rights next ≤ rights old + rewards := by
  have hgrow := (distributed_index _ _ _ _ _ h hp.globals).2
  set each : ℚ := rewards / old.globals.balanceNlpn with heach
  have hpos : (0 : ℚ) < old.globals.balanceNlpn := by exact_mod_cast h.supply_pos
  have h0 : 0 ≤ each := by positivity
  have hsum : sum (fun data => (data.depositedNlpn : ℚ) * each) old.deposits = rewards := by
    have hcast : sum (fun data => (data.depositedNlpn : ℚ)) old.deposits =
        old.globals.balanceNlpn := by
      rw [← hb, Deposits.receipts, sum_cast]
    rw [sum_mul, hcast, heach]
    field_simp
  rw [rights, h.deposits]
  calc sum (right next) old.deposits
      ≤ sum (fun data => right old data + (data.depositedNlpn : ℚ) * each) old.deposits := by
        apply sum_le_sum
        intro addr data _
        exact right_grows (account data) (index old) (index next) each h0 hgrow
    _ = rights old + rewards := by
        rw [sum_add, hsum]
        rfl

theorem settled_rights (old next : Deposits) (addr : Addr) (reward paid deposited : ℕ) (gain : ℚ)
    (h : Settled old next addr reward paid deposited)
    (hg : right old ⟨deposited, old.globals.rewardPerToken, reward - paid⟩ + paid ≤
      right old (old.loadOrDefault addr) + gain) :
    rights next + paid ≤ rights old + gain := by
  have hwrite := sum_write (right old) old.deposits addr DepositData.default
    ⟨deposited, old.globals.rewardPerToken, reward - paid⟩ (default_right old)
  rw [rights, same_index old next h.unchanged, h.deposits]
  simp only [rights, Deposits.loadOrDefault] at hg ⊢
  linarith

theorem settled_due (old next : Deposits) (addr : Addr) (reward paid deposited : ℕ)
    (h : Settled old next addr reward paid deposited) (hp : AllPriced old) :
    (account (old.loadOrDefault addr)).Ahead (index old) ∧
      reward = (account (old.loadOrDefault addr)).due (index old) :=
  calculateReward_ok _ _ _ hp.globals
    (loadOrDefault_all _ old addr hp.deposits default_priced) h.computed

theorem closed_rights (old next : Deposits) (addr : Addr) (data : DepositData) (reward : ℕ)
    (h : Closed old next addr data reward) (hp : AllPriced old) :
    rights next + reward ≤ rights old := by
  have herase := sum_erase (right old) old.deposits addr data h.found
  have hd := hp.deposits addr data h.found
  have hdue : reward = (account data).due (index old) :=
    (calculateReward_ok _ _ _ hp.globals hd h.computed).2
  have hle := due_le_right (account data) (index old) (index_nonneg old)
  rw [← hdue] at hle
  rw [rights, same_index old next h.unchanged, h.deposits]
  simp only [rights, right] at herase ⊢
  linarith

/-- What an effect adds to the rights and the payments. -/
theorem effect_rights (old next : Deposits) (rewards paid : ℕ) (resized : Bool)
    (h : RewardEffect old next rewards paid resized) (hp : AllPriced old) (hb : old.Balanced) :
    rights next + paid ≤ rights old + rewards + if resized then 1 else 0 := by
  have h0 := index_nonneg old
  cases h with
  | same hd hg =>
    rw [rights, same_index old next hg, hd]
    simp [rights]
  | distributed _ share price hd =>
    have hgrow := distributed_rights _ _ _ _ _ hd hp hb
    simpa using hgrow
  | claimed addr _ hs =>
    obtain ⟨hahead, hdue⟩ := settled_due _ _ _ _ _ _ hs hp
    have hsame := settled_same _ (index old) paid h0 hahead (le_of_eq hdue)
    rw [← hdue, ← add_zero (Account.right (account _) _)] at hsame
    have hsum := settled_rights _ _ _ _ _ _ 0 hs hsame
    simpa using hsum
  | resized addr reward deposited hs =>
    obtain ⟨_, hdue⟩ := settled_due _ _ _ _ _ _ hs hp
    have hchanged := settled_changed (account (old.loadOrDefault addr)) (index old) deposited 0 h0
      (Nat.zero_le _)
    rw [← hdue] at hchanged
    have hsum := settled_rights _ _ _ _ _ _ 1 hs hchanged
    simpa using hsum
  | closed addr data _ hc =>
    have hclose := closed_rights _ _ _ _ _ hc hp
    simpa using hclose

/-! ## Books -/

/-- The pool with the rewards distributed and paid so far, and the number of changes of
the receipts of open deposits. -/
structure Book where
  chain : Chain
  distributed : ℕ
  paid : ℕ
  resized : ℕ

def Book.enter (self : Book) (event : Event) (chain : Chain) : Book :=
  ⟨chain, self.distributed + distributedBy event,
    self.paid + paidBy self.chain.pool event chain.pool,
    self.resized + if resizes self.chain.pool event then 1 else 0⟩

def BookStep (book : Book) (label : ℕ × Event) (next : Book) : Prop :=
  Step book.chain label next.chain ∧ next = book.enter label.2 next.chain

def Opened (book : Book) : Prop := ∃ chain, Empty chain ∧ book = ⟨chain, 0, 0, 0⟩

structure Solvent (book : Book) : Prop where
  sound : Sound book.chain
  priced : AllPriced book.chain.pool.lenders
  bound : rights book.chain.pool.lenders + book.paid ≤ book.distributed + book.resized

theorem step_solvent (book : Book) (label : ℕ × Event) (next : Book)
    (h : BookStep book label next) (hs : Solvent book) : Solvent next := by
  obtain ⟨hstep, henter⟩ := h
  have heffect := step_rewards _ _ _ hstep
  have hadded := effect_rights _ _ _ _ _ heffect hs.priced hs.sound.ledger.receipts
  have hold := hs.bound
  constructor
  · exact step_sound _ _ _ hstep hs.sound
  · exact effect_priced _ _ _ _ _ heffect hs.priced
  · rw [henter]
    simp only [Book.enter]
    push_cast
    linarith

theorem opened_solvent (book : Book) (h : Opened book) : Solvent book := by
  obtain ⟨chain, he, rfl⟩ := h
  constructor
  · exact empty_sound chain he
  · exact empty_priced chain he
  · simp only [he.2.2, rights, sum_empty]
    simp

/-- The rewards paid and claimable exceed the distributed ones by no more than one for each
deposit and each withdrawal of a part. -/
theorem rewards_covered_up_to_resizes (book : Book) (h : Reachable BookStep Opened book) :
    book.paid + claimable book.chain.pool.lenders ≤ book.distributed + book.resized := by
  have hs := reachable_induction Opened Solvent opened_solvent step_solvent book h
  have hle := claimable_le_rights _ hs.priced
  have hb := hs.bound
  have hsum : ((book.paid + claimable book.chain.pool.lenders : ℕ) : ℚ) ≤
      (book.distributed + book.resized : ℕ) := by
    push_cast
    linarith
  exact_mod_cast hsum

def Book.advance (self : Book) (label : ℕ × Event) : Option Book :=
  (self.chain.advance label).map (self.enter label.2)

theorem book_advance (book : Book) (label : ℕ × Event) (next : Book)
    (h : book.advance label = some next) : BookStep book label next := by
  obtain ⟨chain, hc, rfl⟩ := Option.map_eq_some_iff.1 h
  exact ⟨advance_step _ _ _ hc, rfl⟩

def sampleOpen : Book := ⟨sampleEmpty, 0, 0, 0⟩

def halved : Book :=
  ⟨rewardedChain (AList.insert 7 ⟨1, some ⟨2, 1⟩, 0⟩ (AList.insert 8 ⟨1, some ⟨2, 1⟩, 0⟩ ∅)) 2
    (some ⟨1, 1⟩) 2 1 7, 2, 1, 3⟩

def halvingEvents : List (ℕ × Event) :=
  [(1, .execute ⟨9, none, [⟨.lpn, 2⟩], .deposit⟩),
    (2, .execute ⟨3, none, [⟨.nls, 1⟩], .distributeRewards⟩),
    (3, .execute ⟨9, none, [], .claimRewards⟩),
    (4, .execute ⟨9, none, [], .burn 2⟩),
    (5, .execute ⟨8, none, [⟨.lpn, 1⟩], .deposit⟩),
    (6, .execute ⟨7, none, [⟨.lpn, 1⟩], .deposit⟩),
    (7, .execute ⟨3, none, [⟨.nls, 1⟩], .distributeRewards⟩)]

theorem halved_reachable : Reachable BookStep Opened halved :=
  ⟨sampleOpen, halvingEvents, ⟨sampleEmpty, ⟨rfl, rfl, rfl⟩, rfl⟩,
    run_mono BookStep book_advance _ _ _ (run_foldlM Book.advance sampleOpen halved halvingEvents rfl)⟩

theorem rewards_covered_up_to_resizes_halved :
    halved.paid + claimable halved.chain.pool.lenders ≤ halved.distributed + halved.resized :=
  rewards_covered_up_to_resizes halved halved_reachable

/-- Two rewards are distributed, one is paid and two more are claimable. -/
theorem rewards_exceed_distributions :
    Reachable BookStep Opened halved ∧
      halved.distributed < halved.paid + claimable halved.chain.pool.lenders := by
  constructor
  · exact halved_reachable
  · decide

end Nolus.LppSolvency
