import Mathlib.Data.Prod.Lex
import NolusMoneyMarket.Base.Thresholds
import NolusMoneyMarket.Finance.Fraction
import NolusMoneyMarket.Platform.AccessControl

/-! # The reward scale

A list of bars, each a minimal total value locked with the annual rate from it
on. A scale has its bars in the order of their values, no two of the same one,
and a bar at zero, thus there is a rate for every total. -/

set_option autoImplicit false

namespace Nolus.RewardScales
open Nolus.Fallible Nolus.Fraction Nolus.Thresholds
open Nolus.AccessControl (StdError)

/-- In thousands. -/
abbrev TotalValueLocked : Type := Fin (2 ^ 32)

def scaleFactor : ℕ := 1000000000

variable {ε : Type}

def asCoin (self : TotalValueLocked) : Outcome ε ℕ :=
  expect (checkedMul amountBits self.val scaleFactor)
    (.overflow "Amount goes beyond calculation limits!")

structure Bar where
  tvl : TotalValueLocked
  apr : ℕ
deriving DecidableEq, Repr

/-- The derived order compares the values first, then the rates. -/
instance : LinearOrder Bar :=
  LinearOrder.lift' (fun bar : Bar => toLex (bar.tvl, bar.apr)) fun a b h => by
    obtain ⟨_, _⟩ := a
    obtain ⟨_, _⟩ := b
    simpa using h

theorem tvl_monotone : Monotone Bar.tvl := by
  intro a b h
  exact (Prod.Lex.le_iff.1 h).elim le_of_lt fun heq => heq.1.le

structure RewardScale where
  bars : List Bar
  increasing : Increasing Bar.tvl bars
  zero : ∃ bar ∈ bars, bar.tvl = 0

namespace RewardScale

@[ext] theorem ext (self other : RewardScale) (h : self.bars = other.bars) : self = other := by
  cases self
  cases other
  congr

def new (initialApr : ℕ) : RewardScale where
  bars := [⟨0, initialApr⟩]
  increasing := List.pairwise_singleton _ _
  zero := ⟨⟨0, initialApr⟩, List.mem_singleton_self _, rfl⟩

/-- The bars to add to may be none yet. -/
def internalAddNonOverlapping (isNew : Bool) (self bars : List Bar) :
    Outcome StdError (List Bar) :=
  let sorted := (self ++ bars).insertionSort (· ≤ ·)
  if equalNeighbours Bar.tvl sorted then
    failing (.genericErr (
      if isNew then "Argument vector contains duplicates!"
      else "Argument vector contains duplicates of already defined bars!"))
  else pure sorted

theorem internalAdd_ok (isNew : Bool) (self bars sorted : List Bar) :
    internalAddNonOverlapping isNew self bars = .ok sorted ↔
      ((self ++ bars).map Bar.tvl).Nodup ∧ sorted = (self ++ bars).insertionSort (· ≤ ·) := by
  rw [internalAddNonOverlapping, ← sort_increasing_iff tvl_monotone]
  cases equalNeighbours Bar.tvl ((self ++ bars).insertionSort (· ≤ ·)) with
  | true =>
    rw [if_pos rfl]
    simp [failing]
  | false =>
    rw [if_neg Bool.false_ne_true, pure_ok, eq_comm]
    simp

theorem internalAdd_increasing (isNew : Bool) (self bars sorted : List Bar)
    (h : internalAddNonOverlapping isNew self bars = .ok sorted) : Increasing Bar.tvl sorted := by
  obtain ⟨hnodup, rfl⟩ := (internalAdd_ok _ _ _ _).1 h
  rw [← sorted_increasing_iff tvl_monotone _ (insertionSort_sorted _)]
  exact (sort_increasing_iff tvl_monotone _).2 hnodup

theorem internalAdd_zero (isNew : Bool) (self bars sorted : List Bar)
    (h : internalAddNonOverlapping isNew self bars = .ok sorted)
    (hz : ∃ bar ∈ self ++ bars, bar.tvl = 0) : ∃ bar ∈ sorted, bar.tvl = 0 := by
  obtain ⟨-, rfl⟩ := (internalAdd_ok _ _ _ _).1 h
  obtain ⟨bar, hin, hbar⟩ := hz
  exact ⟨bar, (List.mem_insertionSort _).2 hin, hbar⟩

def addNonOverlapping (self : RewardScale) (bars : List Bar) : Outcome StdError RewardScale :=
  match h : internalAddNonOverlapping false self.bars bars with
  | .error e => .error e
  | .ok sorted => .ok {
      bars := sorted
      increasing := internalAdd_increasing _ _ _ _ h
      zero := internalAdd_zero _ _ _ _ h (by
        obtain ⟨bar, hin, hbar⟩ := self.zero
        exact ⟨bar, List.mem_append_left _ hin, hbar⟩) }

def tryFrom (bars : List Bar) : Outcome StdError RewardScale :=
  if bars = [] then failing (.genericErr "Argument vector contains no bars!")
  else if hz : ∃ bar ∈ bars, bar.tvl = 0 then
    match h : internalAddNonOverlapping true [] bars with
    | .error e => .error e
    | .ok sorted => .ok {
        bars := sorted
        increasing := internalAdd_increasing _ _ _ _ h
        zero := internalAdd_zero _ _ _ _ h hz }
  else failing (.genericErr "No zero TVL reward scale bar found!")

/-- The bar is looked up past the last one whose value is within the total. -/
def getApr (self : RewardScale) (tvlTotal : ℕ) : Outcome ε ℕ := do
  let coins ← self.bars.mapM fun bar => asCoin bar.tvl
  let point := partitionPoint (fun coin => coin ≤ tvlTotal) coins
  match self.bars[point - 1]? with
  | some bar => pure bar.apr
  | none => panicking (.assertion "index out of bounds")

end RewardScale

structure Unchecked where
  bars : List Bar
deriving DecidableEq, Repr

namespace Unchecked

def ofScale (rewardScale : RewardScale) : Unchecked := ⟨rewardScale.bars⟩

def tryInto (self : Unchecked) : Outcome StdError RewardScale := RewardScale.tryFrom self.bars

end Unchecked

/-! ## What the operations do -/

def Bar.coin (self : Bar) : ℕ := self.tvl.val * scaleFactor

theorem asCoin_fits (tvl : TotalValueLocked) :
    (asCoin tvl : Outcome ε ℕ) = .ok (tvl.val * scaleFactor) := by
  have hlt := tvl.isLt
  rw [asCoin, expect_ok, checkedMul_some]
  refine ⟨?_, rfl⟩
  calc tvl.val * scaleFactor < 2 ^ 32 * 2 ^ 96 :=
        Nat.mul_lt_mul_of_lt_of_le hlt (by decide) (by decide)
    _ = 2 ^ amountBits := by decide

theorem asCoin_bars (bars : List Bar) :
    (bars.mapM fun bar => asCoin bar.tvl : Outcome ε (List ℕ)) = .ok (bars.map Bar.coin) := by
  induction bars with
  | nil => rfl
  | cons bar bars ih =>
    rw [List.mapM_cons, asCoin_fits, ih]
    rfl

theorem coin_increasing (bars : List Bar) (h : Increasing Bar.tvl bars) :
    Increasing Bar.coin bars := by
  apply h.imp
  intro a b hlt
  exact Nat.mul_lt_mul_of_pos_right hlt (by decide)

namespace RewardScale

theorem getApr_within (self : RewardScale) (tvlTotal : ℕ) :
    ∃ bar, Within Bar.coin self.bars tvlTotal bar ∧
      (self.getApr tvlTotal : Outcome ε ℕ) = .ok bar.apr := by
  obtain ⟨first, hin, hzero⟩ := self.zero
  have hle : first.coin ≤ tvlTotal := by simp [Bar.coin, hzero]
  obtain ⟨bar, hbar, hwithin⟩ :=
    before_point self.bars tvlTotal first (coin_increasing _ self.increasing) hin hle
  refine ⟨bar, hwithin, ?_⟩
  rw [getApr, bind_ok]
  refine ⟨_, asCoin_bars self.bars, ?_⟩
  simp only [partitionPoint_map, Function.comp_def, hbar]
  rfl

theorem tryFrom_ok (bars : List Bar) (scale : RewardScale) :
    tryFrom bars = .ok scale ↔ (∃ bar ∈ bars, bar.tvl = 0) ∧ (bars.map Bar.tvl).Nodup ∧
      scale.bars = bars.insertionSort (· ≤ ·) := by
  unfold tryFrom
  split_ifs with hnil hz
  · simp [hnil]
  · simp only [hz, true_and]
    have hadd := internalAdd_ok true [] bars
    rw [List.nil_append] at hadd
    split
    · rename_i e he
      simp only [reduceCtorEq, false_iff, not_and]
      intro hnodup _
      rw [(hadd _).2 ⟨hnodup, rfl⟩] at he
      cases he
    · rename_i sorted hsorted
      obtain ⟨hnodup, rfl⟩ := (hadd _).1 hsorted
      rw [Except.ok.injEq, RewardScale.ext_iff]
      simp [hnodup, eq_comm]
  · simp [hz]

theorem addNonOverlapping_ok (self next : RewardScale) (bars : List Bar) :
    self.addNonOverlapping bars = .ok next ↔ ((self.bars ++ bars).map Bar.tvl).Nodup ∧
      next.bars = (self.bars ++ bars).insertionSort (· ≤ ·) := by
  unfold addNonOverlapping
  have hadd := internalAdd_ok false self.bars bars
  split
  · rename_i e he
    simp only [reduceCtorEq, false_iff, not_and]
    intro hnodup _
    rw [(hadd _).2 ⟨hnodup, rfl⟩] at he
    cases he
  · rename_i sorted hsorted
    obtain ⟨hnodup, rfl⟩ := (hadd _).1 hsorted
    rw [Except.ok.injEq, RewardScale.ext_iff, and_iff_right hnodup, eq_comm]

theorem perm_bars (bars : List Bar) (scale : RewardScale) (h : tryFrom bars = .ok scale) :
    scale.bars.Perm bars := by
  rw [((tryFrom_ok bars scale).1 h).2.2]
  exact List.perm_insertionSort _ _

theorem tryFrom_exists (bars : List Bar) (hz : ∃ bar ∈ bars, bar.tvl = 0)
    (hnodup : (bars.map Bar.tvl).Nodup) : ∃ scale, tryFrom bars = .ok scale := by
  obtain ⟨bar, hin, hzero⟩ := hz
  have hinc : Increasing Bar.tvl (bars.insertionSort (· ≤ ·)) := by
    rw [← sorted_increasing_iff tvl_monotone _ (insertionSort_sorted _)]
    exact (sort_increasing_iff tvl_monotone _).2 hnodup
  exact ⟨⟨_, hinc, ⟨bar, (List.mem_insertionSort _).2 hin, hzero⟩⟩,
    (tryFrom_ok _ _).2 ⟨⟨bar, hin, hzero⟩, hnodup, rfl⟩⟩

theorem tryFrom_perm (bars other : List Bar) (scale : RewardScale) (hperm : bars.Perm other)
    (h : tryFrom bars = .ok scale) : tryFrom other = .ok scale := by
  obtain ⟨⟨bar, hin, hzero⟩, hnodup, hbars⟩ := (tryFrom_ok bars scale).1 h
  exact (tryFrom_ok other scale).2 ⟨⟨bar, hperm.mem_iff.1 hin, hzero⟩,
    (hperm.map Bar.tvl).nodup_iff.1 hnodup, hbars.trans (sort_perm _ _ hperm)⟩

theorem tryFrom_bars (self : RewardScale) : tryFrom self.bars = .ok self :=
  (tryFrom_ok self.bars self).2 ⟨self.zero, increasing_nodup _ self.increasing,
    (sort_increasing tvl_monotone _ self.increasing).symm⟩

theorem tryFrom_append (bars more : List Bar) (scale next : RewardScale)
    (h : tryFrom bars = .ok scale) :
    scale.addNonOverlapping more = .ok next ↔ tryFrom (bars ++ more) = .ok next := by
  obtain ⟨⟨bar, hin, hzero⟩, -, hbars⟩ := (tryFrom_ok bars scale).1 h
  have hperm : (scale.bars ++ more).Perm (bars ++ more) :=
    (perm_bars bars scale h).append_right more
  have hz : ∃ bar ∈ bars ++ more, bar.tvl = 0 := ⟨bar, List.mem_append_left _ hin, hzero⟩
  rw [addNonOverlapping_ok, tryFrom_ok, and_iff_right hz, (hperm.map Bar.tvl).nodup_iff,
    sort_perm _ _ hperm]

structure Accepted (bars : List Bar) (scale : RewardScale) : Prop where
  permutation : scale.bars.Perm bars
  total : ∀ tvlTotal, ∃ apr, (scale.getApr tvlTotal : Outcome StdError ℕ) = .ok apr
  reads : ∀ tvlTotal apr, (scale.getApr tvlTotal : Outcome StdError ℕ) = .ok apr ↔
    ∃ bar, Within Bar.coin bars tvlTotal bar ∧ bar.apr = apr
  roundTrip : (Unchecked.ofScale scale).tryInto = .ok scale

theorem tryFrom_accepted (bars : List Bar) (scale : RewardScale) (h : tryFrom bars = .ok scale) :
    Accepted bars scale := by
  have hperm := perm_bars bars scale h
  refine ⟨hperm, ?_, ?_, tryFrom_bars scale⟩
  · intro tvlTotal
    obtain ⟨bar, -, hbar⟩ := getApr_within (ε := StdError) scale tvlTotal
    exact ⟨bar.apr, hbar⟩
  · intro tvlTotal apr
    obtain ⟨bar, hwithin, hbar⟩ := getApr_within (ε := StdError) scale tvlTotal
    rw [hbar, Except.ok.injEq]
    constructor
    · rintro rfl
      exact ⟨bar, within_perm _ _ _ _ hperm hwithin, rfl⟩
    · rintro ⟨other, hother, rfl⟩
      have hsame := within_unique scale.bars tvlTotal bar other
        (coin_increasing _ scale.increasing) hwithin (within_perm _ _ _ _ hperm.symm hother)
      rw [hsame]

/-- Which bars make a scale, and what it says, does not depend on their order. -/
theorem scale_of_bars (bars : List Bar) :
    ((∃ scale, tryFrom bars = .ok scale) ↔
      (∃ bar ∈ bars, bar.tvl = 0) ∧ (bars.map Bar.tvl).Nodup) ∧
    ∀ scale, tryFrom bars = .ok scale → Accepted bars scale ∧
      ∀ other, bars.Perm other → tryFrom other = .ok scale := by
  refine ⟨⟨?_, ?_⟩, ?_⟩
  · rintro ⟨scale, h⟩
    obtain ⟨hz, hnodup, -⟩ := (tryFrom_ok bars scale).1 h
    exact ⟨hz, hnodup⟩
  · rintro ⟨hz, hnodup⟩
    exact tryFrom_exists bars hz hnodup
  · intro scale h
    exact ⟨tryFrom_accepted bars scale h, fun other hperm => tryFrom_perm bars other scale hperm h⟩

theorem batches_ok (bars : List Bar) (start scale : RewardScale) (batches : List (List Bar))
    (h : tryFrom bars = .ok start) :
    batches.foldlM addNonOverlapping start = .ok scale ↔
      tryFrom (bars ++ batches.flatten) = .ok scale := by
  induction batches generalizing bars start with
  | nil =>
    rw [List.foldlM_nil, List.flatten_nil, List.append_nil, h]
    rfl
  | cons batch batches ih =>
    rw [List.foldlM_cons, bind_ok, List.flatten_cons, ← List.append_assoc]
    constructor
    · rintro ⟨next, hadd, hrest⟩
      exact (ih _ next ((tryFrom_append bars batch start next h).1 hadd)).1 hrest
    · intro hall
      -- What makes a scale with more bars makes one without them.
      obtain ⟨-, hnodup, -⟩ := (tryFrom_ok _ _).1 hall
      rw [List.map_append] at hnodup
      obtain ⟨⟨bar, hin, hzero⟩, -, -⟩ := (tryFrom_ok _ _).1 h
      obtain ⟨next, hnext⟩ := tryFrom_exists (bars ++ batch)
        ⟨bar, List.mem_append_left _ hin, hzero⟩ hnodup.of_append_left
      exact ⟨next, (tryFrom_append bars batch start next h).2 hnext, (ih _ next hnext).2 hall⟩

/-- Bars may be added to a new scale in any batches. -/
theorem scale_in_batches (initialApr : ℕ) (batches : List (List Bar)) (scale : RewardScale) :
    batches.foldlM addNonOverlapping (new initialApr) = .ok scale ↔
      tryFrom (⟨0, initialApr⟩ :: batches.flatten) = .ok scale :=
  batches_ok [⟨0, initialApr⟩] (new initialApr) scale batches (tryFrom_bars (new initialApr))

example : (do
    let scale ← tryFrom [⟨30, 10⟩, ⟨0, 6⟩]
    scale.getApr 29999999999 : Outcome StdError ℕ) = .ok 6 := by decide

end RewardScale

end Nolus.RewardScales
