import NolusMoneyMarket.Tree.Tree
import NolusMoneyMarket.MarketPrice.Feed

/-! # Supported currency pairs

The oracle keeps the pairs it supports as a tree of currencies. The root is
the base currency, and an edge is a swap leg in the pool of the child. No
currency is twice in the tree. -/

set_option autoImplicit false

namespace Nolus.SwapPairs
open Nolus.Fallible Nolus.Preorders Nolus.Trees

inductive CurrencyError
  | notInPoolWith (buddy1 buddy2 : ℕ)
deriving DecidableEq, Repr

inductive Error
  | invalidBaseCurrency (base invalid : ℕ)
  | stableCurrencyNotInTree
  | duplicatedNodes
  | unsupportedCurrency (base unsupported : ℕ)
  | currency (cause : CurrencyError)
  | priceFeedsError (cause : PriceFeeding.PriceFeedsError)
deriving DecidableEq, Repr

variable {ε : Type}

structure SwapTarget where
  poolId : ℕ
  target : ℕ
deriving DecidableEq, Repr

structure SwapLeg where
  from_ : ℕ
  to_ : SwapTarget
deriving DecidableEq, Repr

abbrev PairsTree : Type := Trees.Tree SwapTarget

def targets (tree : PairsTree) : List ℕ := tree.nodes.map fun node => node.value.target

/-- Two neighbours are equal in a window over the sorted currencies. -/
def duplicated (sorted : List ℕ) : Bool :=
  (sorted.zip sorted.tail).any fun window => window.1 = window.2

def checkTree (base stable : ℕ) (tree : PairsTree) : Outcome Error Unit :=
  let rootCurrency := (tree.valueOf tree.root).target
  if rootCurrency ≠ base then failing (.invalidBaseCurrency base rootCurrency)
  else do
    let nodes ← tree.iter
    let supported := (nodes.map fun node => (tree.valueOf node).target).insertionSort (· ≤ ·)
    if stable ∉ supported then failing .stableCurrencyNotInTree
    else if duplicated supported then failing .duplicatedNodes
    else pure ()

structure SupportedPairs (base : ℕ) where
  tree : PairsTree
  rooted : (tree.valueOf tree.root).target = base
  unique : (targets tree).Nodup
  fits : tree.nodes.length < 2 ^ indexBits

theorem duplicated_sorted (sorted : List ℕ) (hs : sorted.Pairwise (· ≤ ·))
    (h : duplicated sorted = false) : sorted.Nodup := by
  induction sorted with
  | nil => exact List.nodup_nil
  | cons a rest ih =>
    cases rest with
    | nil => exact List.nodup_singleton a
    | cons b rest =>
      obtain ⟨ha, hs⟩ := List.pairwise_cons.1 hs
      simp only [duplicated, List.tail_cons, List.zip_cons_cons, List.any_cons,
        Bool.or_eq_false_iff, decide_eq_false_iff_not] at h
      have hrest := ih hs h.2
      rw [List.nodup_cons]
      constructor
      · intro hin
        have hab := ha b List.mem_cons_self
        rcases List.mem_cons.1 hin with he | hin
        · exact h.1 he
        · have hba := (List.pairwise_cons.1 hs).1 a hin
          exact h.1 (le_antisymm hab hba)
      · exact hrest

theorem distinct_sorted (sorted : List ℕ) (h : sorted.Nodup) : duplicated sorted = false := by
  induction sorted with
  | nil => rfl
  | cons a rest ih =>
    obtain ⟨ha, hrest⟩ := List.nodup_cons.1 h
    cases rest with
    | nil => rfl
    | cons b rest =>
      have hne : a ≠ b := by
        rintro rfl
        exact ha List.mem_cons_self
      have htail := ih hrest
      simp only [duplicated, List.tail_cons] at htail
      simp [duplicated, hne, htail]

theorem targets_finRange (tree : PairsTree) :
    (List.finRange tree.nodes.length).map (fun node => (tree.valueOf node).target) =
      targets tree := by
  apply List.ext_get
  · simp [targets]
  · intro i h1 h2
    simp [targets, Trees.Tree.valueOf, Trees.Tree.node]

theorem checkTree_ok (base stable : ℕ) (tree : PairsTree)
    (h : checkTree base stable tree = .ok ()) :
    (tree.valueOf tree.root).target = base ∧ (targets tree).Nodup ∧ stable ∈ targets tree ∧
      tree.nodes.length < 2 ^ indexBits := by
  unfold checkTree at h
  simp only [ne_eq, ite_not] at h
  split_ifs at h with hroot
  · obtain ⟨nodes, hnodes, hchecks⟩ := (bind_ok _ _ _).1 h
    obtain ⟨hfits, rfl⟩ := iter_ok tree nodes hnodes
    rw [targets_finRange] at hchecks
    have hperm := (targets tree).perm_insertionSort (· ≤ ·)
    split_ifs at hchecks with hstable hdup
    · exact absurd hchecks (failing_ok _ _)
    · refine ⟨hroot, ?_, hperm.mem_iff.1 hstable, hfits⟩
      apply hperm.nodup_iff.1
      apply duplicated_sorted
      · exact (targets tree).pairwise_insertionSort (· ≤ ·)
      · exact Bool.eq_false_iff.2 hdup
    · exact absurd hchecks (failing_ok _ _)
  · exact absurd h (failing_ok _ _)

def SupportedPairs.new (base stable : ℕ) (tree : PairsTree) : Outcome Error (SupportedPairs base) :=
  match h : checkTree base stable tree with
  | .ok () => .ok
    ⟨tree, (checkTree_ok base stable tree h).1, (checkTree_ok base stable tree h).2.1,
      (checkTree_ok base stable tree h).2.2.2⟩
  | .error fault => .error fault

variable {base : ℕ}

/-- Exactly the supported pairs with the stable currency among them are let through. -/
theorem new_ok (stable : ℕ) (pairs : SupportedPairs base) :
    SupportedPairs.new base stable pairs.tree = .ok pairs ↔ stable ∈ targets pairs.tree := by
  constructor
  · intro h
    unfold SupportedPairs.new at h
    split at h
    · next hcheck => exact (checkTree_ok base stable pairs.tree hcheck).2.2.1
    · cases h
  · intro hstable
    have hperm := (targets pairs.tree).perm_insertionSort (· ≤ ·)
    have hin : stable ∈ (targets pairs.tree).insertionSort (· ≤ ·) := hperm.mem_iff.2 hstable
    have hno : duplicated ((targets pairs.tree).insertionSort (· ≤ ·)) = false := by
      apply distinct_sorted
      exact hperm.nodup_iff.2 pairs.unique
    have hcheck : checkTree base stable pairs.tree = .ok () := by
      unfold checkTree
      simp only [pairs.rooted, ne_eq, not_true_eq_false, if_false]
      apply (bind_ok _ _ _).2
      refine ⟨_, iter_fits pairs.tree pairs.fits, ?_⟩
      rw [targets_finRange, if_neg (not_not.2 hin), hno]
      rfl
    unfold SupportedPairs.new
    split
    · rfl
    · next fault hf =>
      rw [hcheck] at hf
      cases hf

/-! ## Legs and paths -/

def SupportedPairs.leg (self : SupportedPairs base) (node : NodeRef self.tree) :
    Option SwapLeg := do
  let parent ← self.tree.parentOf node
  let value := self.tree.valueOf node
  some ⟨value.target, value.poolId, (self.tree.valueOf parent).target⟩

def SupportedPairs.swapPairsDf (self : SupportedPairs base) : Outcome ε (List SwapLeg) := do
  let nodes ← self.tree.iter
  pure (nodes.filterMap self.leg)

def SupportedPairs.internalLoadPath (self : SupportedPairs base) (query : ℕ) :
    Outcome Error (List (NodeRef self.tree)) := do
  let found ← self.tree.findBy fun target => target.target = query
  let node ← okOr found (.unsupportedCurrency base query)
  pure (node :: self.tree.parentsIter node)

def SupportedPairs.loadPath (self : SupportedPairs base) (currency : ℕ) :
    Outcome Error (List ℕ) := do
  let path ← self.internalLoadPath currency
  pure (path.map fun node => (self.tree.valueOf node).target)

/-! ## What the operations return -/

def SupportedPairs.currencyOf (self : SupportedPairs base) (node : NodeRef self.tree) : ℕ :=
  (self.tree.valueOf node).target

theorem currencyOf_injective (pairs : SupportedPairs base) :
    Function.Injective pairs.currencyOf := by
  intro a b h
  have hnodup := pairs.unique
  rw [← targets_finRange] at hnodup
  exact List.inj_on_of_nodup_map hnodup (List.mem_finRange a) (List.mem_finRange b) h

theorem currencyOf_root (pairs : SupportedPairs base) :
    pairs.currencyOf pairs.tree.root = base := pairs.rooted

theorem leg_some (pairs : SupportedPairs base) (node parent : NodeRef pairs.tree)
    (h : pairs.tree.parentOf node = some parent) :
    pairs.leg node = some
      ⟨pairs.currencyOf node, (pairs.tree.valueOf node).poolId, pairs.currencyOf parent⟩ := by
  rw [SupportedPairs.leg, h]
  rfl

theorem leg_of (pairs : SupportedPairs base) (node : NodeRef pairs.tree) (leg : SwapLeg)
    (h : pairs.leg node = some leg) :
    ∃ parent, pairs.tree.parentOf node = some parent ∧ leg.from_ = pairs.currencyOf node ∧
      leg.to_.target = pairs.currencyOf parent := by
  cases hp : pairs.tree.parentOf node with
  | none =>
    rw [SupportedPairs.leg, hp] at h
    cases h
  | some parent =>
    rw [leg_some pairs node parent hp] at h
    obtain rfl := Option.some.inj h
    exact ⟨parent, rfl, rfl, rfl⟩

def SupportedPairs.legs (self : SupportedPairs base) : List SwapLeg :=
  (List.finRange self.tree.nodes.length).filterMap self.leg

theorem swapPairsDf_ok (pairs : SupportedPairs base) :
    (pairs.swapPairsDf : Outcome ε _) = .ok pairs.legs :=
  (bind_ok _ _ _).2 ⟨_, iter_fits pairs.tree pairs.fits, rfl⟩

theorem mem_legs (pairs : SupportedPairs base) (leg : SwapLeg) :
    leg ∈ pairs.legs ↔ ∃ node, pairs.leg node = some leg := by
  simp [SupportedPairs.legs]

theorem leg_unique (pairs : SupportedPairs base) (leg leg' : SwapLeg) (h : leg ∈ pairs.legs)
    (h' : leg' ∈ pairs.legs) (he : leg.from_ = leg'.from_) : leg = leg' := by
  obtain ⟨node, hn⟩ := (mem_legs pairs leg).1 h
  obtain ⟨node', hn'⟩ := (mem_legs pairs leg').1 h'
  obtain ⟨_, _, hf, _⟩ := leg_of pairs node leg hn
  obtain ⟨_, _, hf', _⟩ := leg_of pairs node' leg' hn'
  have heq : node = node' := currencyOf_injective pairs (by rw [← hf, ← hf', he])
  subst heq
  rw [hn] at hn'
  exact Option.some.inj hn'

theorem leg_from_ne (pairs : SupportedPairs base) (leg : SwapLeg) (h : leg ∈ pairs.legs) :
    leg.from_ ≠ base := by
  obtain ⟨node, hn⟩ := (mem_legs pairs leg).1 h
  obtain ⟨parent, hp, hf, _⟩ := leg_of pairs node leg hn
  intro he
  have hroot : node = pairs.tree.root :=
    currencyOf_injective pairs (by rw [← hf, he, currencyOf_root])
  rw [hroot, parentOf_root] at hp
  cases hp

theorem internalLoadPath_ok (pairs : SupportedPairs base) (node : NodeRef pairs.tree) :
    pairs.internalLoadPath (pairs.currencyOf node) =
      .ok (node :: pairs.tree.parentsIter node) := by
  have hfound : (List.finRange pairs.tree.nodes.length).find?
      (fun n => decide (pairs.currencyOf n = pairs.currencyOf node)) = some node := by
    cases hf : (List.finRange pairs.tree.nodes.length).find?
        (fun n => decide (pairs.currencyOf n = pairs.currencyOf node)) with
    | none =>
      have hno := List.find?_eq_none.1 hf node (List.mem_finRange node)
      simp at hno
    | some n =>
      have hn := List.find?_some hf
      rw [currencyOf_injective pairs (of_decide_eq_true hn)]
  apply (bind_ok _ _ _).2
  refine ⟨some node, ?_, rfl⟩
  rw [findBy_fits pairs.tree pairs.fits]
  exact congrArg _ hfound

end Nolus.SwapPairs
