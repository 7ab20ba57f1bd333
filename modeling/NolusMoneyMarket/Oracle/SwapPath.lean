import NolusMoneyMarket.Oracle.Pairs
import NolusMoneyMarket.Tree.Routes

/-! # Swap paths

The path of a swap is stitched of the way up from the one currency and the way
up from the other one, reversed. The former stops at the first node that is on
the latter, and the latter is cut there. The result is the only simple route
between the two. -/

set_option autoImplicit false

namespace Nolus.SwapPaths
open Nolus.Fallible Nolus.Trees Nolus.SwapPairs

variable {base : ℕ}

def lastWith (pairs : SupportedPairs base) (nodes : List (NodeRef pairs.tree))
    (value : SwapTarget) : Option ℕ :=
  (nodes.zipIdx.reverse.find? fun at_ => value = pairs.tree.valueOf at_.1).map Prod.snd

/-- The nodes up to the first one that is on the other path, which is cut there. -/
def takeWhileApart (pairs : SupportedPairs base) :
    List (NodeRef pairs.tree) → List (NodeRef pairs.tree) →
      List (NodeRef pairs.tree) × List (NodeRef pairs.tree)
  | [], pathTo => ([], pathTo)
  | node :: rest, pathTo =>
    match lastWith pairs pathTo (pairs.tree.valueOf node) with
    | some index => ([], pathTo.take index)
    | none =>
      let apart := takeWhileApart pairs rest pathTo
      (node :: apart.1, apart.2)

def swapUp (pairs : SupportedPairs base) (node : NodeRef pairs.tree) : Option SwapTarget := do
  let parent ← pairs.tree.parentOf node
  some ⟨(pairs.tree.valueOf node).poolId, (pairs.tree.valueOf parent).target⟩

def stitch (pairs : SupportedPairs base) (pathFrom pathTo : List (NodeRef pairs.tree)) :
    List SwapTarget :=
  let apart := takeWhileApart pairs pathFrom pathTo
  apart.1.filterMap (swapUp pairs) ++ apart.2.reverse.map pairs.tree.valueOf

def loadSwapPath (pairs : SupportedPairs base) (from_ to_ : ℕ) :
    Outcome Error (List SwapTarget) := do
  let pathFrom ← pairs.internalLoadPath from_
  let pathTo ← pairs.internalLoadPath to_
  pure (stitch pairs pathFrom pathTo)

/-! ## Routes of swaps -/

/-- The leg of a hop is in the pool of the child. -/
def legOf (pairs : SupportedPairs base) (hop : Hop pairs.tree) : SwapTarget :=
  ⟨(pairs.tree.valueOf hop.edge).poolId, pairs.currencyOf hop.reached⟩

/-- The path leads between the currencies by consecutive edges of the tree. -/
def Swaps (pairs : SupportedPairs base) (from_ to_ : ℕ) (path : List SwapTarget) : Prop :=
  ∃ source dest hops, pairs.currencyOf source = from_ ∧ pairs.currencyOf dest = to_ ∧
    Route source hops dest ∧ path = hops.map (legOf pairs)

def NoRepeat (from_ : ℕ) (path : List SwapTarget) : Prop :=
  (from_ :: path.map SwapTarget.target).Nodup

theorem currencies_visited (pairs : SupportedPairs base) (source : NodeRef pairs.tree)
    (hops : List (Hop pairs.tree)) :
    pairs.currencyOf source :: (hops.map (legOf pairs)).map SwapTarget.target =
      (visited source hops).map pairs.currencyOf := by
  simp [visited, legOf]

theorem noRepeat_simple (pairs : SupportedPairs base) (source : NodeRef pairs.tree)
    (hops : List (Hop pairs.tree)) :
    NoRepeat (pairs.currencyOf source) (hops.map (legOf pairs)) ↔ Simple source hops := by
  rw [NoRepeat, currencies_visited]
  exact List.nodup_map_iff (currencyOf_injective pairs)

theorem lastWith_some (pairs : SupportedPairs base) (nodes : List (NodeRef pairs.tree))
    (node : NodeRef pairs.tree) (index : ℕ)
    (h : lastWith pairs nodes (pairs.tree.valueOf node) = some index) :
    nodes[index]? = some node := by
  obtain ⟨⟨found, at_⟩, hfind, rfl⟩ := Option.map_eq_some_iff.1 h
  have hvalue := List.find?_some hfind
  have hmem := List.mem_reverse.1 (List.mem_of_find?_eq_some hfind)
  have hnode : node = found :=
    currencyOf_injective pairs (congrArg SwapTarget.target (of_decide_eq_true hvalue))
  rw [hnode]
  exact List.mk_mem_zipIdx_iff_getElem?.1 hmem

theorem lastWith_none (pairs : SupportedPairs base) (nodes : List (NodeRef pairs.tree))
    (node : NodeRef pairs.tree)
    (h : lastWith pairs nodes (pairs.tree.valueOf node) = none) : node ∉ nodes := by
  intro hin
  obtain ⟨index, hat⟩ := List.mem_iff_getElem?.1 hin
  have hnot := List.find?_eq_none.1 (Option.map_eq_none_iff.1 h) (node, index)
    (List.mem_reverse.2 (List.mk_mem_zipIdx_iff_getElem?.2 hat))
  simp at hnot

/-- A simple route from the node, met on the way or not, through nodes of either lineage. -/
structure Stitched (pairs : SupportedPairs base) (node dest : NodeRef pairs.tree)
    (hops : List (Hop pairs.tree)) : Prop where
  route : Route node hops dest
  simple : Simple node hops
  through : ∀ visit ∈ visited node hops,
    visit ∈ pairs.tree.lineage node ∨ visit ∈ pairs.tree.lineage dest
  stitched : stitch pairs (pairs.tree.lineage node) (pairs.tree.lineage dest) =
    hops.map (legOf pairs)

theorem stitched_here (pairs : SupportedPairs base) (node dest : NodeRef pairs.tree) (index : ℕ)
    (h : lastWith pairs (pairs.tree.lineage dest) (pairs.tree.valueOf node) = some index) :
    Stitched pairs node dest (downTo ((pairs.tree.lineage dest).take index)) where
  route := route_down node dest index (lastWith_some pairs _ node index h)
  simple := simple_down node dest index (lastWith_some pairs _ node index h)
  through := by
    intro visit hvisit
    rw [visited, reached_downTo] at hvisit
    rcases List.mem_cons.1 hvisit with rfl | hin
    · exact .inl (mem_lineage_self _)
    · exact .inr (List.mem_of_mem_take (List.mem_reverse.1 hin))
  stitched := by
    simp only [stitch, Tree.lineage, takeWhileApart]
    rw [Tree.lineage] at h
    rw [h]
    simp [downTo, legOf, Function.comp_def, SupportedPairs.currencyOf]

theorem stitched_up (pairs : SupportedPairs base) (node parent dest : NodeRef pairs.tree)
    (hops : List (Hop pairs.tree)) (hp : pairs.tree.parentOf node = some parent)
    (hout : node ∉ pairs.tree.lineage dest)
    (h : lastWith pairs (pairs.tree.lineage dest) (pairs.tree.valueOf node) = none)
    (hparent : Stitched pairs parent dest hops) :
    Stitched pairs node dest (⟨node, parent⟩ :: hops) where
  route := .up node parent dest hops hp hparent.route
  simple := by
    apply List.nodup_cons.2
    constructor
    · intro hin
      rcases hparent.through node hin with hup | hdown
      · exact not_in_lineage node parent hp hup
      · exact hout hdown
    · exact hparent.simple
  through := by
    intro visit hvisit
    rw [lineage_step node parent hp]
    rcases List.mem_cons.1 hvisit with rfl | hin
    · exact .inl List.mem_cons_self
    · exact (hparent.through visit hin).imp_left (List.mem_cons_of_mem _)
  stitched := by
    have hrest := hparent.stitched
    rw [lineage_step node parent hp]
    simp only [stitch, takeWhileApart, h] at hrest ⊢
    rw [List.filterMap_cons_some (b := legOf pairs ⟨node, parent⟩), List.cons_append, hrest]
    · rfl
    · rw [swapUp, hp]
      rfl

theorem stitched_route (pairs : SupportedPairs base) (node dest : NodeRef pairs.tree) :
    ∃ hops, Stitched pairs node dest hops := by
  induction node using node_induction with
  | h0 =>
    cases h : lastWith pairs (pairs.tree.lineage dest) (pairs.tree.valueOf pairs.tree.root) with
    | some index => exact ⟨_, stitched_here pairs _ dest index h⟩
    | none => exact absurd (root_in_lineage dest) (lastWith_none pairs _ _ h)
  | hstep node parent hp ih =>
    cases h : lastWith pairs (pairs.tree.lineage dest) (pairs.tree.valueOf node) with
    | some index => exact ⟨_, stitched_here pairs node dest index h⟩
    | none =>
      obtain ⟨hops, hparent⟩ := ih
      exact ⟨_, stitched_up pairs node parent dest hops hp (lastWith_none pairs _ node h) h
        hparent⟩

theorem loadSwapPath_nodes (pairs : SupportedPairs base) (node dest : NodeRef pairs.tree) :
    loadSwapPath pairs (pairs.currencyOf node) (pairs.currencyOf dest) =
      .ok (stitch pairs (pairs.tree.lineage node) (pairs.tree.lineage dest)) := by
  apply (bind_ok _ _ _).2
  refine ⟨_, internalLoadPath_ok pairs node, ?_⟩
  apply (bind_ok _ _ _).2
  exact ⟨_, internalLoadPath_ok pairs dest, rfl⟩

theorem target_node (pairs : SupportedPairs base) (currency : ℕ)
    (h : currency ∈ targets pairs.tree) : ∃ node, pairs.currencyOf node = currency := by
  rw [← targets_finRange] at h
  obtain ⟨node, -, rfl⟩ := List.mem_map.1 h
  exact ⟨node, rfl⟩

/-- The path of a swap is the only way between its currencies, and the way back is through
the same pools in reverse order. -/
theorem load_swap_path (pairs : SupportedPairs base) (from_ to_ : ℕ)
    (hfrom : from_ ∈ targets pairs.tree) (hto : to_ ∈ targets pairs.tree) :
    ∃ path, loadSwapPath pairs from_ to_ = .ok path ∧ Swaps pairs from_ to_ path ∧
      NoRepeat from_ path ∧
      (∀ other, Swaps pairs from_ to_ other → NoRepeat from_ other → other = path) ∧
      (from_ :: path.map SwapTarget.target).getLast? = some to_ ∧ (path = [] ↔ from_ = to_) ∧
      ∃ back, loadSwapPath pairs to_ from_ = .ok back ∧
        back.map SwapTarget.poolId = (path.map SwapTarget.poolId).reverse := by
  obtain ⟨source, rfl⟩ := target_node pairs from_ hfrom
  obtain ⟨dest, rfl⟩ := target_node pairs to_ hto
  obtain ⟨hops, hway⟩ := stitched_route pairs source dest
  obtain ⟨return_, hreturn⟩ := stitched_route pairs dest source
  refine ⟨_, loadSwapPath_nodes pairs source dest, ?_⟩
  rw [hway.stitched]
  refine ⟨⟨source, dest, hops, rfl, rfl, hway.route, rfl⟩,
    (noRepeat_simple pairs source hops).2 hway.simple, ?_, ?_, ?_,
    _, loadSwapPath_nodes pairs dest source, ?_⟩
  · rintro _ ⟨source', dest', hops', hsource, hdest, hroute, rfl⟩ hno
    obtain rfl := currencyOf_injective pairs hsource
    obtain rfl := currencyOf_injective pairs hdest
    rw [route_unique _ _ hops' hops hroute ((noRepeat_simple pairs _ hops').1 hno) hway.route
      hway.simple]
  · rw [currencies_visited, List.getLast?_map, route_ends _ _ _ hway.route]
    rfl
  · rw [List.map_eq_nil_iff, simple_empty _ _ _ hway.route hway.simple,
      (currencyOf_injective pairs).eq_iff]
  · obtain ⟨back, hback, hedges, hvisited⟩ := route_reverse _ _ _ hway.route
    have hsimple : Simple dest back := by
      rw [Simple, hvisited]
      exact List.nodup_reverse.2 hway.simple
    rw [hreturn.stitched,
      route_unique _ _ _ _ hreturn.route hreturn.simple hback hsimple]
    have hpools := fun h : List (Hop pairs.tree) =>
      show (h.map (legOf pairs)).map SwapTarget.poolId =
        (h.map Hop.edge).map fun edge => (pairs.tree.valueOf edge).poolId by simp [legOf]
    rw [hpools, hpools, hedges, List.map_reverse]

def forked : SupportedPairs 0 where
  tree := .ofPreorder [⟨0, ⟨0, 0⟩⟩, ⟨0, ⟨4, 4⟩⟩, ⟨1, ⟨3, 3⟩⟩, ⟨0, ⟨2, 2⟩⟩, ⟨3, ⟨1, 1⟩⟩,
    ⟨4, ⟨5, 5⟩⟩, ⟨4, ⟨6, 6⟩⟩]
    ⟨_, .grow _ _ 4 (.grow _ _ 4 (.grow _ _ 3 (.grow _ _ 0 (.grow _ _ 1 (.grow _ _ 0 .root
      (by decide)) (by decide)) (by decide)) (by decide)) (by decide)) (by decide)⟩
  rooted := rfl
  unique := by decide
  fits := by decide

theorem load_swap_path_forked :
    loadSwapPath forked 6 3 =
        .ok [⟨6, 1⟩, ⟨1, 2⟩, ⟨2, 0⟩, ⟨4, 4⟩, ⟨3, 3⟩] ∧
      ∃ path, loadSwapPath forked 6 3 = .ok path ∧ Swaps forked 6 3 path ∧ NoRepeat 6 path ∧
        (∀ other, Swaps forked 6 3 other → NoRepeat 6 other → other = path) ∧
        (6 :: path.map SwapTarget.target).getLast? = some 3 ∧ (path = [] ↔ 6 = 3) ∧
        ∃ back, loadSwapPath forked 3 6 = .ok back ∧
          back.map SwapTarget.poolId = (path.map SwapTarget.poolId).reverse :=
  ⟨rfl, load_swap_path forked 6 3 (by decide) (by decide)⟩

/-- Below the root the paths meet at the nearest common ancestor. -/
example : loadSwapPath forked 6 5 = .ok [⟨6, 1⟩, ⟨5, 5⟩] := rfl

end Nolus.SwapPaths
