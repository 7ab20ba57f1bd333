import NolusMoneyMarket.Oracle.BasePrices

/-! # The walk over the swap legs

At each node of the walk the stack holds a base price for every node on the
way up from the last one that has one. What is left of an abandoned branch is
above the parent of the next priced leg and is dropped with it, so the parent
is found whenever it has a base price. -/

set_option autoImplicit false

namespace Nolus.PricesWalk
open Nolus.Fallible Nolus.Preorders Nolus.Prices Nolus.PriceProducts Nolus.Trees Nolus.SwapPairs
open Nolus.BasePrices
open Nolus.PriceAlarming (BasePrice)

variable {base : ℕ}

def legsUpTo (pairs : SupportedPairs base) (k : ℕ) : List SwapLeg :=
  ((List.finRange pairs.tree.nodes.length).take k).filterMap pairs.leg

def targetAt (pairs : SupportedPairs base) (i : ℕ) : ℕ := (targets pairs.tree).getD i base

theorem targetAt_eq (pairs : SupportedPairs base) (node : NodeRef pairs.tree) :
    targetAt pairs node.1 = pairs.currencyOf node := by
  simp [targetAt, targets, SupportedPairs.currencyOf, Trees.Tree.valueOf, Trees.Tree.node]

theorem targetAt_injective (pairs : SupportedPairs base) (i j : ℕ)
    (hi : i < pairs.tree.nodes.length) (hj : j < pairs.tree.nodes.length)
    (h : targetAt pairs i = targetAt pairs j) : i = j := by
  have heq : (⟨i, hi⟩ : NodeRef pairs.tree) = ⟨j, hj⟩ := by
    apply currencyOf_injective pairs
    rw [← targetAt_eq, ← targetAt_eq]
    exact h
  exact congrArg Fin.val heq

theorem legsUpTo_succ (pairs : SupportedPairs base) (node : NodeRef pairs.tree) (leg : SwapLeg)
    (h : pairs.leg node = some leg) :
    legsUpTo pairs (node.1 + 1) = legsUpTo pairs node.1 ++ [leg] := by
  have hlt : node.1 < (List.finRange pairs.tree.nodes.length).length := by simp
  have hget : (List.finRange pairs.tree.nodes.length)[node.1] = node := by simp
  rw [legsUpTo, List.take_succ_eq_append_getElem hlt, hget, List.filterMap_append]
  simp [legsUpTo, h]

theorem legsUpTo_one (pairs : SupportedPairs base) : legsUpTo pairs 1 = [] := by
  have hlt : 0 < (List.finRange pairs.tree.nodes.length).length := by
    simpa using pairs.tree.nonempty
  have hget : (List.finRange pairs.tree.nodes.length)[0] = pairs.tree.root := by
    simp [Trees.Tree.root, rootIndex]
  rw [legsUpTo, List.take_succ_eq_append_getElem hlt, hget]
  rfl

theorem legsUpTo_all (pairs : SupportedPairs base) :
    legsUpTo pairs pairs.tree.nodes.length = pairs.legs := by
  rw [legsUpTo, List.take_of_length_le (by simp), SupportedPairs.legs]

variable (pairs : SupportedPairs base) (price : SwapLeg → Option Price)

theorem leg_targets (node parent : NodeRef pairs.tree) (leg : SwapLeg)
    (hpar : pairs.tree.parentOf node = some parent) (hleg : pairs.leg node = some leg) :
    targetAt pairs node.1 = leg.from_ ∧ targetAt pairs parent.1 = leg.to_.target := by
  obtain ⟨parent', hpar', hfrom, htarget⟩ := leg_of pairs node leg hleg
  rw [hpar] at hpar'
  obtain rfl := Option.some.inj hpar'
  rw [targetAt_eq, targetAt_eq]
  exact ⟨hfrom.symm, htarget.symm⟩

/-! ## What is yielded -/

/-- The prices over some of the legs: base prices in the order of the legs, with none of the
fully priced currencies missing. -/
structure Yielded (legs : List SwapLeg) (prices : List BasePrice) : Prop where
  in_order : (prices.map BasePrice.currency).Sublist (legs.map SwapLeg.from_)
  sound : ∀ b ∈ prices, BaseOf pairs.legs price base b.currency b.price
  complete : ∀ leg ∈ legs, Priced pairs.legs price base leg.from_ →
    ∃ r, ⟨leg.from_, r⟩ ∈ prices

variable {pairs price}

theorem yielded_nothing : Yielded pairs price [] [] where
  in_order := List.nil_sublist _
  sound := by simp
  complete := by simp

theorem yielded_skip (legs : List SwapLeg) (leg : SwapLeg) (prices : List BasePrice)
    (h : Yielded pairs price legs prices) (hun : ¬ Priced pairs.legs price base leg.from_) :
    Yielded pairs price (legs ++ [leg]) prices where
  in_order := by
    rw [List.map_append]
    exact h.in_order.trans (List.sublist_append_left _ _)
  sound := h.sound
  complete := by
    intro leg' hin hpriced
    rcases List.mem_append.1 hin with hin | hin
    · exact h.complete leg' hin hpriced
    · obtain rfl := List.mem_singleton.1 hin
      exact absurd hpriced hun

theorem yielded_price (legs : List SwapLeg) (leg : SwapLeg) (prices : List BasePrice) (r : Price)
    (h : Yielded pairs price legs prices) (hr : BaseOf pairs.legs price base leg.from_ r) :
    Yielded pairs price (legs ++ [leg]) (prices ++ [⟨leg.from_, r⟩]) where
  in_order := by
    rw [List.map_append, List.map_append]
    exact h.in_order.append (List.Sublist.refl _)
  sound := by
    intro b hb
    rcases List.mem_append.1 hb with hb | hb
    · exact h.sound b hb
    · obtain rfl := List.mem_singleton.1 hb
      exact hr
  complete := by
    intro leg' hin hpriced
    rcases List.mem_append.1 hin with hin | hin
    · obtain ⟨q, hq⟩ := h.complete leg' hin hpriced
      exact ⟨q, List.mem_append_left _ hq⟩
    · obtain rfl := List.mem_singleton.1 hin
      exact ⟨r, List.mem_append_right _ (List.mem_singleton_self _)⟩

variable (pairs price)

/-! ## The invariant of the walk -/

/-- The stack is of nodes, with a base price each, and no fully priced node of the spine is
missing on it. -/
structure Walked (k : ℕ) (spine : List ℕ) (scan : Scan) : Prop where
  stacked : ∃ nodes,
    Stacked (fun a => Priced pairs.legs price base (targetAt pairs a)) k spine nodes ∧
      scan.cmd.stack.map BasePrice.currency = nodes.map (targetAt pairs)
  based : ∀ b ∈ scan.cmd.stack, BaseOf pairs.legs price base b.currency b.price
  yielded : Yielded pairs price (legsUpTo pairs k) (prices scan.yielded)

theorem walked_start : Walked pairs price 1 [0] ⟨LegCmd.new base, []⟩ where
  stacked := by
    refine ⟨[0], stacked_root, ?_⟩
    have h0 := targetAt_eq pairs pairs.tree.root
    rw [currencyOf_root] at h0
    exact congrArg (fun c => [c]) h0.symm
  based := by
    intro b hb
    obtain rfl := List.mem_singleton.1 hb
    exact .base
  yielded := by
    rw [legsUpTo_one]
    exact yielded_nothing

theorem walked_unpriced (node parent : NodeRef pairs.tree) (leg : SwapLeg) (spine : List ℕ)
    (scan scan' : Scan) (hpar : pairs.tree.parentOf node = some parent)
    (hleg : pairs.leg node = some leg) (h : Walked pairs price node.1 spine scan)
    (hun : ¬ Priced pairs.legs price base leg.from_) (hcmd : scan'.cmd = scan.cmd)
    (hyielded : prices scan'.yielded = prices scan.yielded) :
    Walked pairs price (node.1 + 1) (node.1 :: upFrom parent.1 spine) scan' := by
  obtain ⟨nodes, hstacked, hmap⟩ := h.stacked
  obtain ⟨hfrom, _⟩ := leg_targets pairs node parent leg hpar hleg
  have hun' : ¬ Priced pairs.legs price base (targetAt pairs node.1) := by rwa [hfrom]
  constructor
  · refine ⟨nodes, stacked_skip parent.1 hstacked hun', ?_⟩
    rw [hcmd]
    exact hmap
  · rw [hcmd]
    exact h.based
  · rw [hyielded, legsUpTo_succ pairs node leg hleg]
    exact yielded_skip _ leg _ h.yielded hun

/-- The stack from a currency on is of the nodes from its node up. -/
theorem stack_upFrom (p : ℕ) (nodes : List ℕ) (stack : List BasePrice)
    (hp : p < pairs.tree.nodes.length) (hlt : ∀ i ∈ nodes, i < pairs.tree.nodes.length)
    (hmap : stack.map BasePrice.currency = nodes.map (targetAt pairs)) :
    (LegCmd.from_ ⟨stack⟩ (targetAt pairs p)).map BasePrice.currency =
      (upFrom p nodes).map (targetAt pairs) := by
  induction nodes generalizing stack with
  | nil =>
    obtain rfl := List.map_eq_nil_iff.1 hmap
    rfl
  | cons i nodes ih =>
    obtain ⟨b, rest, rfl, hb, hrest⟩ := List.map_eq_cons_iff.1 hmap
    by_cases hi : i = p
    · subst hi
      rw [upFrom_cons_self, ← hmap, LegCmd.from_, List.dropWhile_cons_of_neg (by simp [hb])]
    · have hne : b.currency ≠ targetAt pairs p := by
        rw [hb]
        exact fun he => hi (targetAt_injective pairs i p (hlt i List.mem_cons_self) hp he)
      rw [upFrom_cons_ne p i nodes hi, LegCmd.from_, List.dropWhile_cons_of_pos (by simpa using hne)]
      exact ih rest (fun j hj => hlt j (List.mem_cons_of_mem _ hj)) hrest

theorem found_upFrom (node parent : NodeRef pairs.tree) (leg : SwapLeg) (nodes : List ℕ)
    (cmd : LegCmd) (hpar : pairs.tree.parentOf node = some parent)
    (hleg : pairs.leg node = some leg) (hlt : ∀ i ∈ nodes, i < node.1)
    (hmap : cmd.stack.map BasePrice.currency = nodes.map (targetAt pairs)) :
    (cmd.from_ leg.to_.target).map BasePrice.currency =
      (upFrom parent.1 nodes).map (targetAt pairs) := by
  rw [← (leg_targets pairs node parent leg hpar hleg).2]
  exact stack_upFrom pairs parent.1 nodes cmd.stack parent.2
    (fun i hi => (hlt i hi).trans node.2) hmap

/-- A base price found from the parent's takes its place above it. -/
theorem walked_pushed (node parent : NodeRef pairs.tree) (leg : SwapLeg) (spine : List ℕ)
    (scan scan' : Scan) (found : BasePrice) (below : List BasePrice) (r : Price)
    (hpar : pairs.tree.parentOf node = some parent) (hleg : pairs.leg node = some leg)
    (hdec : spine.Pairwise (· > ·)) (hp : parent.1 ∈ spine)
    (h : Walked pairs price node.1 spine scan)
    (hfound : scan.cmd.from_ leg.to_.target = found :: below)
    (hr : BaseOf pairs.legs price base leg.from_ r)
    (hcmd : scan'.cmd = ⟨⟨leg.from_, r⟩ :: found :: below⟩)
    (hyielded : scan'.yielded = scan.yielded ++ [.ok ⟨leg.from_, r⟩]) :
    Walked pairs price (node.1 + 1) (node.1 :: upFrom parent.1 spine) scan' := by
  obtain ⟨nodes, hstacked, hmap⟩ := h.stacked
  have hup := found_upFrom pairs node parent leg nodes scan.cmd hpar hleg hstacked.before hmap
  rw [hfound] at hup
  have hin : parent.1 ∈ nodes := by
    obtain ⟨i, rest, hi, _, _⟩ := List.map_eq_cons_iff.1 hup.symm
    obtain rfl := upFrom_head _ _ _ _ hi
    apply (upFrom_sublist parent.1 nodes).subset
    rw [hi]
    exact List.mem_cons_self
  constructor
  · refine ⟨_, stacked_push parent.1 hstacked hdec hp hin, ?_⟩
    obtain ⟨hfrom, _⟩ := leg_targets pairs node parent leg hpar hleg
    rw [hcmd]
    show leg.from_ :: (found :: below).map BasePrice.currency =
      targetAt pairs node.1 :: (upFrom parent.1 nodes).map (targetAt pairs)
    rw [hup, hfrom]
  · intro b hb
    rw [hcmd] at hb
    rcases List.mem_cons.1 hb with rfl | hb
    · exact hr
    · rw [← hfound] at hb
      exact h.based b ((List.dropWhile_sublist _).subset hb)
  · rw [hyielded, prices_append, legsUpTo_succ pairs node leg hleg]
    exact yielded_price _ leg _ r h.yielded hr

theorem walked_found (node parent : NodeRef pairs.tree) (leg : SwapLeg) (spine : List ℕ)
    (scan : Scan) (hpar : pairs.tree.parentOf node = some parent)
    (hleg : pairs.leg node = some leg) (hp : parent.1 ∈ spine)
    (h : Walked pairs price node.1 spine scan)
    (hpriced : Priced pairs.legs price base leg.to_.target) :
    ∃ found below, scan.cmd.from_ leg.to_.target = found :: below := by
  obtain ⟨nodes, hstacked, hmap⟩ := h.stacked
  have hup := found_upFrom pairs node parent leg nodes scan.cmd hpar hleg hstacked.before hmap
  have hin : parent.1 ∈ upFrom parent.1 nodes := by
    apply mem_upFrom_self
    apply hstacked.complete parent.1 hp
    rw [(leg_targets pairs node parent leg hpar hleg).2]
    exact hpriced
  obtain ⟨i, rest, hi⟩ := List.exists_cons_of_ne_nil (List.ne_nil_of_mem hin)
  rw [hi] at hup
  obtain ⟨found, below, hfound, _, _⟩ := List.map_eq_cons_iff.1 hup
  exact ⟨found, below, hfound⟩

theorem found_based (scan : Scan) (k : ℕ) (spine : List ℕ) (leg : SwapLeg) (found : BasePrice)
    (below : List BasePrice) (h : Walked pairs price k spine scan)
    (hfound : scan.cmd.from_ leg.to_.target = found :: below) :
    BaseOf pairs.legs price base leg.to_.target found.price ∧
      (Price.new found.price.amount found.price.amountQuote : Outcome PairsError Price) =
        .ok found.price := by
  obtain ⟨hin, hcurrency⟩ := from_found scan.cmd _ found below hfound
  have hbased := h.based found hin
  rw [hcurrency] at hbased
  exact ⟨hbased, new_reduced _ (baseOf_reduced _ _ _ _ _ hbased)⟩

variable (inPool : ℕ → ℕ → Bool) (querier : PriceQuerier)

/-- A step of the walk over the leg of the next node. -/
theorem walked_step (node parent : NodeRef pairs.tree) (leg : SwapLeg) (spine : List ℕ)
    (scan scan' : Scan) (hpar : pairs.tree.parentOf node = some parent)
    (hleg : pairs.leg node = some leg) (hdec : spine.Pairwise (· > ·)) (hp : parent.1 ∈ spine)
    (h : Walked pairs (legPrice inPool querier) node.1 spine scan)
    (hrun : scanLeg inPool querier scan leg = .ok scan') :
    Walked pairs (legPrice inPool querier) (node.1 + 1) (node.1 :: upFrom parent.1 spine)
      scan' := by
  have hin : leg ∈ pairs.legs := (mem_legs pairs leg).2 ⟨node, hleg⟩
  rcases scanLeg_ok inPool querier scan scan' leg hrun with
    ⟨hcmd, hyielded, hno⟩ | ⟨found, below, q, p, r, hfound, hq, hprice, hr, hcmd, hyielded⟩
  · apply walked_unpriced pairs _ node parent leg spine scan scan' hpar hleg h _ hcmd hyielded
    intro hpriced
    obtain ⟨⟨p, hprice⟩, htarget⟩ := priced_leg pairs _ leg hin hpriced
    rcases hno with hno | hno
    · obtain ⟨found, below, hfound⟩ :=
        walked_found pairs _ node parent leg spine scan hpar hleg hp h htarget
      rw [hfound] at hno
      cases hno
    · rw [hprice] at hno
      cases hno
  · obtain ⟨hbased, hnew⟩ := found_based pairs _ scan _ spine leg found below h hfound
    rw [hnew] at hq
    obtain rfl := Except.ok.inj hq
    exact walked_pushed pairs _ node parent leg spine scan scan' found below r hpar hleg hdec hp h
      hfound (.leg leg p _ r hin hprice hbased hr) hcmd hyielded

theorem node_of_parents (k p : ℕ) (hk : 0 < k)
    (h : (parentsOf pairs.tree.nodes)[k]? = some p) :
    ∃ node parent : NodeRef pairs.tree, node.1 = k ∧ parent.1 = p ∧
      pairs.tree.parentOf node = some parent := by
  obtain ⟨hlt, hget⟩ := List.getElem?_eq_some_iff.1 h
  rw [parentsOf, List.length_map] at hlt
  have hne : (⟨k, hlt⟩ : NodeRef pairs.tree).1 ≠ rootIndex := hk.ne'
  refine ⟨⟨k, hlt⟩, _, rfl, ?_, dif_neg hne⟩
  simpa [parentsOf, Trees.Tree.node] using hget

/-- What one leg of the walk preserves holds of the whole walk. -/
theorem walk_induction (P : ℕ → List ℕ → Prop) (hpre : pairs.tree.InPreorder) (h0 : P 1 [0])
    (hstep : ∀ (node parent : NodeRef pairs.tree) (spine : List ℕ),
      pairs.tree.parentOf node = some parent → spine.Pairwise (· > ·) → parent.1 ∈ spine →
      P node.1 spine → P (node.1 + 1) (node.1 :: upFrom parent.1 spine)) :
    ∃ spine, P pairs.tree.nodes.length spine := by
  obtain ⟨spine, hspine⟩ := hpre
  have hall := preorder_induction P hspine h0 (by
    intro k spine p hk hget hp hdec _ hP
    obtain ⟨node, parent, rfl, rfl, hpar⟩ := node_of_parents pairs k p hk hget
    exact hstep node parent spine hpar hdec hp hP)
  rw [parentsOf, List.length_map] at hall
  exact ⟨spine, hall⟩

theorem walked_run (hpre : pairs.tree.InPreorder) (scan : Scan)
    (h : scanLegs inPool querier base pairs.legs = .ok scan) :
    ∃ spine, Walked pairs (legPrice inPool querier) pairs.tree.nodes.length spine scan := by
  have hall := walk_induction pairs (fun k spine => ∀ scan,
    scanLegs inPool querier base (legsUpTo pairs k) = .ok scan →
      Walked pairs (legPrice inPool querier) k spine scan) hpre (by
    intro scan hrun
    rw [legsUpTo_one] at hrun
    obtain rfl := (pure_ok _ _).1 hrun
    exact walked_start pairs _) (by
    intro node parent spine hpar hdec hp ih scan hrun
    have hleg := leg_some pairs node parent hpar
    rw [legsUpTo_succ pairs node _ hleg, scanLegs_append] at hrun
    obtain ⟨before, hbefore, hstep⟩ := hrun
    exact walked_step pairs inPool querier node parent _ spine before scan hpar hleg hdec hp
      (ih before hbefore) hstep)
  obtain ⟨spine, hspine⟩ := hall
  exact ⟨spine, hspine scan (by rw [legsUpTo_all]; exact h)⟩

/-- With all the base prices in range the walk gets to its end. -/
theorem walk_returns (hpre : pairs.tree.InPreorder)
    (hquery : ∀ c q cause, querier c q ≠ .error (.panic cause))
    (hrep : Representable pairs.legs (legPrice inPool querier) base) :
    ∃ scan, scanLegs inPool querier base pairs.legs = .ok scan := by
  have hall := walk_induction pairs (fun k spine => ∃ scan,
    scanLegs inPool querier base (legsUpTo pairs k) = .ok scan ∧
      Walked pairs (legPrice inPool querier) k spine scan) hpre (by
    use ⟨LegCmd.new base, []⟩
    rw [legsUpTo_one]
    exact ⟨rfl, walked_start pairs _⟩) (by
    intro node parent spine hpar hdec hp ih
    obtain ⟨before, hbefore, hwalked⟩ := ih
    have hleg := leg_some pairs node parent hpar
    obtain ⟨scan, hscan⟩ := scanLeg_returns inPool querier before _ (hquery _ _) (by
      intro found below hfound
      obtain ⟨hbased, hnew⟩ := found_based pairs _ before _ spine _ found below hwalked hfound
      refine ⟨_, hnew, fun p hprice => ?_⟩
      exact hrep _ ((mem_legs pairs _).2 ⟨node, hleg⟩) p _ hprice hbased)
    use scan
    rw [legsUpTo_succ pairs node _ hleg, scanLegs_append]
    exact ⟨⟨before, hbefore, hscan⟩, walked_step pairs inPool querier node parent _ spine before
      scan hpar hleg hdec hp hwalked hscan⟩)
  obtain ⟨_, scan, hscan, _⟩ := hall
  rw [legsUpTo_all] at hscan
  exact ⟨scan, hscan⟩

theorem legs_from (k : ℕ) (hk : k < pairs.tree.nodes.length) :
    (legsUpTo pairs (k + 1)).map SwapLeg.from_ = ((targets pairs.tree).take (k + 1)).tail := by
  have hlen : (targets pairs.tree).length = pairs.tree.nodes.length := by simp [targets]
  induction k with
  | zero =>
    rw [legsUpTo_one]
    cases targets pairs.tree with
    | nil => rfl
    | cons c rest => rfl
  | succ k ih =>
    have hne : (⟨k + 1, hk⟩ : NodeRef pairs.tree).1 ≠ rootIndex := Nat.succ_ne_zero k
    have hleg := leg_some pairs ⟨k + 1, hk⟩ _ (dif_neg hne)
    have hlt : k + 1 < (targets pairs.tree).length := by omega
    have htake : (targets pairs.tree).take (k + 1 + 1) =
        (targets pairs.tree).take (k + 1) ++ [pairs.currencyOf ⟨k + 1, hk⟩] := by
      rw [List.take_succ_eq_append_getElem hlt]
      simp [targets, SupportedPairs.currencyOf, Trees.Tree.valueOf, Trees.Tree.node]
    have hsome : (targets pairs.tree).take (k + 1) ≠ [] := by
      apply List.ne_nil_of_length_pos
      rw [List.length_take]
      omega
    rw [legsUpTo_succ pairs ⟨k + 1, hk⟩ _ hleg, List.map_append, ih (by omega), htake,
      List.tail_append_of_ne_nil hsome]
    rfl

theorem legs_targets : pairs.legs.map SwapLeg.from_ = (targets pairs.tree).tail := by
  have hpos := pairs.tree.nonempty
  obtain ⟨k, hk⟩ : ∃ k, pairs.tree.nodes.length = k + 1 :=
    Nat.exists_eq_succ_of_ne_zero hpos.ne'
  have hall := legs_from pairs k (by omega)
  rw [← hk, legsUpTo_all] at hall
  rw [hall, List.take_of_length_le (by simp [targets])]

/-! ## Completeness and soundness -/

/-- The prices are of a part of the currencies but the base one, in the order of the tree, they
are base prices, and no currency all of whose legs are priced is missing. -/
structure AllPrices (prices : List BasePrice) : Prop where
  in_order : (prices.map BasePrice.currency).Sublist (targets pairs.tree).tail
  complete : ∀ c ∈ (targets pairs.tree).tail, Priced pairs.legs price base c →
    c ∈ prices.map BasePrice.currency
  sound : ∀ b ∈ prices, BaseOf pairs.legs price base b.currency b.price

theorem all_prices (hpre : pairs.tree.InPreorder) (items : List PriceResult)
    (h : allPricesIter inPool querier base pairs.legs = .ok items) :
    AllPrices pairs (legPrice inPool querier) (prices items) := by
  obtain ⟨scan, hscan, hitems⟩ := (bind_ok _ _ _).1 h
  obtain rfl := (pure_ok _ _).1 hitems
  obtain ⟨spine, hwalked⟩ := walked_run pairs inPool querier hpre scan hscan
  constructor
  · have hin := hwalked.yielded.in_order
    rwa [legsUpTo_all, legs_targets] at hin
  · intro c hc hpriced
    rw [← legs_targets] at hc
    obtain ⟨leg, hleg, rfl⟩ := List.mem_map.1 hc
    obtain ⟨r, hr⟩ := hwalked.yielded.complete leg (by rwa [legsUpTo_all]) hpriced
    exact List.mem_map_of_mem hr
  · exact hwalked.yielded.sound

/-- Over an assignment of prices to legs, the walk gets to its end with a base price for exactly
the currencies all of whose legs up to the base one are priced, once for each of them and in
preorder, and it is the price of the leg multiplied by the base price of the parent. -/
def CompleteAndSound (assigned : ℕ → ℕ → Option Price) : Prop :=
  ∃ legs items, (pairs.swapPairsDf : Outcome PairsError _) = .ok legs ∧
    allPricesIter inPool (fun c q => pure (assigned c q)) base legs = .ok items ∧
    ((prices items).map BasePrice.currency).Sublist (targets pairs.tree).tail ∧
    (targets pairs.tree).Nodup ∧
    (∀ c ∈ (targets pairs.tree).tail, c ∈ (prices items).map BasePrice.currency ↔
      Priced legs (legPrice inPool fun c q => pure (assigned c q)) base c) ∧
    ∀ b ∈ prices items,
      BaseOf legs (legPrice inPool fun c q => pure (assigned c q)) base b.currency b.price

theorem all_prices_complete_and_sound (assigned : ℕ → ℕ → Option Price)
    (hpre : pairs.tree.InPreorder)
    (hrep : Representable pairs.legs (legPrice inPool fun c q => pure (assigned c q)) base) :
    CompleteAndSound pairs inPool assigned := by
  obtain ⟨scan, hscan⟩ := walk_returns pairs inPool (fun c q => pure (assigned c q)) hpre
    (fun c q cause => pure_error _ _) hrep
  have hitems : allPricesIter inPool (fun c q => pure (assigned c q)) base pairs.legs =
      .ok scan.yielded := (bind_ok _ _ _).2 ⟨scan, hscan, rfl⟩
  have hall := all_prices pairs inPool _ hpre scan.yielded hitems
  refine ⟨pairs.legs, scan.yielded, swapPairsDf_ok pairs, hitems, hall.in_order, pairs.unique,
    ?_, hall.sound⟩
  intro c hc
  constructor
  · intro hin
    obtain ⟨b, hb, rfl⟩ := List.mem_map.1 hin
    exact baseOf_priced _ _ _ _ _ (hall.sound b hb)
  · exact hall.complete c hc

def branches : SupportedPairs 0 where
  tree := .ofPreorder [⟨0, ⟨0, 0⟩⟩, ⟨0, ⟨11, 1⟩⟩, ⟨1, ⟨12, 2⟩⟩, ⟨0, ⟨13, 3⟩⟩]
    ⟨_, .grow _ _ 0 (.grow _ _ 1 (.grow _ _ 0 .root (by decide)) (by decide)) (by decide)⟩
  rooted := rfl
  unique := by decide
  fits := by decide

def somePrices : ℕ → ℕ → Option Price
  | 1, 0 => some ⟨2, 1⟩
  | 3, 0 => some ⟨3, 5⟩
  | _, _ => none

theorem branches_inPreorder : branches.tree.InPreorder :=
  ⟨_, .grow _ _ 0 (.grow _ _ 1 (.grow _ _ 0 .root (by decide)) (by decide)) (by decide)⟩

/-- The currency 2 is left without a base price, the next one from the base is not. -/
theorem branches_complete_and_sound :
    CompleteAndSound branches (fun _ _ => true) somePrices := by
  apply all_prices_complete_and_sound branches _ somePrices branches_inPreorder
  intro leg hin p q hp hq
  have hlegs : branches.legs = [⟨1, ⟨11, 0⟩⟩, ⟨2, ⟨12, 1⟩⟩, ⟨3, ⟨13, 0⟩⟩] := rfl
  rw [hlegs] at hin
  simp only [List.mem_cons, List.not_mem_nil, or_false] at hin
  rcases hin with rfl | rfl | rfl
  · obtain rfl := Option.some.inj hp
    obtain rfl := baseOf_base branches _ _ q hq rfl
    exact ⟨⟨2, 1⟩, rfl⟩
  · cases hp
  · obtain rfl := Option.some.inj hp
    obtain rfl := baseOf_base branches _ _ q hq rfl
    exact ⟨⟨3, 5⟩, rfl⟩

def steepPrices : ℕ → ℕ → Option Price
  | 1, 0 => some ⟨2 ^ 127, 1⟩
  | 2, 1 => some ⟨2 ^ 127, 1⟩
  | _, _ => none

/-- The product of two prices at the end of the range vanishes, and the walk is aborted. -/
theorem steep_prices_abort : branches.tree.InPreorder ∧
    Priced branches.legs (legPrice (fun _ _ => true) fun c q => pure (steepPrices c q)) 0 2 ∧
    ¬ CompleteAndSound branches (fun _ _ => true) steepPrices := by
  refine ⟨branches_inPreorder, ?_, ?_⟩
  · have h1 : Priced branches.legs
        (legPrice (fun _ _ => true) fun c q => pure (steepPrices c q)) 0 1 :=
      .leg ⟨1, ⟨11, 0⟩⟩ ⟨2 ^ 127, 1⟩ (by decide) rfl .base
    exact .leg ⟨2, ⟨12, 1⟩⟩ ⟨2 ^ 127, 1⟩ (by decide) rfl h1
  · rintro ⟨legs, items, hlegs, hitems, _⟩
    rw [swapPairsDf_ok] at hlegs
    obtain rfl := Except.ok.inj hlegs
    have habort : allPricesIter (fun _ _ => true) (fun c q => pure (steepPrices c q)) 0
        branches.legs =
          .error (.panic (.assertion "price overflow during multiplication")) := rfl
    rw [habort] at hitems
    cases hitems

end Nolus.PricesWalk
