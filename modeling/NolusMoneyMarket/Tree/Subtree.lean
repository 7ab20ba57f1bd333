import Mathlib.Data.List.TakeWhile
import NolusMoneyMarket.Tree.Routes

/-! # Subtrees

The nodes of a subtree of a tree in preorder are a range of its nodes. The
range is found by a scan for the first parent before the root of the subtree.
The search over a range takes the end of it for a length, hence it goes on
after the nodes of a subtree by as many as there are before them. -/

set_option autoImplicit false

namespace Nolus.Trees
open Nolus.Fallible Nolus.Preorders

variable {T ε : Type} {tree : Tree T}

structure Subtree (tree : Tree T) where
  subtreeRootIndex : ℕ
  length : ℕ

def Subtree.fromTree (tree : Tree T) : Outcome ε (Subtree tree) := do
  let length ← tree.nodeIndexLen
  pure ⟨rootIndex, length⟩

/-- The nodes right after a node with no parent before it. -/
def descendants (tree : Tree T) (this : NodeRef tree) : List (Node T) :=
  (tree.nodes.drop (this.1 + 1)).takeWhile fun treeNode => this.1 ≤ treeNode.parent

/-- The length starts from one to account for the root of the subtree. -/
def Subtree.fromNode (node : NodeRef tree) : Outcome ε (Subtree tree) := do
  let start ← nativeAdd indexBits node.1 1
  ensure (start ≤ tree.nodes.length)
    (.panic (.assertion "range start index out of range for slice"))
  let length ← (descendants tree node).foldlM (fun length _ => nativeAdd indexBits length 1) 1
  pure ⟨node.1, length⟩

def Subtree.subtreeRange (self : Subtree tree) : Outcome ε (ℕ × ℕ) := do
  let stop ← nativeAdd indexBits self.subtreeRootIndex self.length
  pure (self.subtreeRootIndex, stop)

def Subtree.iter (self : Subtree tree) : Outcome ε (List (NodeRef tree)) := do
  let (start, stop) ← self.subtreeRange
  pure (((List.finRange tree.nodes.length).take stop).drop start)

def Subtree.findBy (self : Subtree tree) (f : T → Bool) : Outcome ε (Option (NodeRef tree)) := do
  let (start, stop) ← self.subtreeRange
  tree.findByWithin start stop f

/-! ## The nodes that a search examines -/

/-- The elements up to the first that satisfies the predicate, and that one if there is any. -/
def examine {α : Type} (p : α → Bool) : List α → List α × Option α
  | [] => ([], none)
  | a :: rest =>
    if p a then ([a], some a)
    else
      let (seen, found) := examine p rest
      (a :: seen, found)

theorem examine_found {α : Type} (p : α → Bool) (l : List α) : (examine p l).2 = l.find? p := by
  induction l with
  | nil => rfl
  | cons a rest ih =>
    by_cases ha : p a
    · simp [examine, ha]
    · simp [examine, ha, ih]

theorem examine_subset {α : Type} (p : α → Bool) (l : List α) : (examine p l).1 ⊆ l := by
  induction l with
  | nil => exact List.Subset.refl _
  | cons a rest ih =>
    by_cases ha : p a
    · simp [examine, ha]
    · simpa [examine, ha] using List.Subset.trans ih (List.subset_cons_self a rest)

theorem examine_append {α : Type} (p : α → Bool) (l rest : List α) (h : ∃ a ∈ l, p a) :
    examine p (l ++ rest) = examine p l := by
  induction l with
  | nil => simp at h
  | cons a l ih =>
    by_cases ha : p a
    · simp [examine, ha]
    · have hl : ∃ a ∈ l, p a := by simpa [ha] using h
      simp [examine, ha, ih hl]

/-- When there is none such it goes through all of them and further. -/
theorem examine_through {α : Type} (p : α → Bool) (l rest : List α) (h : ∀ a ∈ l, ¬ p a) :
    (examine p (l ++ rest)).1 = l ++ (examine p rest).1 := by
  induction l with
  | nil => rfl
  | cons a l ih =>
    have ha := h a List.mem_cons_self
    have hl : ∀ a ∈ l, ¬ p a := fun b hb => h b (List.mem_cons_of_mem _ hb)
    simp [examine, ha, ih hl]

theorem examine_head {α : Type} (p : α → Bool) (a : α) (rest : List α) :
    a ∈ (examine p (a :: rest)).1 := by
  by_cases ha : p a <;> simp [examine, ha]

def Tree.slice (self : Tree T) (start stop : ℕ) : Outcome ε (List (NodeRef self)) := do
  ensure (start ≤ self.nodes.length)
    (.panic (.assertion "range start index out of range for slice"))
  let tail := (List.finRange self.nodes.length).drop start
  ensure (stop ≤ tail.length) (.panic (.assertion "range end index out of range for slice"))
  pure (tail.take stop)

theorem findByWithin_slice (tree : Tree T) (start stop : ℕ) (f : T → Bool) :
    (tree.findByWithin start stop f : Outcome ε _) =
      tree.slice start stop >>= fun nodes =>
        pure (nodes.find? fun node => f (tree.valueOf node)) := by
  unfold Tree.findByWithin Tree.slice
  by_cases hstart : start ≤ tree.nodes.length
  · by_cases hstop : stop ≤ ((List.finRange tree.nodes.length).drop start).length
    · simp only [ensure, if_pos hstart, if_pos hstop]
      rfl
    · simp only [ensure, if_pos hstart, if_neg hstop]
      rfl
  · simp only [ensure, if_neg hstart]
    rfl

/-- The nodes whose values the search in a subtree passes to the predicate. -/
def Subtree.examined (self : Subtree tree) (f : T → Bool) : Outcome ε (List (NodeRef tree)) := do
  let (start, stop) ← self.subtreeRange
  let nodes ← tree.slice start stop
  pure (examine (fun node => f (tree.valueOf node)) nodes).1

/-! ## The range of a subtree -/

theorem takeWhile_holds {α : Type} (p : α → Bool) (l : List α) (k : ℕ) (a : α)
    (hk : k < (l.takeWhile p).length) (ha : l[k]? = some a) : p a := by
  have hprefix : (l.takeWhile p)[k]? = some a := by
    rw [← ha, List.getElem?_eq_getElem hk, (List.takeWhile_prefix p).getElem hk]
    exact (List.getElem?_eq_getElem _).symm
  exact List.mem_takeWhile_imp (List.mem_of_getElem? hprefix)

theorem takeWhile_stops {α : Type} (p : α → Bool) (l : List α) (a : α)
    (ha : l[(l.takeWhile p).length]? = some a) : ¬ p a := by
  induction l with
  | nil => cases ha
  | cons b l ih =>
    by_cases hb : p b
    · simp only [List.takeWhile_cons, hb, if_true, List.length_cons, List.getElem?_cons_succ] at ha
      exact ih ha
    · simp only [List.takeWhile_cons, hb] at ha
      obtain rfl := Option.some.inj ha
      exact hb

def Tree.subtreeLen (self : Tree T) (this : NodeRef self) : ℕ := 1 + (descendants self this).length

theorem subtreeLen_le (tree : Tree T) (this : NodeRef tree) :
    this.1 + tree.subtreeLen this ≤ tree.nodes.length := by
  have hle := (List.takeWhile_sublist
    (p := fun treeNode : Node T => decide (this.1 ≤ treeNode.parent))
    (l := tree.nodes.drop (this.1 + 1))).length_le
  have hthis := this.2
  rw [List.length_drop] at hle
  unfold Tree.subtreeLen descendants
  omega

theorem length_counts {α : Type} (l : List α) (length : ℕ)
    (h : length + l.length < 2 ^ indexBits) :
    l.foldlM (fun length _ => (nativeAdd indexBits length 1 : Outcome ε ℕ)) length =
      .ok (length + l.length) := by
  induction l generalizing length with
  | nil => rfl
  | cons a l ih =>
    rw [List.length_cons] at h
    apply (bind_ok _ _ _).2
    refine ⟨length + 1, (nativeAdd_ok _ _ _ _).2 ⟨by omega, rfl⟩, ?_⟩
    rw [ih (length + 1) (by omega), List.length_cons]
    congr 1
    omega

theorem fromNode_fits (h : tree.nodes.length < 2 ^ indexBits) (node : NodeRef tree) :
    (Subtree.fromNode node : Outcome ε _) = .ok ⟨node.1, tree.subtreeLen node⟩ := by
  have hlen := subtreeLen_le tree node
  have hnode := node.2
  have hcount := length_counts (ε := ε) (descendants tree node) 1
    (by unfold Tree.subtreeLen at hlen; omega)
  simp only [Subtree.fromNode, bind_ok, nativeAdd_ok, ensure_ok, pure_ok]
  exact ⟨node.1 + 1, ⟨by omega, rfl⟩, (), hnode, _, hcount, rfl⟩

theorem fromNode_root (h : tree.nodes.length < 2 ^ indexBits) :
    (Subtree.fromNode tree.root : Outcome ε _) = Subtree.fromTree tree := by
  have hall : descendants tree tree.root = tree.nodes.drop 1 :=
    List.takeWhile_eq_self_iff.2 fun treeNode _ => decide_eq_true (Nat.zero_le treeNode.parent)
  have hpos := tree.nonempty
  have hlen : tree.subtreeLen tree.root = tree.nodes.length := by
    rw [Tree.subtreeLen, hall, List.length_drop]
    omega
  rw [fromNode_fits h, hlen, Subtree.fromTree, nodeIndexLen_fits tree h]
  rfl

theorem parent_within (node this : NodeRef tree) (hlo : node.1 < this.1)
    (hhi : this.1 < node.1 + tree.subtreeLen node) : node.1 ≤ (tree.node this).parent := by
  have hat : (tree.nodes.drop (node.1 + 1))[this.1 - (node.1 + 1)]? = some (tree.node this) := by
    rw [List.getElem?_drop, Nat.add_sub_cancel' hlo]
    exact node_at tree this
  have hlen : this.1 - (node.1 + 1) < (descendants tree node).length := by
    unfold Tree.subtreeLen at hhi
    omega
  have hholds := takeWhile_holds _ _ _ _ hlen hat
  exact of_decide_eq_true hholds

theorem parent_after (node this : NodeRef tree)
    (h : this.1 = node.1 + tree.subtreeLen node) : (tree.node this).parent < node.1 := by
  have hat : (tree.nodes.drop (node.1 + 1))[(descendants tree node).length]? =
      some (tree.node this) := by
    rw [List.getElem?_drop, ← node_at tree this]
    congr 1
    unfold Tree.subtreeLen at h
    omega
  have hstop := takeWhile_stops _ _ _ hat
  exact Nat.lt_of_not_le fun hle => hstop (decide_eq_true hle)

theorem subtree_descends (node other : NodeRef tree) (hlo : node.1 ≤ other.1)
    (hhi : other.1 < node.1 + tree.subtreeLen node) : node ∈ tree.lineage other := by
  induction other using node_induction with
  | h0 =>
    have he : node = tree.root := Fin.ext (Nat.le_zero.1 hlo)
    rw [he]
    exact mem_lineage_self _
  | hstep this parent hp ih =>
    rcases hlo.eq_or_lt with he | hlt
    · rw [Fin.ext he]
      exact mem_lineage_self _
    · obtain ⟨_, hparent, hbefore⟩ := parentOf_some tree this parent hp
      have hle := parent_within node this hlt hhi
      rw [lineage_step this parent hp]
      exact List.mem_cons_of_mem _ (ih (by omega) (by omega))

/-- The node right after the subtree would have a parent before its root. -/
theorem descends_subtree (h : tree.InPreorder) (node other : NodeRef tree)
    (hin : node ∈ tree.lineage other) :
    node.1 ≤ other.1 ∧ other.1 < node.1 + tree.subtreeLen node := by
  have hpos : 0 < tree.subtreeLen node := Nat.lt_add_right _ Nat.one_pos
  induction other using node_induction with
  | h0 =>
    rw [lineage_root, List.mem_singleton] at hin
    subst hin
    omega
  | hstep this parent hp ih =>
    rw [lineage_step this parent hp] at hin
    rcases List.mem_cons.1 hin with rfl | hin
    · omega
    · obtain ⟨hlo, hhi⟩ := ih hin
      obtain ⟨_, hparent, hbefore⟩ := parentOf_some tree this parent hp
      refine ⟨by omega, ?_⟩
      by_contra hge
      obtain ⟨spine, hpre⟩ := h
      let next : NodeRef tree := ⟨node.1 + tree.subtreeLen node, by omega⟩
      have hafter := parent_after node next rfl
      have hthis := parentsOf_at _ _ _ (node_at tree this)
      have hnext := parentsOf_at _ _ _ (node_at tree next)
      rcases (Nat.le_of_not_lt hge).eq_or_lt with he | hlt
      · have hsame : next = this := Fin.ext he
        rw [hsame] at hafter
        omega
      · have hle := parent_between hpre this.1 next.1 _ _ hthis
          (by rw [← hparent]; exact hhi) hlt hnext
        omega

theorem in_subtree_iff (h : tree.InPreorder) (node other : NodeRef tree) :
    node ∈ tree.lineage other ↔
      node.1 ≤ other.1 ∧ other.1 < node.1 + tree.subtreeLen node := by
  constructor
  · exact descends_subtree h node other
  · rintro ⟨hlo, hhi⟩
    exact subtree_descends node other hlo hhi

/-! ## The search in a subtree -/

def Tree.subtreeNodes (self : Tree T) (this : NodeRef self) : List (NodeRef self) :=
  ((List.finRange self.nodes.length).drop this.1).take (self.subtreeLen this)

theorem mem_subtreeNodes (h : tree.InPreorder) (node other : NodeRef tree) :
    other ∈ tree.subtreeNodes node ↔ node ∈ tree.lineage other := by
  have hlen := subtreeLen_le tree node
  have hall : (List.finRange tree.nodes.length).map Fin.val =
      List.range' 0 tree.nodes.length := by
    rw [← List.range_eq_range']
    exact List.map_coe_finRange_eq_range
  rw [in_subtree_iff h, Tree.subtreeNodes, ← List.mem_map_of_injective Fin.val_injective,
    List.map_take, List.map_drop, hall, List.drop_range',
    List.take_range'_of_length_ge (by omega), List.mem_range'_1]
  omega

theorem subtreeNodes_sorted (node : NodeRef tree) :
    (tree.subtreeNodes node).Pairwise (· < ·) :=
  ((List.pairwise_lt_finRange _).sublist (List.drop_sublist _ _)).sublist (List.take_sublist _ _)

theorem iter_subtree (h : tree.nodes.length < 2 ^ indexBits) (node : NodeRef tree) :
    (Subtree.iter ⟨node.1, tree.subtreeLen node⟩ : Outcome ε (List (NodeRef tree))) =
      .ok (tree.subtreeNodes node) := by
  have hlen := subtreeLen_le tree node
  simp only [Subtree.iter, Subtree.subtreeRange, bind_ok, nativeAdd_ok, pure_ok, Prod.exists]
  refine ⟨_, _, ⟨_, ⟨by omega, rfl⟩, rfl⟩, ?_⟩
  rw [List.drop_take, Nat.add_sub_cancel_left]
  rfl

def Tree.beyond (self : Tree T) (this : NodeRef self) : List (NodeRef self) :=
  ((List.finRange self.nodes.length).drop (this.1 + self.subtreeLen this)).take this.1

theorem slice_subtree (node : NodeRef tree) (nodes : List (NodeRef tree)) :
    (tree.slice node.1 (node.1 + tree.subtreeLen node) : Outcome ε _) = .ok nodes ↔
      2 * node.1 + tree.subtreeLen node ≤ tree.nodes.length ∧
      tree.subtreeNodes node ++ tree.beyond node = nodes := by
  have hnode := node.2
  simp only [Tree.slice, bind_ok, ensure_ok, pure_ok, List.length_drop, List.length_finRange]
  rw [Nat.add_comm node.1 (tree.subtreeLen node), List.take_add, List.drop_drop]
  constructor
  · rintro ⟨_, _, _, hstop, rfl⟩
    exact ⟨by omega, rfl⟩
  · rintro ⟨hstop, rfl⟩
    exact ⟨(), by omega, (), by omega, rfl⟩

/-- What the search finds and what it examines are by the nodes of the slice. -/
theorem search_subtree (h : tree.nodes.length < 2 ^ indexBits) (node : NodeRef tree)
    (f : T → Bool) (found : Option (NodeRef tree)) (seen : List (NodeRef tree)) :
    ((Subtree.findBy ⟨node.1, tree.subtreeLen node⟩ f : Outcome ε _) = .ok found ∧
      (Subtree.examined ⟨node.1, tree.subtreeLen node⟩ f : Outcome ε _) = .ok seen) ↔
    2 * node.1 + tree.subtreeLen node ≤ tree.nodes.length ∧
      examine (fun other => f (tree.valueOf other)) (tree.subtreeNodes node ++ tree.beyond node) =
        (seen, found) := by
  have hlen := subtreeLen_le tree node
  have hrange : ((⟨node.1, tree.subtreeLen node⟩ : Subtree tree).subtreeRange : Outcome ε _) =
      .ok (node.1, node.1 + tree.subtreeLen node) := by
    simp only [Subtree.subtreeRange, bind_ok, nativeAdd_ok, pure_ok]
    exact ⟨_, ⟨by omega, rfl⟩, rfl⟩
  simp only [Subtree.findBy, Subtree.examined, findByWithin_slice, bind_ok, pure_ok, hrange,
    Except.ok.injEq, exists_eq_left', slice_subtree, ← examine_found]
  constructor
  · rintro ⟨⟨_, ⟨hfit, rfl⟩, rfl⟩, _, ⟨_, rfl⟩, rfl⟩
    exact ⟨hfit, rfl⟩
  · rintro ⟨hfit, hexamine⟩
    refine ⟨⟨_, ⟨hfit, rfl⟩, ?_⟩, _, ⟨hfit, rfl⟩, ?_⟩
    · rw [hexamine]
    · rw [hexamine]

/-- The search in a subtree agrees with the iteration over it, and examines no other nodes. -/
def SearchConfined (ε : Type) (node : NodeRef tree) (f : T → Bool) : Prop :=
  ∃ subtree nodes found seen,
    (Subtree.fromNode node : Outcome ε _) = .ok subtree ∧
    (subtree.iter : Outcome ε _) = .ok nodes ∧
    (subtree.findBy f : Outcome ε _) = .ok found ∧
    (subtree.examined f : Outcome ε _) = .ok seen ∧
    (∀ other, other ∈ nodes ↔ node ∈ tree.lineage other) ∧ nodes.Pairwise (· < ·) ∧
    (∀ other ∈ seen, node ∈ tree.lineage other) ∧
    found = nodes.find? fun other => f (tree.valueOf other)

/-- No node of the subtree comes too late for the range, and one of them ends the search. -/
def StopsWithin (node : NodeRef tree) (f : T → Bool) : Prop :=
  (∀ other, node ∈ tree.lineage other → node.1 + other.1 < tree.nodes.length) ∧
  ∃ other, node ∈ tree.lineage other ∧ f (tree.valueOf other)

theorem range_fits_iff (h : tree.InPreorder) (node : NodeRef tree) :
    2 * node.1 + tree.subtreeLen node ≤ tree.nodes.length ↔
      ∀ other, node ∈ tree.lineage other → node.1 + other.1 < tree.nodes.length := by
  have hlen := subtreeLen_le tree node
  have hpos : 0 < tree.subtreeLen node := Nat.lt_add_right _ Nat.one_pos
  constructor
  · intro hfit other hin
    have hlt := ((in_subtree_iff h node other).1 hin).2
    omega
  · intro hall
    let last : NodeRef tree := ⟨node.1 + tree.subtreeLen node - 1, by omega⟩
    have hlast : node.1 + (node.1 + tree.subtreeLen node - 1) < tree.nodes.length :=
      hall last ((in_subtree_iff h node last).2 ⟨by change _ ≤ _ - 1; omega, by
        change _ - 1 < _; omega⟩)
    omega

theorem beyond_next (node : NodeRef tree) (hroot : node ≠ tree.root)
    (hfit : 2 * node.1 + tree.subtreeLen node ≤ tree.nodes.length) :
    ∃ next rest, tree.beyond node = next :: rest ∧ next.1 = node.1 + tree.subtreeLen node := by
  have hpos : 0 < node.1 := Nat.pos_of_ne_zero fun he => hroot (Fin.ext he)
  have hnext : node.1 + tree.subtreeLen node < (List.finRange tree.nodes.length).length := by
    rw [List.length_finRange]
    omega
  unfold Tree.beyond
  rw [List.drop_eq_getElem_cons hnext, List.take_cons hpos, List.getElem_finRange]
  exact ⟨_, _, rfl, rfl⟩

theorem beyond_root (tree : Tree T) : tree.beyond tree.root = [] := List.take_zero

theorem stops_fits (h : tree.InPreorder) (node : NodeRef tree) (f : T → Bool)
    (hstops : node = tree.root ∨ StopsWithin node f) :
    2 * node.1 + tree.subtreeLen node ≤ tree.nodes.length := by
  rcases hstops with rfl | ⟨hall, _⟩
  · have hlen := subtreeLen_le tree tree.root
    change 2 * 0 + _ ≤ _
    change 0 + _ ≤ _ at hlen
    omega
  · exact (range_fits_iff h node).2 hall

theorem stops_examined (h : tree.InPreorder) (node : NodeRef tree) (f : T → Bool)
    (hstops : node = tree.root ∨ StopsWithin node f) :
    examine (fun other => f (tree.valueOf other)) (tree.subtreeNodes node ++ tree.beyond node) =
      examine (fun other => f (tree.valueOf other)) (tree.subtreeNodes node) := by
  rcases hstops with rfl | ⟨_, other, hin, hf⟩
  · rw [beyond_root, List.append_nil]
  · exact examine_append _ _ _ ⟨other, (mem_subtreeNodes h node other).2 hin, hf⟩

theorem examined_beyond (h : tree.InPreorder) (node : NodeRef tree) (f : T → Bool)
    (hroot : node ≠ tree.root) (hfit : 2 * node.1 + tree.subtreeLen node ≤ tree.nodes.length)
    (hnone : ∀ other, node ∈ tree.lineage other → ¬ f (tree.valueOf other)) :
    ∃ next ∈ (examine (fun other => f (tree.valueOf other))
      (tree.subtreeNodes node ++ tree.beyond node)).1, node ∉ tree.lineage next := by
  obtain ⟨next, rest, hbeyond, hnext⟩ := beyond_next node hroot hfit
  refine ⟨next, ?_, ?_⟩
  · rw [examine_through _ _ _ fun other hin => hnone other ((mem_subtreeNodes h node other).1 hin),
      hbeyond]
    exact List.mem_append_right _ (examine_head _ next rest)
  · intro hin
    have hlt := ((in_subtree_iff h node next).1 hin).2
    omega

/-- The search is confined exactly when it does not have to go past the subtree. -/
theorem subtree_search_confined_iff (h : tree.InPreorder)
    (hfits : tree.nodes.length < 2 ^ indexBits) (node : NodeRef tree) (f : T → Bool) :
    SearchConfined ε node f ↔ node = tree.root ∨ StopsWithin node f := by
  constructor
  · rintro ⟨subtree, nodes, found, seen, hsub, _, hfind, hseen, _, _, hconfined, _⟩
    rw [fromNode_fits hfits] at hsub
    obtain rfl := Except.ok.inj hsub
    obtain ⟨hfit, hexamine⟩ := (search_subtree hfits node f found seen).1 ⟨hfind, hseen⟩
    by_cases hroot : node = tree.root
    · exact .inl hroot
    · refine .inr ⟨(range_fits_iff h node).1 hfit, ?_⟩
      by_contra hnone
      obtain ⟨next, hin, hout⟩ := examined_beyond h node f hroot hfit
        fun other hin hf => hnone ⟨other, hin, hf⟩
      rw [hexamine] at hin
      exact hout (hconfined next hin)
  · intro hstops
    obtain ⟨hfind, hseen⟩ := (search_subtree (ε := ε) hfits node f _ _).2
      ⟨stops_fits h node f hstops, stops_examined h node f hstops⟩
    refine ⟨_, _, _, _, fromNode_fits hfits node, iter_subtree hfits node, hfind, hseen,
      mem_subtreeNodes h node, subtreeNodes_sorted node, ?_, examine_found _ _⟩
    intro other hin
    exact (mem_subtreeNodes h node other).1 (examine_subset _ _ hin)

/-! ## A search that leaves its subtree -/

def sampleNodes : List (Node ℕ) := [⟨0, 5⟩, ⟨0, 4⟩, ⟨1, 6⟩, ⟨1, 7⟩, ⟨0, 3⟩]

theorem sample_preorder : ∃ spine, Preorder (parentsOf sampleNodes) spine :=
  ⟨_, .grow [0, 0, 1, 1] _ 0 (.grow [0, 0, 1] _ 1 (.grow [0, 0] _ 1
    (.grow [0] _ 0 .root (by decide)) (by decide)) (by decide)) (by decide)⟩

def sampleTree : Tree ℕ := .ofPreorder sampleNodes sample_preorder

def sampleNode (i : ℕ) (h : i < 5) : NodeRef sampleTree := ⟨i, h⟩

/-- The search below the first child finds the second one, and below a leaf it panics. -/
theorem subtree_search_escapes :
    sampleTree.InPreorder ∧ sampleTree.nodes.length < 2 ^ indexBits ∧
    (∃ subtree, (Subtree.fromNode (sampleNode 1 (by decide)) : Outcome Empty _) = .ok subtree ∧
      (subtree.iter : Outcome Empty _) = .ok
        [sampleNode 1 (by decide), sampleNode 2 (by decide), sampleNode 3 (by decide)] ∧
      (subtree.findBy (· = 3) : Outcome Empty _) = .ok (some (sampleNode 4 (by decide)))) ∧
    sampleNode 1 (by decide) ∉ sampleTree.lineage (sampleNode 4 (by decide)) ∧
    (∃ subtree, (Subtree.fromNode (sampleNode 3 (by decide)) : Outcome Empty _) = .ok subtree ∧
      (subtree.findBy (· = 7) : Outcome Empty _) =
        panicking (.assertion "range end index out of range for slice")) ∧
    ¬ SearchConfined Empty (sampleNode 1 (by decide)) (· = 3) := by
  refine ⟨sample_preorder, by decide, ⟨⟨1, 3⟩, rfl, rfl, rfl⟩, by decide, ⟨⟨3, 1⟩, rfl, rfl⟩, ?_⟩
  rintro ⟨subtree, nodes, found, _, hsub, hiter, hfind, _, _, _, _, hfound⟩
  obtain rfl : ⟨1, 3⟩ = subtree := Except.ok.inj hsub
  obtain rfl : [sampleNode 1 (by decide), sampleNode 2 (by decide), sampleNode 3 (by decide)] =
    nodes := Except.ok.inj hiter
  obtain rfl : some (sampleNode 4 (by decide)) = found := Except.ok.inj hfind
  exact absurd hfound (by decide)

theorem subtree_search_confined_sample :
    SearchConfined Empty (sampleNode 1 (by decide)) (· = 6) ↔
      sampleNode 1 (by decide) = sampleTree.root ∨ StopsWithin (sampleNode 1 (by decide)) (· = 6) :=
  subtree_search_confined_iff (by exact sample_preorder) (by decide) _ _

end Nolus.Trees
