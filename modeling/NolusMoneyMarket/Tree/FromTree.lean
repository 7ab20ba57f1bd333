import Mathlib.Data.List.AList
import Mathlib.Data.List.Sort
import NolusMoneyMarket.Tree.Tree

/-! # Human readable forms of trees

The nodes of a tree leave its vector one by one until only the root remains.
The next to leave is one of the greatest parent, and the last of such ones.
Its own children have left by then. They wait under the index of their parent,
the last of them first. -/

set_option autoImplicit false

namespace Nolus.Trees
open Nolus.Fallible

variable {T ε α : Type}

/-! ## Vectors -/

/-- The last of the elements of the greatest key. -/
def maxByKey (key : α → ℕ) : List α → Option α
  | [] => none
  | a :: rest =>
    match maxByKey key rest with
    | none => some a
    | some b => if key a ≤ key b then some b else some a

/-- The elements after the one of the greatest key have lower keys. -/
theorem maxByKey_some (key : α → ℕ) (l : List α) (a : α) (h : maxByKey key l = some a) :
    ∃ before after, l = before ++ a :: after ∧ (∀ b ∈ before, key b ≤ key a) ∧
      ∀ b ∈ after, key b < key a := by
  induction l generalizing a with
  | nil => cases h
  | cons b l ih =>
    rw [maxByKey] at h
    cases hrest : maxByKey key l with
    | none =>
      simp only [hrest] at h
      obtain rfl := Option.some.inj h
      cases l with
      | nil => exact ⟨[], [], rfl, by simp, by simp⟩
      | cons c l =>
        rw [maxByKey] at hrest
        split at hrest
        · cases hrest
        · split_ifs at hrest
    | some c =>
      simp only [hrest] at h
      obtain ⟨before, after, rfl, hbefore, hafter⟩ := ih c hrest
      split_ifs at h with hle
      · obtain rfl := Option.some.inj h
        exact ⟨b :: before, after, rfl, List.forall_mem_cons.2 ⟨hle, hbefore⟩, hafter⟩
      · obtain rfl := Option.some.inj h
        have hlt : key c < key b := Nat.lt_of_not_le hle
        refine ⟨[], _, rfl, by simp, ?_⟩
        simp only [List.forall_mem_append, List.forall_mem_cons]
        exact ⟨fun x hx => (hbefore x hx).trans_lt hlt, hlt, fun x hx => (hafter x hx).trans hlt⟩

theorem maxByKey_none (key : α → ℕ) (l : List α) (h : maxByKey key l = none) : l = [] := by
  cases l with
  | nil => rfl
  | cons a l =>
    rw [maxByKey] at h
    split at h
    · cases h
    · split_ifs at h

def removeAt (items : List α) (index : ℕ) : Outcome ε (α × List α) :=
  match items[index]? with
  | some item => pure (item, items.eraseIdx index)
  | none => panicking (.assertion "removal index should be < len")

theorem removeAt_middle (before after : List α) (a : α) :
    (removeAt (before ++ a :: after) before.length : Outcome ε _) = .ok (a, before ++ after) := by
  simp [removeAt, List.eraseIdx_append_of_length_le, pure, Except.pure]

theorem removeAt_shorter (items rest : List α) (a : α) (index : ℕ)
    (h : (removeAt items index : Outcome ε _) = .ok (a, rest)) : rest.length < items.length := by
  unfold removeAt at h
  split at h
  · next item hitem =>
    obtain ⟨rfl, rfl⟩ := Prod.mk.inj (Except.ok.inj h)
    have hlt := (List.getElem?_eq_some_iff.1 hitem).1
    rw [List.length_eraseIdx_of_lt hlt]
    omega
  · exact absurd h (panicking_ok _ _)

/-! ## The loop -/

abbrev ChildNodes (T : Type) : Type := AList fun _ : ℕ => List (HrtNode T)

def convertNodeToHrt (childNodes : ChildNodes T) (node : Node T) (indexMapping : ℕ) :
    HrtNode T × ChildNodes T :=
  match childNodes.lookup indexMapping with
  | some children => (.branch node.value children.reverse, childNodes.erase indexMapping)
  | none => (.leaf node.value, childNodes)

def pushChild (childNodes : ChildNodes T) (parent : ℕ) (node : HrtNode T) : ChildNodes T :=
  match childNodes.lookup parent with
  | none => childNodes.insert parent [node]
  | some nodes => childNodes.insert parent (nodes ++ [node])

/-- The nodes that remain, with their indexes in the tree, and the children that have left. -/
structure Unfolding (T : Type) where
  nodes : List (Node T)
  indexesMapping : List ℕ
  childNodes : ChildNodes T

def Unfolding.next (self : Unfolding T) : Option ℕ :=
  (maxByKey (fun item => item.1.parent)
    (self.nodes.zipIdx.filter fun item => item.2 ≠ rootIndex)).map Prod.snd

def Unfolding.takeOut (self : Unfolding T) (index : ℕ) : Outcome ε (Unfolding T) := do
  let (node, nodes) ← removeAt self.nodes index
  let (indexMapping, indexesMapping) ← removeAt self.indexesMapping index
  let (hrt, childNodes) := convertNodeToHrt self.childNodes node indexMapping
  pure ⟨nodes, indexesMapping, pushChild childNodes node.parent hrt⟩

theorem takeOut_shorter (self rest : Unfolding T) (index : ℕ)
    (h : (self.takeOut index : Outcome ε _) = .ok rest) :
    rest.nodes.length < self.nodes.length := by
  simp only [Unfolding.takeOut, bind_ok, pure_ok] at h
  obtain ⟨⟨node, nodes⟩, hnode, ⟨indexMapping, indexesMapping⟩, _, rfl⟩ := h
  exact removeAt_shorter _ _ _ _ hnode

def Unfolding.run (self : Unfolding T) : Outcome ε (Unfolding T) :=
  match self.next with
  | none => pure self
  | some index =>
    match _h : (self.takeOut index : Outcome ε _) with
    | .ok rest => rest.run
    | .error fault => .error fault
termination_by self.nodes.length
decreasing_by exact takeOut_shorter self rest index _h

def HumanReadableTree.fromTree (tree : Tree T) : Outcome ε (HumanReadableTree T) := do
  let last ← (Unfolding.mk tree.nodes (List.range tree.nodes.length) ∅).run
  let (node, _) ← removeAt last.nodes rootIndex
  let (root, childNodes) := convertNodeToHrt last.childNodes node rootIndex
  ensure (last.indexesMapping = [rootIndex])
    (.panic (.assertion "assertion failed: indexes_mapping == [root_index]"))
  ensure childNodes.entries.isEmpty
    (.panic (.assertion "assertion failed: child_nodes.is_empty()"))
  pure ⟨root⟩

/-! ## The tree that the nodes make up -/

def Tree.childrenOf (self : Tree T) (this : NodeRef self) : List (NodeRef self) :=
  (List.finRange self.nodes.length).filter fun child => self.parentOf child = some this

theorem mem_childrenOf (tree : Tree T) (this child : NodeRef tree) :
    child ∈ tree.childrenOf this ↔ tree.parentOf child = some this := by
  simp [Tree.childrenOf]

theorem childrenOf_sorted (tree : Tree T) (this : NodeRef tree) :
    (tree.childrenOf this).Pairwise (· < ·) :=
  (List.pairwise_lt_finRange _).filter _

def HrtNode.of (value : T) (children : List (HrtNode T)) : HrtNode T :=
  if children.isEmpty then .leaf value else .branch value children

def Tree.hrtAt (self : Tree T) (this : NodeRef self) : HrtNode T :=
  .of (self.valueOf this) ((self.childrenOf this).attach.map fun child => self.hrtAt child.1)
termination_by self.nodes.length - this.1
decreasing_by
  have hbefore := (parentOf_some self _ _ ((mem_childrenOf self this _).1 child.2)).2.2
  exact Nat.sub_lt_sub_left (hbefore.trans child.1.2) hbefore

theorem hrtAt_eq (tree : Tree T) (this : NodeRef tree) :
    tree.hrtAt this = .of (tree.valueOf this) ((tree.childrenOf this).map tree.hrtAt) := by
  rw [Tree.hrtAt]
  congr 1
  exact List.attach_map_val

/-! ## The invariant of the loop -/

/-- An entry of the waiting children. There is none before a child has left. -/
def waiting (children : List (HrtNode T)) : Option (List (HrtNode T)) :=
  if children.isEmpty then none else some children

/-- The nodes with the root that remain. Those that have left are of greater parents, or later
of the same parent. -/
structure Remains (tree : Tree T) (others : List (NodeRef tree)) (state : Unfolding T) : Prop where
  sorted : (tree.root :: others).Pairwise (· < ·)
  nodes : state.nodes = (tree.root :: others).map tree.node
  mapping : state.indexesMapping = (tree.root :: others).map Fin.val
  greatest : ∀ gone ∉ tree.root :: others, ∀ this ∈ others,
    (tree.node this).parent < (tree.node gone).parent ∨
      (tree.node this).parent = (tree.node gone).parent ∧ this < gone
  children : ∀ this ∈ tree.root :: others, state.childNodes.lookup this.1 =
    waiting (((tree.childrenOf this).filter (· ∉ tree.root :: others)).map tree.hrtAt).reverse
  converted : ∀ key, (∀ this ∈ tree.root :: others, this.1 ≠ key) →
    state.childNodes.lookup key = none

theorem root_lt (tree : Tree T) (this : NodeRef tree) (h : this ≠ tree.root) : tree.root < this :=
  Nat.pos_of_ne_zero fun he => h (Fin.ext he)

theorem others_of_root (tree : Tree T) :
    ∃ others, tree.root :: others = List.finRange tree.nodes.length := by
  refine ⟨(List.finRange tree.nodes.length).filter (· ≠ tree.root), ?_⟩
  have hsorted : (tree.root :: (List.finRange tree.nodes.length).filter (· ≠ tree.root)).Pairwise
      (· < ·) := by
    rw [List.pairwise_cons]
    constructor
    · intro this hin
      exact root_lt tree this (of_decide_eq_true (List.mem_filter.1 hin).2)
    · exact (List.pairwise_lt_finRange _).filter _
  apply hsorted.eq_of_mem_iff (List.pairwise_lt_finRange _)
  intro this
  by_cases h : this = tree.root <;> simp [h]

theorem remains_start (tree : Tree T) :
    ∃ others, Remains tree others ⟨tree.nodes, List.range tree.nodes.length, ∅⟩ := by
  obtain ⟨others, hall⟩ := others_of_root tree
  have hin : ∀ this, this ∈ tree.root :: others := by
    intro this
    rw [hall]
    exact List.mem_finRange this
  use others
  constructor
  · rw [hall]
    exact List.pairwise_lt_finRange _
  · rw [hall]
    exact (List.map_get_finRange tree.nodes).symm
  · rw [hall]
    exact List.map_coe_finRange_eq_range.symm
  · intro gone hgone
    exact absurd (hin gone) hgone
  · intro this _
    have hnone : (tree.childrenOf this).filter (· ∉ tree.root :: others) = [] := by
      simp [hin]
    rw [hnone]
    rfl
  · intro key _
    rfl

/-! ## A node leaves -/

variable {tree : Tree T} {others : List (NodeRef tree)} {state : Unfolding T}

theorem exists_item (l : List α) (k : ℕ) (a : α) (h : a ∈ l) : ∃ i, (a, i) ∈ l.zipIdx k := by
  rw [← List.zipIdx_map_fst k l] at h
  obtain ⟨⟨a, i⟩, hin, rfl⟩ := List.mem_map.1 h
  exact ⟨i, hin⟩

theorem remains_items (h : Remains tree others state) :
    (state.nodes.zipIdx.filter fun item => item.2 ≠ rootIndex) =
      (others.map tree.node).zipIdx 1 := by
  rw [h.nodes, List.map_cons, List.zipIdx_cons, List.filter_cons_of_neg (by simp [rootIndex])]
  apply List.filter_eq_self.2
  intro item hin
  have hle := List.le_snd_of_mem_zipIdx hin
  exact decide_eq_true (Nat.ne_of_gt hle)

theorem next_none (h : Remains tree others state) (hnext : state.next = none) : others = [] := by
  rw [Unfolding.next, remains_items h, Option.map_eq_none_iff] at hnext
  have hnil := maxByKey_none _ _ hnext
  simpa using hnil

theorem next_some (h : Remains tree others state) (index : ℕ) (hnext : state.next = some index) :
    ∃ before this after, others = before ++ this :: after ∧ index = before.length + 1 ∧
      (∀ b ∈ before, (tree.node b).parent ≤ (tree.node this).parent) ∧
      ∀ b ∈ after, (tree.node b).parent < (tree.node this).parent := by
  rw [Unfolding.next, remains_items h, Option.map_eq_some_iff] at hnext
  obtain ⟨item, hmax, rfl⟩ := hnext
  obtain ⟨items, rest, hsplit, hitems, hrest⟩ := maxByKey_some _ _ _ hmax
  obtain ⟨front, back, hmap, rfl, hback⟩ := List.zipIdx_eq_append_iff.1 hsplit
  obtain ⟨before, tail, rfl, rfl, rfl⟩ := List.map_eq_append_iff.1 hmap
  cases tail with
  | nil => cases hback
  | cons this after =>
    rw [List.map_cons, List.zipIdx_cons] at hback
    obtain ⟨rfl, rfl⟩ := List.cons.inj hback
    refine ⟨before, this, after, rfl, ?_, ?_, ?_⟩
    · rw [List.length_map, Nat.add_comm]
    · intro b hb
      obtain ⟨i, hin⟩ := exists_item _ 1 _ (List.mem_map_of_mem hb)
      exact hitems _ hin
    · intro b hb
      obtain ⟨i, hin⟩ := exists_item _ _ _ (List.mem_map_of_mem hb)
      exact hrest _ hin

theorem convert_waiting (childNodes : ChildNodes T) (node : Node T) (key : ℕ)
    (children : List (HrtNode T)) (h : childNodes.lookup key = waiting children.reverse) :
    (convertNodeToHrt childNodes node key).1 = .of node.value children ∧
    ∀ other, (convertNodeToHrt childNodes node key).2.lookup other =
      if other = key then none else childNodes.lookup other := by
  cases children with
  | nil =>
    have hnone : childNodes.lookup key = none := h
    simp only [convertNodeToHrt, hnone]
    refine ⟨rfl, ?_⟩
    intro other
    split_ifs with he
    · rw [he, hnone]
    · rfl
  | cons child children =>
    have hsome : childNodes.lookup key = some (child :: children).reverse := by
      rw [h, waiting, if_neg (by simp)]
    simp only [convertNodeToHrt, hsome, List.reverse_reverse]
    refine ⟨rfl, ?_⟩
    intro other
    split_ifs with he
    · rw [he, AList.lookup_erase]
    · exact AList.lookup_erase_ne he

theorem pushChild_waiting (childNodes : ChildNodes T) (parent : ℕ) (children : List (HrtNode T))
    (node : HrtNode T) (h : childNodes.lookup parent = waiting children.reverse) :
    ∀ other, (pushChild childNodes parent node).lookup other =
      if other = parent then waiting (node :: children).reverse else childNodes.lookup other := by
  intro other
  have hpush : pushChild childNodes parent node =
      childNodes.insert parent (node :: children).reverse := by
    cases children with
    | nil =>
      have hnone : childNodes.lookup parent = none := h
      simp [pushChild, hnone]
    | cons child children =>
      have hsome : childNodes.lookup parent = some (child :: children).reverse := by
        rw [h, waiting, if_neg (by simp)]
      simp [pushChild, hsome]
  rw [hpush]
  split_ifs with he
  · rw [he, AList.lookup_insert, waiting, if_neg (by simp)]
  · exact AList.lookup_insert_ne he

structure Leaves (tree : Tree T) (before after : List (NodeRef tree)) (this : NodeRef tree)
    (state : Unfolding T) : Prop where
  remains : Remains tree (before ++ this :: after) state
  notLower : ∀ b ∈ before, (tree.node b).parent ≤ (tree.node this).parent
  greater : ∀ b ∈ after, (tree.node b).parent < (tree.node this).parent

variable {before after : List (NodeRef tree)} {this : NodeRef tree}

theorem mem_remaining (x : NodeRef tree) :
    x ∈ tree.root :: (before ++ this :: after) ↔ x = this ∨ x ∈ tree.root :: (before ++ after) := by
  simp only [List.mem_cons, List.mem_append]
  tauto

theorem leaves_nodup (h : Leaves tree before after this state) :
    this ∉ tree.root :: (before ++ after) := by
  have hnodup : (tree.root :: (before ++ this :: after)).Nodup := h.remains.sorted.imp ne_of_lt
  have hperm : (tree.root :: (before ++ this :: after)).Perm
      (this :: tree.root :: (before ++ after)) :=
    (List.Perm.cons _ List.perm_middle).trans (List.Perm.swap _ _ _)
  exact (List.nodup_cons.1 (hperm.nodup_iff.1 hnodup)).1

theorem leaves_parent (h : Leaves tree before after this state) :
    ∃ parent, tree.parentOf this = some parent := by
  have hne : this.1 ≠ rootIndex := fun he =>
    leaves_nodup h (List.mem_cons.2 (.inl (Fin.ext he)))
  exact ⟨_, dif_neg hne⟩

theorem leaves_children (h : Leaves tree before after this state) :
    ∀ child ∈ tree.childrenOf this, child ∉ tree.root :: (before ++ this :: after) := by
  intro child hchild hin
  obtain ⟨parent, hp⟩ := leaves_parent h
  obtain ⟨hne, hparent, hbefore⟩ := parentOf_some tree child this ((mem_childrenOf _ _ _).1 hchild)
  obtain ⟨_, hgrand, hlt⟩ := parentOf_some tree this parent hp
  simp only [List.mem_cons, List.mem_append] at hin
  rcases hin with rfl | hin | rfl | hin
  · exact hne rfl
  · have hle := h.notLower child hin
    omega
  · omega
  · have hle := h.greater child hin
    omega

theorem leaves_parent_remains (h : Leaves tree before after this state) (parent : NodeRef tree)
    (hp : tree.parentOf this = some parent) : parent ∈ tree.root :: (before ++ after) := by
  obtain ⟨_, hparent, hlt⟩ := parentOf_some tree this parent hp
  by_contra hout
  have hgone : parent ∉ tree.root :: (before ++ this :: after) := by
    rw [mem_remaining]
    rintro (he | hin)
    · exact absurd hlt (he ▸ lt_irrefl _)
    · exact hout hin
  have hroot : parent.1 ≠ rootIndex := fun he => hgone (List.mem_cons.2 (.inl (Fin.ext he)))
  have hbefore := parent_before tree parent hroot
  have hgreatest := h.remains.greatest parent hgone this (by simp)
  omega

/-- The node is the first of the children of its parent that have left. -/
theorem leaves_siblings (h : Leaves tree before after this state) (parent : NodeRef tree)
    (hp : tree.parentOf this = some parent) :
    (tree.childrenOf parent).filter (· ∉ tree.root :: (before ++ after)) =
      this :: (tree.childrenOf parent).filter (· ∉ tree.root :: (before ++ this :: after)) := by
  obtain ⟨_, hparent, _⟩ := parentOf_some tree this parent hp
  have hsorted : (this :: (tree.childrenOf parent).filter
      (· ∉ tree.root :: (before ++ this :: after))).Pairwise (· < ·) := by
    rw [List.pairwise_cons]
    constructor
    · intro child hin
      obtain ⟨hchild, hgone⟩ := List.mem_filter.1 hin
      obtain ⟨_, hsame, _⟩ := parentOf_some tree child parent ((mem_childrenOf _ _ _).1 hchild)
      rcases h.remains.greatest child (of_decide_eq_true hgone) this (by simp) with hlt | ⟨_, hlt⟩
      · omega
      · exact hlt
    · exact (childrenOf_sorted tree parent).filter _
  apply ((childrenOf_sorted tree parent).filter _).eq_of_mem_iff hsorted
  intro child
  have hout := leaves_nodup h
  rw [List.mem_cons, List.mem_filter, List.mem_filter, mem_childrenOf, decide_eq_true_eq,
    decide_eq_true_eq, mem_remaining]
  by_cases he : child = this
  · subst he
    exact iff_of_true ⟨hp, hout⟩ (.inl rfl)
  · simp only [he, false_or]

theorem leaves_apart (other parent : NodeRef tree) (hp : tree.parentOf this = some parent)
    (hother : other ≠ parent) :
    (tree.childrenOf other).filter (· ∉ tree.root :: (before ++ after)) =
      (tree.childrenOf other).filter (· ∉ tree.root :: (before ++ this :: after)) := by
  apply List.filter_congr
  intro child hchild
  have hne : child ≠ this := by
    rintro rfl
    rw [mem_childrenOf, hp] at hchild
    exact hother (Option.some.inj hchild).symm
  simp only [mem_remaining, hne, false_or]

theorem takeOut_ok (h : Leaves tree before after this state) :
    (state.takeOut (before.length + 1) : Outcome ε _) = .ok
      ⟨(tree.root :: (before ++ after)).map tree.node,
        (tree.root :: (before ++ after)).map Fin.val,
        pushChild (convertNodeToHrt state.childNodes (tree.node this) this.1).2
          (tree.node this).parent
          (convertNodeToHrt state.childNodes (tree.node this) this.1).1⟩ := by
  have hremoved (β : Type) (f : NodeRef tree → β) :
      (removeAt ((tree.root :: (before ++ this :: after)).map f) (before.length + 1) :
        Outcome ε _) = .ok (f this, (tree.root :: (before ++ after)).map f) := by
    simpa using removeAt_middle ((tree.root :: before).map f) (after.map f) (f this)
  simp only [Unfolding.takeOut, h.remains.nodes, h.remains.mapping, bind_ok, pure_ok]
  exact ⟨_, hremoved _ tree.node, _, hremoved _ Fin.val, rfl⟩

theorem convert_all (this : NodeRef tree) (remaining : List (NodeRef tree))
    (childNodes : ChildNodes T)
    (h : childNodes.lookup this.1 =
      waiting (((tree.childrenOf this).filter (· ∉ remaining)).map tree.hrtAt).reverse)
    (hgone : ∀ child ∈ tree.childrenOf this, child ∉ remaining) :
    (convertNodeToHrt childNodes (tree.node this) this.1).1 = tree.hrtAt this ∧
    ∀ other, (convertNodeToHrt childNodes (tree.node this) this.1).2.lookup other =
      if other = this.1 then none else childNodes.lookup other := by
  have hall : (tree.childrenOf this).filter (· ∉ remaining) = tree.childrenOf this :=
    List.filter_eq_self.2 fun child hin => decide_eq_true (hgone child hin)
  rw [hall] at h
  obtain ⟨hhrt, hconverted⟩ := convert_waiting childNodes (tree.node this) this.1 _ h
  exact ⟨hhrt.trans (hrtAt_eq tree this).symm, hconverted⟩

/-- The node goes to the waiting children of its parent, and its own ones are in it. -/
theorem childNodes_left (h : Leaves tree before after this state) (parent : NodeRef tree)
    (hp : tree.parentOf this = some parent) (key : ℕ) :
    (pushChild (convertNodeToHrt state.childNodes (tree.node this) this.1).2
        (tree.node this).parent
        (convertNodeToHrt state.childNodes (tree.node this) this.1).1).lookup key =
      if key = parent.1 then
        waiting (((tree.childrenOf parent).filter
          (· ∉ tree.root :: (before ++ after))).map tree.hrtAt).reverse
      else if key = this.1 then none
      else state.childNodes.lookup key := by
  obtain ⟨_, hparent, hlt⟩ := parentOf_some tree this parent hp
  obtain ⟨hthis, hconverted⟩ := convert_all this _ state.childNodes
    (h.remains.children this (by simp)) (leaves_children h)
  have hwaiting : (convertNodeToHrt state.childNodes (tree.node this) this.1).2.lookup parent.1 =
      waiting (((tree.childrenOf parent).filter
        (· ∉ tree.root :: (before ++ this :: after))).map tree.hrtAt).reverse := by
    rw [hconverted, if_neg (by omega)]
    exact h.remains.children parent
      ((mem_remaining parent).2 (.inr (leaves_parent_remains h parent hp)))
  rw [hthis, ← hparent, pushChild_waiting _ _ _ _ hwaiting, hconverted,
    leaves_siblings h parent hp, List.map_cons]

theorem leaves_greatest (h : Leaves tree before after this state) (gone other : NodeRef tree)
    (hgone : gone ∉ tree.root :: (before ++ after)) (hother : other ∈ before ++ after) :
    (tree.node other).parent < (tree.node gone).parent ∨
      (tree.node other).parent = (tree.node gone).parent ∧ other < gone := by
  by_cases he : gone = this
  · subst he
    rcases List.mem_append.1 hother with hin | hin
    · have hsorted := (List.pairwise_append.1 (List.pairwise_cons.1 h.remains.sorted).2).2.2
      have hlt := hsorted other hin gone List.mem_cons_self
      rcases (h.notLower other hin).lt_or_eq with hle | hsame
      · exact .inl hle
      · exact .inr ⟨hsame, hlt⟩
    · exact .inl (h.greater other hin)
  · apply h.remains.greatest gone
    · rw [mem_remaining]
      exact fun hin => hin.elim he hgone
    · rcases List.mem_append.1 hother with hin | hin
      · exact List.mem_append_left _ hin
      · exact List.mem_append_right _ (List.mem_cons_of_mem _ hin)

theorem remains_step (h : Leaves tree before after this state) :
    ∃ rest, (state.takeOut (before.length + 1) : Outcome ε _) = .ok rest ∧
      Remains tree (before ++ after) rest := by
  obtain ⟨parent, hp⟩ := leaves_parent h
  have hparents := leaves_parent_remains h parent hp
  have hout := leaves_nodup h
  have hsub : ∀ x ∈ tree.root :: (before ++ after), x ∈ tree.root :: (before ++ this :: after) :=
    fun x hin => (mem_remaining x).2 (.inr hin)
  refine ⟨_, takeOut_ok h, ?_⟩
  constructor
  · exact h.remains.sorted.sublist (by simp)
  · rfl
  · rfl
  · intro gone hgone other hother
    exact leaves_greatest h gone other hgone hother
  · intro other hother
    rw [childNodes_left h parent hp]
    by_cases he : other = parent
    · rw [if_pos (congrArg Fin.val he), he]
    · have hne : other ≠ this := fun hthis => hout (hthis ▸ hother)
      rw [if_neg (Fin.val_ne_of_ne he), if_neg (Fin.val_ne_of_ne hne),
        leaves_apart other parent hp he]
      exact h.remains.children other (hsub other hother)
  · intro key hkey
    rw [childNodes_left h parent hp, if_neg (hkey parent hparents).symm]
    split_ifs with he
    · rfl
    · apply h.remains.converted key
      intro x hin
      rcases (mem_remaining x).1 hin with rfl | hin
      · exact fun hthis => he hthis.symm
      · exact hkey x hin

/-! ## The whole loop -/

theorem run_none (self : Unfolding T) (h : self.next = none) :
    (self.run : Outcome ε _) = .ok self := by
  rw [Unfolding.run, h]
  rfl

theorem run_some (self rest : Unfolding T) (index : ℕ) (h : self.next = some index)
    (htake : (self.takeOut index : Outcome ε _) = .ok rest) :
    (self.run : Outcome ε _) = rest.run := by
  rw [Unfolding.run, h]
  simp only
  split
  · next rest' htake' =>
    rw [htake] at htake'
    rw [Except.ok.inj htake']
  · next fault hfault =>
    rw [htake] at hfault
    cases hfault

/-- Each round takes one node out, until only the root remains. -/
theorem run_remains (n : ℕ) (others : List (NodeRef tree)) (state : Unfolding T)
    (hn : others.length = n) (h : Remains tree others state) :
    ∃ last, (state.run : Outcome ε _) = .ok last ∧ Remains tree [] last := by
  induction n generalizing others state with
  | zero =>
    obtain rfl := List.eq_nil_of_length_eq_zero hn
    cases hnext : state.next with
    | none => exact ⟨state, run_none state hnext, h⟩
    | some index =>
      obtain ⟨before, this, after, hsplit, _⟩ := next_some h index hnext
      simp at hsplit
  | succ n ih =>
    cases hnext : state.next with
    | none =>
      rw [next_none h hnext] at hn
      cases hn
    | some index =>
      obtain ⟨before, this, after, rfl, rfl, hbefore, hafter⟩ := next_some h index hnext
      obtain ⟨rest, htake, hrest⟩ := remains_step (ε := ε) ⟨h, hbefore, hafter⟩
      rw [run_some state rest _ hnext htake]
      apply ih (before ++ after) rest _ hrest
      simp only [List.length_append, List.length_cons] at hn ⊢
      omega

theorem childNodes_empty (childNodes : ChildNodes T) (h : ∀ key, childNodes.lookup key = none) :
    childNodes.entries = [] := by
  have hkeys : childNodes.keys = [] := by
    apply List.eq_nil_iff_forall_not_mem.2
    intro key hin
    exact AList.lookup_eq_none.1 (h key) (AList.mem_keys.2 hin)
  exact List.map_eq_nil_iff.1 hkeys

/-- Once only the root remains all of its children wait, and no others. -/
theorem remains_root (h : Remains tree [] state) :
    (convertNodeToHrt state.childNodes (tree.node tree.root) rootIndex).1 =
        tree.hrtAt tree.root ∧
      (convertNodeToHrt state.childNodes (tree.node tree.root) rootIndex).2.entries = [] := by
  have hgone : ∀ child ∈ tree.childrenOf tree.root, child ∉ [tree.root] := by
    intro child hchild hin
    obtain ⟨hne, _⟩ := parentOf_some tree child _ ((mem_childrenOf _ _ _).1 hchild)
    exact hne (congrArg Fin.val (List.mem_singleton.1 hin))
  obtain ⟨hroot, hconverted⟩ := convert_all tree.root _ state.childNodes
    (h.children tree.root List.mem_cons_self) hgone
  refine ⟨hroot, childNodes_empty _ ?_⟩
  intro key
  rw [show rootIndex = tree.root.1 from rfl, hconverted]
  split_ifs with he
  · rfl
  · apply h.converted key
    intro this hin
    rw [List.mem_singleton.1 hin]
    exact Ne.symm he

theorem fromTree_ok (tree : Tree T) :
    (HumanReadableTree.fromTree tree : Outcome ε _) = .ok ⟨tree.hrtAt tree.root⟩ := by
  obtain ⟨others, hstart⟩ := remains_start tree
  obtain ⟨last, hrun, hlast⟩ := run_remains (ε := ε) _ others _ rfl hstart
  obtain ⟨hroot, hempty⟩ := remains_root hlast
  have hremoved : (removeAt last.nodes rootIndex : Outcome ε _) =
      .ok (tree.node tree.root, []) := by
    rw [hlast.nodes]
    rfl
  simp only [HumanReadableTree.fromTree, bind_ok, ensure_ok, pure_ok, hrun, Except.ok.injEq,
    exists_eq_left', hremoved, hempty, hlast.mapping]
  refine ⟨(), rfl, (), rfl, ?_⟩
  rw [hroot]

end Nolus.Trees
