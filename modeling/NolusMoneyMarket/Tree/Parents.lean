import Mathlib.Logic.Relation
import NolusMoneyMarket.Base.Ends
import NolusMoneyMarket.Tree.Routes

/-! # The ancestors of a node from both ends

The iterator over the ancestors of a node goes up from parent to parent, until it
is asked for the last of them. Then it walks up to the root once, and keeps the
ancestors in between. In both forms it stands for the ancestors not given yet. -/

set_option autoImplicit false

namespace Nolus.Trees
open Nolus.Ends

variable {T : Type} {tree : Tree T}

inductive ParentsIter (tree : Tree T)
  | unresolved (node : NodeRef tree)
  | resolved (nodes : List (NodeRef tree))

def Tree.climb (self : Tree T) (node : NodeRef self) (nodes : List (NodeRef self)) :
    NodeRef self × List (NodeRef self) :=
  match _h : self.parentOf node with
  | none => (node, nodes)
  | some parent => self.climb parent (nodes ++ [node])
termination_by node.1
decreasing_by exact (parentOf_some self node parent _h).2.2

def ParentsIter.next : ParentsIter tree → Option (NodeRef tree) × ParentsIter tree
  | .unresolved node =>
    match tree.parentOf node with
    | none => (none, .unresolved node)
    | some parent => (some parent, .unresolved parent)
  | .resolved nodes => (nodes.head?, .resolved nodes.tail)

def ParentsIter.nextBack : ParentsIter tree → Option (NodeRef tree) × ParentsIter tree
  | .unresolved node =>
    match tree.parentOf node with
    | none => (none, .resolved [])
    | some parent =>
      let (last, nodes) := tree.climb parent []
      (some last, .resolved nodes)
  | .resolved nodes => (nodes.getLast?, .resolved nodes.dropLast)

def parentsEnds (tree : Tree T) : DoubleEnded (ParentsIter tree) (NodeRef tree) where
  next := ParentsIter.next
  nextBack := ParentsIter.nextBack

/-- The ancestors that are not given yet, from the lowest one up. -/
def ParentsIter.remaining : ParentsIter tree → List (NodeRef tree)
  | .unresolved node => tree.parentsIter node
  | .resolved nodes => nodes

def ParentOf (child parent : NodeRef tree) : Prop := tree.parentOf child = some parent

def ProperAncestor (this node : NodeRef tree) : Prop := Relation.TransGen ParentOf this node

/-- The proper ancestors of a node, each once, from its parent up to the root. -/
structure AncestorsUp (this : NodeRef tree) (nodes : List (NodeRef tree)) : Prop where
  complete : ∀ node, node ∈ nodes ↔ ProperAncestor this node
  distinct : nodes.Nodup
  upwards : (this :: nodes).IsChain ParentOf
  to_root : (this :: nodes).getLast? = some tree.root

/-! ## The ancestors of a node -/

theorem parentOf_none (this : NodeRef tree) (h : tree.parentOf this = none) : this = tree.root := by
  by_contra hne
  have hindex : this.1 ≠ rootIndex := fun h0 => hne (Fin.ext h0)
  rw [Tree.parentOf, dif_neg hindex] at h
  cases h

theorem parentsIter_nil (this : NodeRef tree) (h : tree.parentOf this = none) :
    tree.parentsIter this = [] := by
  rw [parentOf_none this h]
  rfl

theorem lineage_last (this : NodeRef tree) :
    (tree.lineage this).getLast? = some tree.root := by
  induction this using node_induction with
  | h0 => rfl
  | hstep this parent hp ih =>
    rw [lineage_step this parent hp, Tree.lineage, List.getLast?_cons_cons]
    exact ih

theorem lineage_chain (this : NodeRef tree) : (tree.lineage this).IsChain ParentOf := by
  induction this using node_induction with
  | h0 => exact List.isChain_singleton _
  | hstep this parent hp ih =>
    rw [lineage_step this parent hp, Tree.lineage, List.isChain_cons_cons]
    exact ⟨hp, ih⟩

theorem mem_parentsIter (this node : NodeRef tree) :
    node ∈ tree.parentsIter this ↔ ProperAncestor this node := by
  induction this using node_induction with
  | h0 =>
    constructor
    · intro h
      cases h
    · intro h
      obtain ⟨parent, hp, _⟩ := Relation.TransGen.head'_iff.1 h
      rw [ParentOf, parentOf_root] at hp
      cases hp
  | hstep this parent hp ih =>
    rw [parentsIter_cons tree this parent hp, List.mem_cons, ih]
    constructor
    · rintro (rfl | h)
      · exact .single hp
      · exact .head hp h
    · intro h
      obtain ⟨other, hother, hup⟩ := Relation.TransGen.head'_iff.1 h
      obtain rfl : parent = other := Option.some.inj (hp.symm.trans hother)
      rcases Relation.reflTransGen_iff_eq_or_transGen.1 hup with heq | hup
      · exact .inl heq
      · exact .inr hup

theorem parentsIter_up (this : NodeRef tree) : AncestorsUp this (tree.parentsIter this) where
  complete := mem_parentsIter this
  distinct := (List.nodup_cons.1 (lineage_nodup this)).2
  upwards := lineage_chain this
  to_root := lineage_last this

/-! ## The iterator -/

theorem climb_none (node : NodeRef tree) (nodes : List (NodeRef tree))
    (h : tree.parentOf node = none) : tree.climb node nodes = (node, nodes) := by
  rw [Tree.climb]
  split
  · rfl
  · next parent hp =>
    rw [h] at hp
    cases hp

theorem climb_some (node parent : NodeRef tree) (nodes : List (NodeRef tree))
    (h : tree.parentOf node = some parent) :
    tree.climb node nodes = tree.climb parent (nodes ++ [node]) := by
  rw [Tree.climb]
  split
  · next hp =>
    rw [h] at hp
    cases hp
  · next other hp => rw [Option.some.inj (h.symm.trans hp)]

theorem climb_eq (node : NodeRef tree) (nodes : List (NodeRef tree)) :
    tree.climb node nodes = (tree.root, nodes ++ (tree.lineage node).dropLast) := by
  induction node using node_induction generalizing nodes with
  | h0 =>
    rw [climb_none tree.root nodes (parentOf_root tree), lineage_root, List.dropLast_singleton,
      List.append_nil]
  | hstep this parent hp ih =>
    rw [climb_some this parent nodes hp, ih, lineage_step this parent hp, Tree.lineage,
      List.dropLast_cons_cons, List.append_assoc]
    rfl

theorem parents_hold (tree : Tree T) : Holds (parentsEnds tree) ParentsIter.remaining where
  next := by
    intro s
    cases s with
    | resolved nodes => exact ⟨rfl, rfl⟩
    | unresolved node =>
      simp only [parentsEnds, ParentsIter.next]
      split
      · next h => simp [ParentsIter.remaining, parentsIter_nil node h]
      · next parent h => simp [ParentsIter.remaining, parentsIter_cons tree node parent h]
  nextBack := by
    intro s
    cases s with
    | resolved nodes => exact ⟨rfl, rfl⟩
    | unresolved node =>
      simp only [parentsEnds, ParentsIter.nextBack]
      split
      · next h => simp [ParentsIter.remaining, parentsIter_nil node h]
      · next parent h =>
        have hall : tree.parentsIter node = tree.lineage parent :=
          parentsIter_cons tree node parent h
        simp only [ParentsIter.remaining, climb_eq, hall, lineage_last, List.nil_append]
        exact ⟨trivial, trivial⟩

/-- Whatever the calls, the iterator gives the proper ancestors of its node. -/
theorem parentsIter_exact (tree : Tree T) (this : NodeRef tree) (calls : List End) :
    ∃ nodes, AncestorsUp this nodes ∧
      Gives (parentsEnds tree) (.unresolved this) nodes calls :=
  ⟨_, parentsIter_up this, holds_gives _ _ (parents_hold tree) (.unresolved this) calls⟩

theorem parentsIter_one_way (tree : Tree T) (this : NodeRef tree) (n : ℕ)
    (hn : (tree.parentsIter this).length ≤ n) :
    yielded .front ((parentsEnds tree).run (List.replicate n .front) (.unresolved this)).1 =
        tree.parentsIter this ∧
      yielded .back ((parentsEnds tree).run (List.replicate n .back) (.unresolved this)).1 =
        (tree.parentsIter this).reverse :=
  ⟨gives_front _ _ _ n hn (holds_gives _ _ (parents_hold tree) _ _),
    gives_back _ _ _ n hn (holds_gives _ _ (parents_hold tree) _ _)⟩

end Nolus.Trees
