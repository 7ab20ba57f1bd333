import Mathlib.Data.List.FinRange
import NolusMoneyMarket.Base.Fallible
import NolusMoneyMarket.Base.Preorder

/-! # Trees

A tree is a vector of nodes, each with the index of its parent. The root is
the first node and its own parent; any other parent comes before its children.
The nodes of a tree made from its human readable form are in preorder. -/

set_option autoImplicit false

namespace Nolus.Trees
open Nolus.Fallible Nolus.Preorders

variable {T ε : Type}

structure Node (T : Type) where
  parent : ℕ
  value : T
deriving DecidableEq, Repr

def indexBits : ℕ := 16

def rootParent : ℕ := 0
def rootIndex : ℕ := 0

structure Tree (T : Type) where
  nodes : List (Node T)
  nonempty : 0 < nodes.length
  rooted : ∀ node, nodes[rootIndex]? = some node → node.parent = rootParent
  parents_before : ∀ i node, i ≠ rootIndex → nodes[i]? = some node → node.parent < i

def parentsOf (nodes : List (Node T)) : List ℕ := nodes.map Node.parent

def Tree.InPreorder (self : Tree T) : Prop := ∃ spine, Preorder (parentsOf self.nodes) spine

/-! ## Nodes -/

abbrev NodeRef (tree : Tree T) : Type := Fin tree.nodes.length

def Tree.root (self : Tree T) : NodeRef self := ⟨rootIndex, self.nonempty⟩

def Tree.node (self : Tree T) (this : NodeRef self) : Node T := self.nodes.get this

def Tree.valueOf (self : Tree T) (this : NodeRef self) : T := (self.node this).value

theorem node_at (tree : Tree T) (this : NodeRef tree) :
    tree.nodes[this.1]? = some (tree.node this) := List.getElem?_eq_getElem this.2

theorem parent_before (tree : Tree T) (this : NodeRef tree) (h : this.1 ≠ rootIndex) :
    (tree.node this).parent < this.1 :=
  tree.parents_before this.1 _ h (node_at tree this)

def Tree.parentOf (self : Tree T) (this : NodeRef self) : Option (NodeRef self) :=
  if h : this.1 = rootIndex then none
  else some ⟨(self.node this).parent, (parent_before self this h).trans this.2⟩

/-- The ancestors of a node in the order from its parent, as many as there is fuel for. -/
def Tree.parentsWithin (self : Tree T) : ℕ → NodeRef self → List (NodeRef self)
  | 0, _ => []
  | fuel + 1, this =>
    match self.parentOf this with
    | none => []
    | some parent => parent :: self.parentsWithin fuel parent

/-- The ancestors of a node. There are no more of them than nodes before it. -/
def Tree.parentsIter (self : Tree T) (this : NodeRef self) : List (NodeRef self) :=
  self.parentsWithin this.1 this

/-! ## Iteration -/

def Tree.nodeIndexLen (self : Tree T) : Outcome ε ℕ :=
  if self.nodes.length < 2 ^ indexBits then pure self.nodes.length
  else panicking (.assertion "Tree has more elements than allowed!")

def Tree.iter (self : Tree T) : Outcome ε (List (NodeRef self)) := do
  let _ ← self.nodeIndexLen
  pure (List.finRange self.nodes.length)

/-- The nodes from a start on, as many as the end of the range tells. -/
def Tree.findByWithin (self : Tree T) (start stop : ℕ) (f : T → Bool) :
    Outcome ε (Option (NodeRef self)) := do
  ensure (start ≤ self.nodes.length)
    (.panic (.assertion "range start index out of range for slice"))
  let tail := (List.finRange self.nodes.length).drop start
  ensure (stop ≤ tail.length) (.panic (.assertion "range end index out of range for slice"))
  pure ((tail.take stop).find? fun this => f (self.valueOf this))

def Tree.findBy (self : Tree T) (f : T → Bool) : Outcome ε (Option (NodeRef self)) := do
  let stop ← self.nodeIndexLen
  self.findByWithin 0 stop f

theorem iter_ok (tree : Tree T) (nodes : List (NodeRef tree))
    (h : (tree.iter : Outcome ε _) = .ok nodes) :
    tree.nodes.length < 2 ^ indexBits ∧ nodes = List.finRange tree.nodes.length := by
  obtain ⟨len, hlen, hnodes⟩ := (bind_ok _ _ _).1 h
  unfold Tree.nodeIndexLen at hlen
  split_ifs at hlen with hfits
  · exact ⟨hfits, ((pure_ok _ _).1 hnodes).symm⟩
  · exact absurd hlen (panicking_ok _ _)

theorem nodeIndexLen_fits (tree : Tree T) (h : tree.nodes.length < 2 ^ indexBits) :
    (tree.nodeIndexLen : Outcome ε ℕ) = .ok tree.nodes.length := by
  rw [Tree.nodeIndexLen, if_pos h]
  rfl

theorem iter_fits (tree : Tree T) (h : tree.nodes.length < 2 ^ indexBits) :
    (tree.iter : Outcome ε _) = .ok (List.finRange tree.nodes.length) :=
  (bind_ok _ _ _).2 ⟨_, nodeIndexLen_fits tree h, rfl⟩

theorem findBy_fits (tree : Tree T) (h : tree.nodes.length < 2 ^ indexBits) (f : T → Bool) :
    (tree.findBy f : Outcome ε _) =
      .ok ((List.finRange tree.nodes.length).find? fun node => f (tree.valueOf node)) := by
  apply (bind_ok _ _ _).2
  refine ⟨_, nodeIndexLen_fits tree h, ?_⟩
  have hall : (List.finRange tree.nodes.length).take tree.nodes.length =
      List.finRange tree.nodes.length := List.take_of_length_le (by simp)
  simp [Tree.findByWithin, ensure, bind, Except.bind, pure, Except.pure, hall]

/-! ## Ancestors -/

theorem parentOf_root (tree : Tree T) : tree.parentOf tree.root = none := rfl

theorem parentOf_some (tree : Tree T) (this parent : NodeRef tree)
    (h : tree.parentOf this = some parent) :
    this.1 ≠ rootIndex ∧ parent.1 = (tree.node this).parent ∧ parent.1 < this.1 := by
  unfold Tree.parentOf at h
  split_ifs at h with h0
  obtain rfl := Option.some.inj h
  exact ⟨h0, rfl, parent_before tree this h0⟩

theorem parentsWithin_enough (tree : Tree T) (fuel : ℕ) (this : NodeRef tree)
    (h : this.1 ≤ fuel) : tree.parentsWithin fuel this = tree.parentsIter this := by
  induction fuel using Nat.strong_induction_on generalizing this with
  | _ fuel ih =>
    unfold Tree.parentsIter
    cases fuel with
    | zero => rw [Nat.le_zero.1 h]
    | succ fuel =>
      cases hp : tree.parentOf this with
      | none =>
        have h0 : this.1 = rootIndex := by
          by_contra hne
          rw [Tree.parentOf, dif_neg hne] at hp
          cases hp
        rw [h0, Tree.parentsWithin, hp]
        rfl
      | some parent =>
        obtain ⟨hne, _, hlt⟩ := parentOf_some tree this parent hp
        obtain ⟨k, hk⟩ : ∃ k, this.1 = k + 1 := Nat.exists_eq_succ_of_ne_zero hne
        rw [hk, Tree.parentsWithin, Tree.parentsWithin, hp]
        have h1 := ih fuel (by omega) parent (by omega)
        have h2 := ih k (by omega) parent (by omega)
        exact congrArg _ (h1.trans h2.symm)

theorem parentsIter_cons (tree : Tree T) (this parent : NodeRef tree)
    (h : tree.parentOf this = some parent) :
    tree.parentsIter this = parent :: tree.parentsIter parent := by
  obtain ⟨hne, _, hlt⟩ := parentOf_some tree this parent h
  obtain ⟨k, hk⟩ : ∃ k, this.1 = k + 1 := Nat.exists_eq_succ_of_ne_zero hne
  rw [Tree.parentsIter, hk, Tree.parentsWithin, h]
  exact congrArg _ (parentsWithin_enough tree k parent (by omega))

theorem node_induction (tree : Tree T) (P : NodeRef tree → Prop) (h0 : P tree.root)
    (hstep : ∀ this parent, tree.parentOf this = some parent → P parent → P this)
    (this : NodeRef tree) : P this := by
  obtain ⟨i, hi⟩ := this
  induction i using Nat.strong_induction_on with
  | _ i ih =>
    by_cases hz : i = rootIndex
    · subst hz
      exact h0
    · have hp : tree.parentOf ⟨i, hi⟩ =
          some ⟨(tree.node ⟨i, hi⟩).parent, (parent_before tree ⟨i, hi⟩ hz).trans hi⟩ :=
        dif_neg hz
      exact hstep _ _ hp (ih _ (parent_before tree ⟨i, hi⟩ hz) _)

/-! ## The human readable form -/

inductive HrtNode (T : Type)
  | leaf (value : T)
  | branch (value : T) (children : List (HrtNode T))

def indexOf (len : ℕ) : Outcome ε ℕ :=
  if len < 2 ^ indexBits then pure len
  else panicking (.assertion "Tree contains too many elements!")

mutual

def HrtNode.flatten : HrtNode T → ℕ → ℕ → Outcome ε (List (Node T))
  | .leaf value, parent, _ => pure [⟨parent, value⟩]
  | .branch value children, parent, this => flattenChildren children this [⟨parent, value⟩]

def flattenChildren : List (HrtNode T) → ℕ → List (Node T) → Outcome ε (List (Node T))
  | [], _, nodes => pure nodes
  | .leaf value :: rest, this, nodes => flattenChildren rest this (nodes ++ [⟨this, value⟩])
  | .branch value children :: rest, this, nodes => do
    let len ← indexOf nodes.length
    let index ← nativeAdd indexBits this len
    let descendants ← HrtNode.flatten (.branch value children) this index
    flattenChildren rest this (nodes ++ descendants)

end

theorem parentsOf_append (nodes rest : List (Node T)) :
    parentsOf (nodes ++ rest) = parentsOf nodes ++ parentsOf rest := List.map_append

/-- The nodes extend a preorder, and leave the spine up from a node of it as it is. -/
def Extends (before spine : List ℕ) (p : ℕ) (nodes : List (Node T)) : Prop :=
  ∃ spine', Preorder (before ++ parentsOf nodes) spine' ∧ upFrom p spine' = upFrom p spine

theorem extends_leaf (before spine : List ℕ) (p : ℕ) (value : T) (h : Preorder before spine)
    (hp : p ∈ spine) : Extends before spine p [⟨p, value⟩] := by
  have hlt := spine_lt h p hp
  use before.length :: upFrom p spine
  constructor
  · exact .grow before spine p h hp
  · rw [upFrom_cons_ne _ _ _ (by omega)]
    exact upFrom_upFrom p p spine (spine_decreasing h) hp hp (le_refl _)

/-- The descendants of a node extend what the node itself extends. -/
theorem extends_branch (before spine : List ℕ) (p : ℕ) (value : T) (rest : List (Node T))
    (h : Preorder before spine) (hp : p ∈ spine)
    (hrest : Extends (before ++ [p]) (before.length :: upFrom p spine) before.length rest) :
    Extends before spine p (⟨p, value⟩ :: rest) := by
  obtain ⟨last, hlast, hup⟩ := hrest
  have hlt := spine_lt h p hp
  have hdec := spine_decreasing hlast
  have hup' : upFrom before.length last = before.length :: upFrom p spine := by
    rw [hup, upFrom_cons_self]
  have hk : before.length ∈ last := mem_of_upFrom _ _ _ List.mem_cons_self hup
  have hpin : p ∈ upFrom before.length last := by
    rw [hup']
    exact List.mem_cons_of_mem _ (mem_upFrom_self p spine hp)
  use last
  constructor
  · have he : before ++ parentsOf (⟨p, value⟩ :: rest) = before ++ [p] ++ parentsOf rest := by
      simp [parentsOf]
    rw [he]
    exact hlast
  · have hq := (upFrom_sublist _ _).subset hpin
    rw [← upFrom_upFrom before.length p last hdec hk hq hlt.le, hup',
      upFrom_cons_ne _ _ _ (by omega)]
    exact upFrom_upFrom p p spine (spine_decreasing h) hp hp (le_refl _)

theorem indexOf_ok (len i : ℕ) (h : (indexOf len : Outcome ε ℕ) = .ok i) : i = len := by
  unfold indexOf at h
  split_ifs at h
  · exact ((pure_ok _ _).1 h).symm
  · exact absurd h (panicking_ok _ _)

mutual

theorem flatten_extends (node : HrtNode T) (before spine : List ℕ) (p : ℕ)
    (nodes : List (Node T)) (h : Preorder before spine) (hp : p ∈ spine)
    (hf : (node.flatten p before.length : Outcome ε _) = .ok nodes) :
    Extends before spine p nodes := by
  cases node with
  | leaf value =>
    rw [HrtNode.flatten, pure_ok] at hf
    subst hf
    exact extends_leaf before spine p value h hp
  | branch value children =>
    rw [HrtNode.flatten] at hf
    obtain ⟨rest, rfl, hrest⟩ := flattenChildren_extends children before [⟨p, value⟩] nodes
      (before.length :: upFrom p spine) (.grow before spine p h hp) List.mem_cons_self hf
    exact extends_branch before spine p value rest h hp hrest

theorem flattenChildren_extends (children : List (HrtNode T)) (before : List ℕ)
    (nodes result : List (Node T)) (spine : List ℕ)
    (h : Preorder (before ++ parentsOf nodes) spine) (hp : before.length ∈ spine)
    (hf : (flattenChildren children before.length nodes : Outcome ε _) = .ok result) :
    ∃ rest, result = nodes ++ rest ∧
      Extends (before ++ parentsOf nodes) spine before.length rest := by
  cases children with
  | nil =>
    rw [flattenChildren, pure_ok] at hf
    subst hf
    refine ⟨[], by simp, spine, ?_, rfl⟩
    simpa [parentsOf] using h
  | cons child children =>
    have hchild : ∃ descendants,
        Extends (before ++ parentsOf nodes) spine before.length descendants ∧
        (flattenChildren children before.length (nodes ++ descendants) : Outcome ε _) =
          .ok result := by
      cases child with
      | leaf value =>
        rw [flattenChildren] at hf
        exact ⟨_, extends_leaf _ _ _ value h hp, hf⟩
      | branch value grandchildren =>
        simp only [flattenChildren, bind_ok] at hf
        obtain ⟨len, hlen, index, hindex, descendants, hdesc, hrun⟩ := hf
        obtain rfl := indexOf_ok _ _ hlen
        obtain ⟨_, rfl⟩ := (nativeAdd_ok _ _ _ _).1 hindex
        refine ⟨descendants, ?_, hrun⟩
        apply flatten_extends (.branch value grandchildren) _ spine _ descendants h hp
        simpa [parentsOf] using hdesc
    obtain ⟨descendants, hext, hrun⟩ := hchild
    obtain ⟨spine', hpre, hup⟩ := hext
    have hpre' : Preorder (before ++ parentsOf (nodes ++ descendants)) spine' := by
      rwa [parentsOf_append, ← List.append_assoc]
    obtain ⟨rest, rfl, hrest⟩ := flattenChildren_extends children before (nodes ++ descendants)
      result spine' hpre' (mem_of_upFrom _ _ _ hp hup) hrun
    refine ⟨descendants ++ rest, List.append_assoc _ _ _, ?_⟩
    rw [parentsOf_append, ← List.append_assoc] at hrest
    obtain ⟨last, hlast, hup'⟩ := hrest
    refine ⟨last, ?_, by rw [hup', hup]⟩
    rwa [parentsOf_append, ← List.append_assoc]

end

/-! ## Trees from their human readable form -/

structure HumanReadableTree (T : Type) where
  root : HrtNode T

theorem flatten_preorder (root : HrtNode T) (nodes : List (Node T))
    (hf : (root.flatten rootParent rootIndex : Outcome ε _) = .ok nodes) :
    ∃ spine, Preorder (parentsOf nodes) spine := by
  cases root with
  | leaf value =>
    rw [HrtNode.flatten, pure_ok] at hf
    subst hf
    exact ⟨[0], .root⟩
  | branch value children =>
    rw [HrtNode.flatten] at hf
    obtain ⟨rest, rfl, spine, hpre, _⟩ := flattenChildren_extends children [] [⟨rootParent, value⟩]
      nodes [0] .root List.mem_cons_self hf
    use spine
    rw [parentsOf_append]
    exact hpre

theorem preorder_nonempty (nodes : List (Node T)) (spine : List ℕ)
    (h : Preorder (parentsOf nodes) spine) : 0 < nodes.length := by
  have hpos := parents_pos h
  rwa [parentsOf, List.length_map] at hpos

theorem parentsOf_at (nodes : List (Node T)) (i : ℕ) (node : Node T) (h : nodes[i]? = some node) :
    (parentsOf nodes)[i]? = some node.parent := by
  rw [parentsOf, List.getElem?_map, h]
  rfl

/-- A vector of nodes in preorder is a tree. -/
def Tree.ofPreorder (nodes : List (Node T)) (h : ∃ spine, Preorder (parentsOf nodes) spine) :
    Tree T where
  nodes := nodes
  nonempty := by
    obtain ⟨spine, hpre⟩ := h
    exact preorder_nonempty nodes spine hpre
  rooted := by
    obtain ⟨spine, hpre⟩ := h
    intro node hn
    exact root_parent hpre _ (parentsOf_at nodes _ node hn)
  parents_before := by
    obtain ⟨spine, hpre⟩ := h
    intro i node hi hn
    exact parent_lt hpre i _ (Nat.pos_of_ne_zero hi) (parentsOf_at nodes i node hn)

def HumanReadableTree.intoTree (self : HumanReadableTree T) : Outcome ε (Tree T) :=
  match h : (self.root.flatten rootParent rootIndex : Outcome ε _) with
  | .ok nodes => .ok (.ofPreorder nodes (flatten_preorder self.root nodes h))
  | .error fault => .error fault

theorem intoTree_inPreorder (hrt : HumanReadableTree T) (tree : Tree T)
    (h : (hrt.intoTree : Outcome ε _) = .ok tree) : tree.InPreorder := by
  unfold HumanReadableTree.intoTree at h
  split at h
  · next nodes hf =>
    obtain rfl := Except.ok.inj h
    exact flatten_preorder hrt.root nodes hf
  · cases h

end Nolus.Trees
