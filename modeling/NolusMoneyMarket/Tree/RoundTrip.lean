import NolusMoneyMarket.Tree.FromTree
import NolusMoneyMarket.Tree.Subtree

/-! # The round trip between the two forms of a tree

The vector of a tree and its human readable form determine each other. A form
without empty branches is flattened to a vector in preorder and is made of it
again. Any vector in preorder comes from such a form, which is built along the
spine as the vector grows. -/

set_option autoImplicit false

namespace Nolus.Trees
open Nolus.Fallible Nolus.Preorders

variable {T ε : Type}

/-! ## Flattening without a limit on the indexes -/

mutual

def HrtNode.size : HrtNode T → ℕ
  | .leaf _ => 1
  | .branch _ children => 1 + sizeAll children

def sizeAll : List (HrtNode T) → ℕ
  | [] => 0
  | child :: rest => child.size + sizeAll rest

end

mutual

def HrtNode.Proper : HrtNode T → Prop
  | .leaf _ => True
  | .branch _ children => children ≠ [] ∧ AllProper children

def AllProper : List (HrtNode T) → Prop
  | [] => True
  | child :: rest => child.Proper ∧ AllProper rest

end

mutual

def HrtNode.flattenAt : HrtNode T → ℕ → ℕ → List (Node T)
  | .leaf value, parent, _ => [⟨parent, value⟩]
  | .branch value children, parent, this =>
    ⟨parent, value⟩ :: flattenAll children this (this + 1)

def flattenAll : List (HrtNode T) → ℕ → ℕ → List (Node T)
  | [], _, _ => []
  | child :: rest, parent, first =>
    child.flattenAt parent first ++ flattenAll rest parent (first + child.size)

end

theorem size_pos (node : HrtNode T) : 0 < node.size := by
  cases node with
  | leaf value => exact Nat.one_pos
  | branch value children =>
    rw [HrtNode.size]
    omega

mutual

theorem flattenAt_length (node : HrtNode T) (parent this : ℕ) :
    (node.flattenAt parent this).length = node.size := by
  cases node with
  | leaf value => rfl
  | branch value children =>
    rw [HrtNode.flattenAt, List.length_cons, flattenAll_length children, HrtNode.size, Nat.add_comm]

theorem flattenAll_length (children : List (HrtNode T)) (parent first : ℕ) :
    (flattenAll children parent first).length = sizeAll children := by
  cases children with
  | nil => rfl
  | cons child rest =>
    rw [flattenAll, List.length_append, flattenAt_length child, flattenAll_length rest, sizeAll]

end

theorem flattenAt_head (node : HrtNode T) (parent this : ℕ) :
    ∃ value children, node.flattenAt parent this =
      ⟨parent, value⟩ :: flattenAll children this (this + 1) := by
  cases node with
  | leaf value => exact ⟨value, [], rfl⟩
  | branch value children => exact ⟨value, children, rfl⟩

theorem flattenAll_append (children rest : List (HrtNode T)) (parent first : ℕ) :
    flattenAll (children ++ rest) parent first =
      flattenAll children parent first ++ flattenAll rest parent (first + sizeAll children) := by
  induction children generalizing first with
  | nil => rfl
  | cons child children ih =>
    rw [List.cons_append, flattenAll, ih, flattenAll, sizeAll, List.append_assoc, Nat.add_assoc]

theorem allProper_append (children rest : List (HrtNode T)) :
    AllProper (children ++ rest) ↔ AllProper children ∧ AllProper rest := by
  induction children with
  | nil => simp [AllProper]
  | cons child children ih => simp [AllProper, ih, and_assoc]

/-! ## Flattening within the width of the indexes -/

theorem indexOf_fits (len : ℕ) (h : len < 2 ^ indexBits) :
    (indexOf len : Outcome ε ℕ) = .ok len := by
  rw [indexOf, if_pos h]
  rfl

theorem proper_child (value : T) (children : List (HrtNode T)) (parent this : ℕ)
    (h : (HrtNode.branch value children).Proper) :
    ∃ node ∈ (HrtNode.branch value children).flattenAt parent this, node.parent = this := by
  obtain ⟨hne, _⟩ := h
  cases children with
  | nil => exact absurd rfl hne
  | cons child rest =>
    obtain ⟨v, _, hhead⟩ := flattenAt_head child this (this + 1)
    refine ⟨⟨this, v⟩, ?_, rfl⟩
    simp [HrtNode.flattenAt, flattenAll, hhead]

mutual

theorem flatten_fits (node : HrtNode T) (parent this : ℕ) (hproper : node.Proper)
    (h : ∀ item ∈ node.flattenAt parent this, item.parent < 2 ^ indexBits) :
    (node.flatten parent this : Outcome ε _) = .ok (node.flattenAt parent this) := by
  cases node with
  | leaf value => rfl
  | branch value children =>
    rw [HrtNode.flatten]
    apply flattenChildren_fits children this [⟨parent, value⟩] hproper.2
    intro item hin
    exact h item (List.mem_cons_of_mem _ hin)

theorem flattenChildren_fits (children : List (HrtNode T)) (this : ℕ) (nodes : List (Node T))
    (hproper : AllProper children)
    (h : ∀ item ∈ flattenAll children this (this + nodes.length),
      item.parent < 2 ^ indexBits) :
    (flattenChildren children this nodes : Outcome ε _) =
      .ok (nodes ++ flattenAll children this (this + nodes.length)) := by
  cases children with
  | nil =>
    rw [flattenChildren, flattenAll, List.append_nil]
    rfl
  | cons child rest =>
    rw [flattenAll] at h
    have hchild : ∀ item ∈ child.flattenAt this (this + nodes.length),
        item.parent < 2 ^ indexBits := fun item hin => h item (List.mem_append_left _ hin)
    have hrun := flattenChildren_fits rest this
      (nodes ++ child.flattenAt this (this + nodes.length)) hproper.2
    rw [List.length_append, flattenAt_length, ← Nat.add_assoc, List.append_assoc] at hrun
    have hrest := hrun fun item hin => h item (List.mem_append_right _ hin)
    cases child with
    | leaf value =>
      rw [flattenChildren]
      exact hrest
    | branch value grandchildren =>
      obtain ⟨item, hin, hitem⟩ := proper_child value grandchildren this _ hproper.1
      have hindex := hchild item hin
      rw [hitem] at hindex
      simp only [flattenChildren, bind_ok]
      refine ⟨nodes.length, indexOf_fits _ (by omega), _, (nativeAdd_ok _ _ _ _).2 ⟨hindex, rfl⟩,
        _, flatten_fits _ _ _ hproper.1 hchild, hrest⟩

end

/-! ## The children in a flattened tree -/

def starts : List (HrtNode T) → ℕ → List ℕ
  | [], _ => []
  | child :: rest, first => first :: starts rest (first + child.size)

theorem starts_within (children : List (HrtNode T)) (first i : ℕ) (h : i ∈ starts children first) :
    first ≤ i ∧ i < first + sizeAll children := by
  induction children generalizing first with
  | nil => cases h
  | cons child rest ih =>
    have hpos := size_pos child
    rw [sizeAll]
    rcases List.mem_cons.1 h with rfl | h
    · omega
    · obtain ⟨hlo, hhi⟩ := ih _ h
      omega

theorem starts_sorted (children : List (HrtNode T)) (first : ℕ) :
    (starts children first).Pairwise (· < ·) := by
  induction children generalizing first with
  | nil => exact .nil
  | cons child rest ih =>
    have hpos := size_pos child
    rw [starts, List.pairwise_cons]
    constructor
    · intro i hi
      have hlo := (starts_within rest _ i hi).1
      omega
    · exact ih _

mutual

theorem flattenAt_below (node : HrtNode T) (parent this : ℕ) :
    ∀ item ∈ (node.flattenAt parent this).tail,
      this ≤ item.parent ∧ item.parent < this + node.size := by
  cases node with
  | leaf value => simp [HrtNode.flattenAt]
  | branch value children =>
    intro item hin
    rw [HrtNode.size]
    rcases flattenAll_parents children this (this + 1) item hin with he | ⟨hlo, hhi⟩
    · omega
    · omega

theorem flattenAll_parents (children : List (HrtNode T)) (parent first : ℕ) :
    ∀ item ∈ flattenAll children parent first, item.parent = parent ∨
      first ≤ item.parent ∧ item.parent < first + sizeAll children := by
  cases children with
  | nil => simp [flattenAll]
  | cons child rest =>
    intro item hin
    rw [sizeAll]
    rcases List.mem_append.1 hin with hin | hin
    · obtain ⟨value, grandchildren, hhead⟩ := flattenAt_head child parent first
      have hbelow := flattenAt_below child parent first
      rw [hhead] at hin hbelow
      rcases List.mem_cons.1 hin with rfl | hin
      · exact .inl rfl
      · obtain ⟨hlo, hhi⟩ := hbelow item hin
        exact .inr ⟨hlo, by omega⟩
    · rcases flattenAll_parents rest parent (first + child.size) item hin with he | ⟨hlo, hhi⟩
      · exact .inl he
      · exact .inr ⟨by omega, by omega⟩

end

theorem flattenAt_parents (node : HrtNode T) (parent this : ℕ) :
    ∀ item ∈ node.flattenAt parent this, item.parent = parent ∨
      this ≤ item.parent ∧ item.parent < this + node.size := by
  have hbelow := flattenAt_below node parent this
  obtain ⟨value, children, hhead⟩ := flattenAt_head node parent this
  rw [hhead] at hbelow ⊢
  intro item hin
  rcases List.mem_cons.1 hin with rfl | hin
  · exact .inl rfl
  · exact .inr (hbelow item hin)

theorem starts_iff (children : List (HrtNode T)) (parent first k : ℕ) (item : Node T)
    (hlt : parent < first) (hat : (flattenAll children parent first)[k]? = some item) :
    first + k ∈ starts children first ↔ item.parent = parent := by
  induction children generalizing first k with
  | nil => cases hat
  | cons child rest ih =>
    have hlen := flattenAt_length child parent first
    have hpos := size_pos child
    rw [flattenAll] at hat
    rw [starts, List.mem_cons]
    rcases Nat.lt_or_ge k child.size with hk | hk
    · rw [List.getElem?_append_left (hlen ▸ hk)] at hat
      have hout : first + k ∉ starts rest (first + child.size) := by
        intro hin
        have hlo := (starts_within rest _ _ hin).1
        omega
      have hbelow := flattenAt_below child parent first
      obtain ⟨value, grandchildren, hhead⟩ := flattenAt_head child parent first
      rw [hhead] at hat hbelow
      cases k with
      | zero =>
        obtain rfl := Option.some.inj hat
        exact iff_of_true (.inl rfl) rfl
      | succ k =>
        have hge := (hbelow item (List.mem_of_getElem? hat)).1
        apply iff_of_false
        · rintro (he | hin)
          · omega
          · exact hout hin
        · omega
    · rw [List.getElem?_append_right (hlen ▸ hk), hlen] at hat
      have hrest := ih (first + child.size) (k - child.size) (by omega) hat
      rw [show first + child.size + (k - child.size) = first + k by omega] at hrest
      rw [← hrest]
      exact or_iff_right (by omega)

/-! ## The tree that is made of a flattened one -/

variable {tree : Tree T}

/-- A part of the vector of a tree to which all the children of its nodes belong. -/
structure Segment (tree : Tree T) (first : ℕ) (nodes : List (Node T)) : Prop where
  held : ∀ k item, nodes[k]? = some item → tree.nodes[first + k]? = some item
  closed : ∀ i item, tree.nodes[i]? = some item → first ≤ item.parent →
    item.parent < first + nodes.length → first ≤ i ∧ i < first + nodes.length

theorem segment_at {first : ℕ} {nodes : List (Node T)} (h : Segment tree first nodes) (i : ℕ)
    (item : Node T) (hi : tree.nodes[i]? = some item) (hlo : first ≤ i)
    (hhi : i < first + nodes.length) : nodes[i - first]? = some item := by
  have hin : i - first < nodes.length := by omega
  have hat := h.held (i - first) _ (List.getElem?_eq_getElem hin)
  rw [Nat.add_sub_cancel' hlo, hi] at hat
  rw [hat]
  exact List.getElem?_eq_getElem hin

theorem segment_left (first : ℕ) (nodes rest : List (Node T))
    (h : Segment tree first (nodes ++ rest))
    (hrest : ∀ item ∈ rest, item.parent < first ∨ first + nodes.length ≤ item.parent) :
    Segment tree first nodes where
  held := by
    intro k item hk
    apply h.held
    rw [List.getElem?_append_left (List.getElem?_eq_some_iff.1 hk).1]
    exact hk
  closed := by
    intro i item hi hlo hhi
    obtain ⟨hfirst, hlast⟩ := h.closed i item hi hlo (by rw [List.length_append]; omega)
    refine ⟨hfirst, ?_⟩
    by_contra hge
    have hat := segment_at h i item hi hfirst hlast
    rw [List.getElem?_append_right (by omega)] at hat
    have hout := hrest item (List.mem_of_getElem? hat)
    omega

theorem segment_right (first : ℕ) (nodes rest : List (Node T))
    (h : Segment tree first (nodes ++ rest))
    (hnodes : ∀ item ∈ nodes, item.parent < first + nodes.length) :
    Segment tree (first + nodes.length) rest where
  held := by
    intro k item hk
    rw [Nat.add_assoc]
    apply h.held
    rw [List.getElem?_append_right (by omega), Nat.add_sub_cancel_left]
    exact hk
  closed := by
    intro i item hi hlo hhi
    obtain ⟨hfirst, hlast⟩ := h.closed i item hi (by omega) (by rw [List.length_append]; omega)
    have hat := segment_at h i item hi hfirst hlast
    rw [List.length_append] at hlast
    refine ⟨?_, by omega⟩
    by_contra hlt
    rw [List.getElem?_append_left (by omega)] at hat
    have hout := hnodes item (List.mem_of_getElem? hat)
    omega

theorem parent_le (this : NodeRef tree) : (tree.node this).parent ≤ this.1 := by
  by_cases h : this.1 = rootIndex
  · have hroot := tree.rooted (tree.node this) (h ▸ node_at tree this)
    rw [hroot]
    exact Nat.zero_le _
  · exact (parent_before tree this h).le

theorem segment_value (this : NodeRef tree) (item : Node T) (rest : List (Node T))
    (h : Segment tree this.1 (item :: rest)) : tree.node this = item := by
  have hat := h.held 0 item rfl
  rw [Nat.add_zero, node_at] at hat
  exact Option.some.inj hat

/-- The children of a node are the starts of its flattened children. -/
theorem segment_children (this : NodeRef tree) (item : Node T) (children : List (HrtNode T))
    (h : Segment tree this.1 (item :: flattenAll children this.1 (this.1 + 1))) :
    (tree.childrenOf this).map Fin.val = starts children (this.1 + 1) := by
  have hlen := flattenAll_length children this.1 (this.1 + 1)
  have hsorted : ((tree.childrenOf this).map Fin.val).Pairwise (· < ·) :=
    List.pairwise_map.2 (childrenOf_sorted tree this)
  have hitem (k : ℕ) (child : NodeRef tree) (hk : k < sizeAll children)
      (hchild : child.1 = this.1 + 1 + k) :
      (flattenAll children this.1 (this.1 + 1))[k]? = some (tree.node child) := by
    have hat := segment_at h child.1 _ (node_at tree child) (by omega)
      (by rw [List.length_cons, hlen]; omega)
    rwa [show child.1 - this.1 = k + 1 by omega, List.getElem?_cons_succ] at hat
  apply hsorted.eq_of_mem_iff (starts_sorted children _)
  intro i
  constructor
  · intro hin
    obtain ⟨child, hchild, rfl⟩ := List.mem_map.1 hin
    obtain ⟨_, hparent, hlt⟩ := parentOf_some tree child this ((mem_childrenOf _ _ _).1 hchild)
    have hclosed := h.closed child.1 _ (node_at tree child) hparent.le (by
      rw [List.length_cons]
      omega)
    rw [List.length_cons, hlen] at hclosed
    have hk : child.1 = this.1 + 1 + (child.1 - (this.1 + 1)) := by omega
    rw [hk]
    exact (starts_iff children this.1 _ _ _ (Nat.lt_succ_self _)
      (hitem _ child (by omega) hk)).2 hparent.symm
  · intro hin
    obtain ⟨hlo, hhi⟩ := starts_within children _ i hin
    have hk : i = this.1 + 1 + (i - (this.1 + 1)) := by omega
    have hheld := h.held (i - this.1) _ (List.getElem?_eq_getElem
      (by rw [List.length_cons, hlen]; omega))
    rw [Nat.add_sub_cancel' (by omega)] at hheld
    let child : NodeRef tree := ⟨i, (List.getElem?_eq_some_iff.1 hheld).1⟩
    rw [hk] at hin
    have hparent := (starts_iff children this.1 _ _ _ (Nat.lt_succ_self _)
      (hitem _ child (by omega) hk)).1 hin
    refine List.mem_map.2 ⟨child, (mem_childrenOf _ _ _).2 ?_, rfl⟩
    have hne : child.1 ≠ rootIndex := (Nat.zero_lt_of_lt hlo).ne'
    rw [Tree.parentOf, dif_neg hne]
    exact congrArg some (Fin.ext hparent)

mutual

/-- The human readable form of a flattened node is that node. -/
theorem hrtAt_segment (node : HrtNode T) (hproper : node.Proper) (parent : ℕ)
    (this : NodeRef tree) (h : Segment tree this.1 (node.flattenAt parent this.1)) :
    tree.hrtAt this = node := by
  cases node with
  | leaf value =>
    have hvalue := segment_value this _ _ h
    have hchildren := segment_children this _ [] h
    rw [hrtAt_eq, List.map_eq_nil_iff.1 hchildren, Tree.valueOf, hvalue]
    rfl
  | branch value children =>
    have hvalue := segment_value this _ _ h
    have hchildren := segment_children this _ children h
    have hall := hrtAt_segments children hproper.2 this.1 (this.1 + 1) (Nat.lt_succ_self _) _
      hchildren (by
        apply segment_right this.1 [⟨parent, value⟩] _ h
        have hle := parent_le this
        rw [hvalue] at hle
        simpa using Nat.lt_succ_of_le hle)
    rw [hrtAt_eq, hall, Tree.valueOf, hvalue, HrtNode.of, if_neg (by simpa using hproper.1)]

theorem hrtAt_segments (children : List (HrtNode T)) (hproper : AllProper children)
    (parent first : ℕ) (hlt : parent < first) (refs : List (NodeRef tree))
    (hrefs : refs.map Fin.val = starts children first)
    (h : Segment tree first (flattenAll children parent first)) :
    refs.map tree.hrtAt = children := by
  cases children with
  | nil =>
    rw [List.map_eq_nil_iff.1 hrefs]
    rfl
  | cons child rest =>
    cases refs with
    | nil => cases hrefs
    | cons this refs =>
      obtain ⟨rfl, hrefs⟩ := List.cons.inj hrefs
      have hlen := flattenAt_length child parent this.1
      have hhead := flattenAt_parents child parent this.1
      have hthis := hrtAt_segment child hproper.1 parent this (segment_left _ _ _ h (by
        intro item hin
        rcases flattenAll_parents rest parent (this.1 + child.size) item hin with he | ⟨hlo, _⟩
        · omega
        · omega))
      have hright := segment_right _ _ _ h (by
        intro item hin
        have hparents := hhead item hin
        omega)
      rw [hlen] at hright
      have hrest := hrtAt_segments rest hproper.2 parent _ (by omega) refs hrefs hright
      rw [List.map_cons, hthis, hrest]

end

/-! ## Trees of vectors in preorder -/

/-- A node of the spine with the children of it that are not on the spine. -/
structure Frame (T : Type) where
  index : ℕ
  parent : ℕ
  value : T
  children : List (HrtNode T)

def Frame.nodes (self : Frame T) : List (Node T) :=
  ⟨self.parent, self.value⟩ :: flattenAll self.children self.index (self.index + 1)

def Frame.close (self : Frame T) : HrtNode T := .of self.value self.children

def Frame.adopt (self : Frame T) (child : Frame T) : Frame T :=
  { self with children := self.children ++ [child.close] }

theorem close_proper (frame : Frame T) (h : AllProper frame.children) : frame.close.Proper := by
  unfold Frame.close HrtNode.of
  split_ifs with hempty
  · trivial
  · exact ⟨by simpa using hempty, h⟩

theorem close_nodes (frame : Frame T) :
    frame.close.flattenAt frame.parent frame.index = frame.nodes := by
  unfold Frame.close HrtNode.of Frame.nodes
  split_ifs with hempty
  · rw [List.isEmpty_iff.1 hempty]
    rfl
  · rfl

theorem adopt_nodes (frame child : Frame T) (hparent : child.parent = frame.index)
    (hindex : child.index = frame.index + frame.nodes.length) :
    (frame.adopt child).nodes = frame.nodes ++ child.nodes := by
  have hat : frame.index + 1 + sizeAll frame.children = child.index := by
    rw [hindex, Frame.nodes, List.length_cons, flattenAll_length]
    omega
  have hclose := close_nodes child
  rw [hparent] at hclose
  rw [Frame.nodes, Frame.adopt, flattenAll_append, hat, flattenAll, flattenAll, List.append_nil,
    hclose]
  rfl

theorem adopt_proper (frame child : Frame T) (h : AllProper frame.children)
    (hchild : AllProper child.children) : AllProper (frame.adopt child).children := by
  rw [Frame.adopt, allProper_append]
  exact ⟨h, close_proper child hchild, trivial⟩

/-- The frames of a spine, from the last node up to the root, with all the nodes in them. -/
inductive Opened : List (Frame T) → List (Node T) → Prop
  | root (frame : Frame T) : frame.index = rootIndex → frame.parent = rootParent →
      AllProper frame.children → Opened [frame] frame.nodes
  | next (frame parent : Frame T) (rest : List (Frame T)) (nodes : List (Node T)) :
      Opened (parent :: rest) nodes → frame.parent = parent.index → frame.index = nodes.length →
      AllProper frame.children → Opened (frame :: parent :: rest) (nodes ++ frame.nodes)

variable {frames : List (Frame T)} {nodes : List (Node T)}

theorem opened_close (frame parent : Frame T) (rest : List (Frame T))
    (h : Opened (frame :: parent :: rest) nodes) : Opened (parent.adopt frame :: rest) nodes := by
  cases h with
  | next _ _ _ nodes hrest hparent hindex hproper =>
    cases hrest with
    | root _ hroot hnone hall =>
      rw [← adopt_nodes parent frame hparent (by rw [hindex, hroot, rootIndex, Nat.zero_add])]
      exact .root _ hroot hnone (adopt_proper parent frame hall hproper)
    | next _ grandparent rest before hbefore hnext hat hall =>
      rw [List.length_append, ← hat] at hindex
      rw [List.append_assoc, ← adopt_nodes parent frame hparent hindex]
      exact .next _ grandparent rest before hbefore hnext hat
        (adopt_proper parent frame hall hproper)

/-- The nodes below one of the spine close. -/
theorem opened_upFrom (n p : ℕ) (frames : List (Frame T)) (hn : frames.length = n)
    (h : Opened frames nodes) (hp : p ∈ frames.map Frame.index) :
    ∃ frame rest, Opened (frame :: rest) nodes ∧ frame.index = p ∧
      (frame :: rest).map Frame.index = upFrom p (frames.map Frame.index) := by
  induction n generalizing frames with
  | zero =>
    rw [List.eq_nil_of_length_eq_zero hn] at hp
    cases hp
  | succ n ih =>
    cases frames with
    | nil => cases hn
    | cons frame rest =>
      by_cases he : frame.index = p
      · refine ⟨frame, rest, h, he, ?_⟩
        rw [List.map_cons, he, upFrom_cons_self]
      · rw [List.map_cons, upFrom_cons_ne _ _ _ he]
        have hin : p ∈ rest.map Frame.index :=
          (List.mem_cons.1 hp).resolve_left fun hpe => he hpe.symm
        cases rest with
        | nil => cases hin
        | cons parent rest =>
          exact ih (parent.adopt frame :: rest) (by simpa using hn)
            (opened_close frame parent rest h) hin

theorem opened_grow (p : ℕ) (value : T) (h : Opened frames nodes)
    (hp : p ∈ frames.map Frame.index) :
    ∃ grown, Opened grown (nodes ++ [⟨p, value⟩]) ∧
      grown.map Frame.index = nodes.length :: upFrom p (frames.map Frame.index) := by
  obtain ⟨parent, rest, hopened, hindex, hmap⟩ := opened_upFrom _ p frames rfl h hp
  refine ⟨⟨nodes.length, p, value, []⟩ :: parent :: rest, ?_, ?_⟩
  · exact .next _ parent rest nodes hopened hindex.symm rfl trivial
  · rw [List.map_cons, hmap]

theorem opened_preorder {parents spine : List ℕ} (h : Preorder parents spine)
    (nodes : List (Node T)) (hnodes : parentsOf nodes = parents) :
    ∃ frames, Opened frames nodes ∧ frames.map Frame.index = spine := by
  induction h generalizing nodes with
  | root =>
    obtain ⟨node, rfl, hnode⟩ := List.map_eq_singleton_iff.1 hnodes
    exact ⟨[⟨0, node.parent, node.value, []⟩], .root _ rfl hnode trivial, rfl⟩
  | grow parents spine p hpre hp ih =>
    obtain ⟨before, last, rfl, hbefore, hlast⟩ := List.map_eq_append_iff.1 hnodes
    obtain ⟨node, rfl, rfl⟩ := List.map_eq_singleton_iff.1 hlast
    obtain ⟨frames, hopened, hmap⟩ := ih before hbefore
    rw [← hmap] at hp ⊢
    rw [← hbefore, List.length_map]
    exact opened_grow node.parent node.value hopened hp

theorem opened_root (n : ℕ) (frames : List (Frame T)) (hn : frames.length = n)
    (h : Opened frames nodes) :
    ∃ root : HrtNode T, root.Proper ∧ root.flattenAt rootParent rootIndex = nodes := by
  induction n generalizing frames with
  | zero =>
    obtain rfl := List.eq_nil_of_length_eq_zero hn
    cases h
  | succ n ih =>
    cases frames with
    | nil => cases hn
    | cons frame rest =>
      cases rest with
      | nil =>
        cases h with
        | root _ hindex hparent hproper =>
          refine ⟨frame.close, close_proper frame hproper, ?_⟩
          rw [← hindex, ← hparent, close_nodes]
      | cons parent rest =>
        exact ih (parent.adopt frame :: rest) (by simpa using hn)
          (opened_close frame parent rest h)

/-- Any vector in preorder is a flattened tree. -/
theorem preorder_flattened (nodes : List (Node T))
    (h : ∃ spine, Preorder (parentsOf nodes) spine) :
    ∃ root : HrtNode T, root.Proper ∧ root.flattenAt rootParent rootIndex = nodes := by
  obtain ⟨spine, hpre⟩ := h
  obtain ⟨frames, hopened, _⟩ := opened_preorder hpre nodes rfl
  exact opened_root _ frames rfl hopened

/-! ## The round trip -/

theorem intoTree_of_flatten (hrt : HumanReadableTree T) (nodes : List (Node T))
    (h : (hrt.root.flatten rootParent rootIndex : Outcome ε _) = .ok nodes) :
    ∃ tree, (hrt.intoTree : Outcome ε _) = .ok tree ∧ tree.nodes = nodes := by
  unfold HumanReadableTree.intoTree
  split
  · next nodes' h' =>
    rw [h] at h'
    exact ⟨_, rfl, (Except.ok.inj h').symm⟩
  · next fault h' =>
    rw [h] at h'
    cases h'

theorem fromTree_flattened (tree : Tree T) (root : HrtNode T) (hproper : root.Proper)
    (h : tree.nodes = root.flattenAt rootParent rootIndex) :
    (HumanReadableTree.fromTree tree : Outcome ε _) = .ok ⟨root⟩ := by
  have hsegment : Segment tree rootIndex (root.flattenAt rootParent rootIndex) := by
    rw [← h]
    constructor
    · intro k item hk
      rw [rootIndex, Nat.zero_add]
      exact hk
    · intro i item hi _ _
      have hlt := (List.getElem?_eq_some_iff.1 hi).1
      exact ⟨Nat.zero_le _, by omega⟩
  rw [fromTree_ok, hrtAt_segment root hproper rootParent tree.root hsegment]

theorem tree_ext (tree other : Tree T) (h : tree.nodes = other.nodes) : tree = other := by
  cases tree
  cases other
  congr

/-- A human readable tree without empty branches comes back from its vector, and a vector in
preorder comes back from its human readable form. -/
theorem formats_round_trip :
    (∀ hrt : HumanReadableTree T, hrt.root.size < 2 ^ indexBits → hrt.root.Proper →
      ∃ tree, (hrt.intoTree : Outcome ε _) = .ok tree ∧ tree.InPreorder ∧
        (∀ i node, i ≠ rootIndex → tree.nodes[i]? = some node → node.parent < i) ∧
        (HumanReadableTree.fromTree tree : Outcome ε _) = .ok hrt) ∧
    ∀ tree : Tree T, tree.InPreorder → (∀ node ∈ tree.nodes, node.parent < 2 ^ indexBits) →
      ∃ hrt, (HumanReadableTree.fromTree tree : Outcome ε _) = .ok hrt ∧
        (hrt.intoTree : Outcome ε _) = .ok tree := by
  constructor
  · intro hrt hsize hproper
    have hfits : ∀ item ∈ hrt.root.flattenAt rootParent rootIndex, item.parent < 2 ^ indexBits := by
      intro item hin
      rcases flattenAt_parents hrt.root rootParent rootIndex item hin with he | ⟨_, hlt⟩
      · rw [he]
        exact Nat.two_pow_pos _
      · rw [rootIndex, Nat.zero_add] at hlt
        exact hlt.trans hsize
    obtain ⟨tree, hinto, hnodes⟩ := intoTree_of_flatten (ε := ε) hrt _
      (flatten_fits hrt.root rootParent rootIndex hproper hfits)
    exact ⟨tree, hinto, intoTree_inPreorder hrt tree hinto, tree.parents_before,
      fromTree_flattened tree hrt.root hproper hnodes⟩
  · intro tree hpre hfits
    obtain ⟨root, hproper, hflatten⟩ := preorder_flattened tree.nodes hpre
    refine ⟨⟨root⟩, fromTree_flattened tree root hproper hflatten.symm, ?_⟩
    obtain ⟨tree', hinto, hnodes⟩ := intoTree_of_flatten (ε := ε) ⟨root⟩ _
      (flatten_fits root rootParent rootIndex hproper (hflatten ▸ hfits))
    rw [hinto, tree_ext tree' tree (hnodes.trans hflatten)]

def sampleHrt : HumanReadableTree ℕ := ⟨.branch 8 [.leaf 9, .branch 12 [.leaf 13, .leaf 14]]⟩

theorem formats_round_trip_sample :
    (∃ tree, (sampleHrt.intoTree : Outcome Empty _) = .ok tree ∧ tree.InPreorder ∧
      (∀ i node, i ≠ rootIndex → tree.nodes[i]? = some node → node.parent < i) ∧
      (HumanReadableTree.fromTree tree : Outcome Empty _) = .ok sampleHrt) ∧
    ∃ hrt, (HumanReadableTree.fromTree sampleTree : Outcome Empty _) = .ok hrt ∧
      (hrt.intoTree : Outcome Empty _) = .ok sampleTree :=
  ⟨formats_round_trip.1 sampleHrt (by decide) (by simp [sampleHrt, HrtNode.Proper, AllProper]),
    formats_round_trip.2 sampleTree sample_preorder (by decide)⟩

end Nolus.Trees
