import NolusMoneyMarket.Tree.Tree

/-! # Routes

A route is a sequence of hops between nodes, each of them along the edge of a
node and its parent, in any direction. A simple one visits no node twice. It
goes up to a common ancestor and then down, hence there is a single one between
any two nodes. -/

set_option autoImplicit false

namespace Nolus.Trees

variable {T : Type} {tree : Tree T}

structure Hop (tree : Tree T) where
  edge : NodeRef tree
  reached : NodeRef tree

inductive Route : NodeRef tree → List (Hop tree) → NodeRef tree → Prop
  | here (node : NodeRef tree) : Route node [] node
  | up (child parent dest : NodeRef tree) (rest : List (Hop tree)) :
      tree.parentOf child = some parent → Route parent rest dest →
      Route child (⟨child, parent⟩ :: rest) dest
  | down (child parent dest : NodeRef tree) (rest : List (Hop tree)) :
      tree.parentOf child = some parent → Route child rest dest →
      Route parent (⟨child, child⟩ :: rest) dest

def visited (source : NodeRef tree) (hops : List (Hop tree)) : List (NodeRef tree) :=
  source :: hops.map Hop.reached

def Simple (source : NodeRef tree) (hops : List (Hop tree)) : Prop := (visited source hops).Nodup

/-! ## Lineage -/

def Tree.lineage (self : Tree T) (this : NodeRef self) : List (NodeRef self) :=
  this :: self.parentsIter this

theorem mem_lineage_self (this : NodeRef tree) : this ∈ tree.lineage this := List.mem_cons_self

theorem lineage_root : tree.lineage tree.root = [tree.root] := rfl

theorem lineage_step (this parent : NodeRef tree) (h : tree.parentOf this = some parent) :
    tree.lineage this = this :: tree.lineage parent :=
  congrArg _ (parentsIter_cons tree this parent h)

theorem lineage_le (node this : NodeRef tree) (h : node ∈ tree.lineage this) : node ≤ this := by
  induction this using node_induction with
  | h0 =>
    rw [lineage_root, List.mem_singleton] at h
    exact h.le
  | hstep this parent hp ih =>
    rw [lineage_step this parent hp] at h
    rcases List.mem_cons.1 h with rfl | hin
    · exact le_rfl
    · exact (ih hin).trans (parentOf_some tree this parent hp).2.2.le

theorem not_in_lineage (this parent : NodeRef tree) (h : tree.parentOf this = some parent) :
    this ∉ tree.lineage parent := by
  intro hin
  exact absurd (parentOf_some tree this parent h).2.2 (not_lt.2 (lineage_le _ _ hin))

theorem lineage_nodup (this : NodeRef tree) : (tree.lineage this).Nodup := by
  induction this using node_induction with
  | h0 => exact List.nodup_singleton _
  | hstep this parent hp ih =>
    rw [lineage_step this parent hp]
    exact List.nodup_cons.2 ⟨not_in_lineage this parent hp, ih⟩

theorem root_in_lineage (this : NodeRef tree) : tree.root ∈ tree.lineage this := by
  induction this using node_induction with
  | h0 => exact mem_lineage_self _
  | hstep this parent hp ih =>
    rw [lineage_step this parent hp]
    exact List.mem_cons_of_mem _ ih

theorem lineage_trans (a b this : NodeRef tree) (ha : a ∈ tree.lineage b)
    (hb : b ∈ tree.lineage this) : a ∈ tree.lineage this := by
  induction this using node_induction with
  | h0 =>
    rw [lineage_root, List.mem_singleton] at hb
    rwa [hb] at ha
  | hstep this parent hp ih =>
    rw [lineage_step this parent hp] at hb ⊢
    rcases List.mem_cons.1 hb with rfl | hin
    · rwa [lineage_step b parent hp] at ha
    · exact List.mem_cons_of_mem _ (ih hin)

theorem lineage_linear (a b this : NodeRef tree) (ha : a ∈ tree.lineage this)
    (hb : b ∈ tree.lineage this) : a ∈ tree.lineage b ∨ b ∈ tree.lineage a := by
  induction this using node_induction with
  | h0 =>
    rw [lineage_root, List.mem_singleton] at ha hb
    subst ha hb
    exact .inl (mem_lineage_self _)
  | hstep this parent hp ih =>
    have hstep := lineage_step this parent hp
    by_cases hat : a = this
    · exact .inr (hat ▸ hb)
    · by_cases hbt : b = this
      · exact .inl (hbt ▸ ha)
      · rw [hstep] at ha hb
        exact ih ((List.mem_cons.1 ha).resolve_left hat) ((List.mem_cons.1 hb).resolve_left hbt)

theorem siblings_apart (a b parent this : NodeRef tree) (ha : tree.parentOf a = some parent)
    (hb : tree.parentOf b = some parent) (hat : a ∈ tree.lineage this)
    (hbt : b ∈ tree.lineage this) : a = b := by
  rcases lineage_linear a b this hat hbt with h | h
  · rw [lineage_step b parent hb] at h
    exact (List.mem_cons.1 h).resolve_right (not_in_lineage a parent ha)
  · rw [lineage_step a parent ha] at h
    exact ((List.mem_cons.1 h).resolve_right (not_in_lineage b parent hb)).symm

/-! ## Joining and reversing routes -/

theorem route_append (a b c : NodeRef tree) (hops rest : List (Hop tree)) (h : Route a hops b)
    (hrest : Route b rest c) : Route a (hops ++ rest) c := by
  induction h with
  | here _ => exact hrest
  | up child parent dest hops hp _ ih => exact .up child parent c _ hp (ih hrest)
  | down child parent dest hops hp _ ih => exact .down child parent c _ hp (ih hrest)

/-- The way back is along the same edges in reverse order, and visits the same nodes. -/
theorem route_reverse (a b : NodeRef tree) (hops : List (Hop tree)) (h : Route a hops b) :
    ∃ back, Route b back a ∧ back.map Hop.edge = (hops.map Hop.edge).reverse ∧
      visited b back = (visited a hops).reverse := by
  induction h with
  | here node => exact ⟨[], .here node, rfl, rfl⟩
  | up child parent dest hops hp _ ih =>
    obtain ⟨back, hback, hedges, hvisited⟩ := ih
    refine ⟨back ++ [⟨child, child⟩],
      route_append _ _ _ _ _ hback (.down child parent child [] hp (.here child)), ?_, ?_⟩
    · simp [hedges]
    · change (dest :: (back ++ [(⟨child, child⟩ : Hop tree)]).map Hop.reached) = _
      change (dest :: back.map Hop.reached) = _ at hvisited
      rw [List.map_append, ← List.cons_append, hvisited]
      simp [visited]
  | down child parent dest hops hp _ ih =>
    obtain ⟨back, hback, hedges, hvisited⟩ := ih
    refine ⟨back ++ [⟨child, parent⟩],
      route_append _ _ _ _ _ hback (.up child parent parent [] hp (.here parent)), ?_, ?_⟩
    · simp [hedges]
    · change (dest :: (back ++ [(⟨child, parent⟩ : Hop tree)]).map Hop.reached) = _
      change (dest :: back.map Hop.reached) = _ at hvisited
      rw [List.map_append, ← List.cons_append, hvisited]
      simp [visited]

theorem route_ends (a b : NodeRef tree) (hops : List (Hop tree)) (h : Route a hops b) :
    (visited a hops).getLast? = some b := by
  induction h with
  | here _ => rfl
  | up child parent dest hops _ _ ih => exact (List.getLast?_cons_cons ..).trans ih
  | down child parent dest hops _ _ ih => exact (List.getLast?_cons_cons ..).trans ih

theorem mem_visited_end (a b : NodeRef tree) (hops : List (Hop tree)) (h : Route a hops b) :
    b ∈ visited a hops := List.mem_of_getLast? (route_ends a b hops h)

theorem simple_empty (a b : NodeRef tree) (hops : List (Hop tree)) (h : Route a hops b)
    (hs : Simple a hops) : hops = [] ↔ a = b := by
  constructor
  · rintro rfl
    cases h
    rfl
  · rintro rfl
    cases h with
    | here _ => rfl
    | up child parent dest rest _ hrest =>
      exact absurd (mem_visited_end _ _ _ hrest) (List.nodup_cons.1 hs).1
    | down child parent dest rest _ hrest =>
      exact absurd (mem_visited_end _ _ _ hrest) (List.nodup_cons.1 hs).1

/-! ## The way down -/

def downTo (nodes : List (NodeRef tree)) : List (Hop tree) :=
  nodes.reverse.map fun node => ⟨node, node⟩

theorem reached_downTo (nodes : List (NodeRef tree)) :
    (downTo nodes).map Hop.reached = nodes.reverse := by
  simp [downTo, Function.comp_def]

theorem route_down (node dest : NodeRef tree) (i : ℕ) (h : (tree.lineage dest)[i]? = some node) :
    Route node (downTo ((tree.lineage dest).take i)) dest := by
  induction dest using node_induction generalizing i with
  | h0 =>
    rw [lineage_root] at h ⊢
    cases i with
    | zero =>
      obtain rfl := Option.some.inj h
      exact .here _
    | succ i => cases h
  | hstep dest parent hp ih =>
    rw [lineage_step dest parent hp] at h ⊢
    cases i with
    | zero =>
      obtain rfl := Option.some.inj h
      exact .here _
    | succ i =>
      have hrest := ih i h
      have hjoined := route_append _ _ _ _ _ hrest (.down dest parent dest [] hp (.here dest))
      simpa [downTo] using hjoined

theorem simple_down (node dest : NodeRef tree) (i : ℕ) (h : (tree.lineage dest)[i]? = some node) :
    Simple node (downTo ((tree.lineage dest).take i)) := by
  have htake : (tree.lineage dest).take (i + 1) = (tree.lineage dest).take i ++ [node] := by
    rw [List.take_add_one, h]
    rfl
  have hnodup := (lineage_nodup dest).sublist (List.take_sublist (i + 1) _)
  rw [htake] at hnodup
  rw [Simple, visited, reached_downTo]
  simpa using List.nodup_reverse.2 hnodup

/-! ## The only simple route -/

theorem goes_down (a parent b : NodeRef tree) (hops : List (Hop tree)) (h : Route a hops b)
    (hs : Simple a hops) (hp : tree.parentOf a = some parent)
    (haway : parent ∉ visited a hops) : a ∈ tree.lineage b := by
  induction h generalizing parent with
  | here _ => exact mem_lineage_self _
  | up child up dest rest hup _ _ =>
    rw [hup] at hp
    obtain rfl := Option.some.inj hp
    exact absurd (List.mem_cons_of_mem _ List.mem_cons_self) haway
  | down child a dest rest hdown _ ih =>
    obtain ⟨hnot, hrest⟩ := List.nodup_cons.1 hs
    have hin := ih a hrest hdown hnot
    apply lineage_trans a child dest
    · rw [lineage_step child a hdown]
      exact List.mem_cons_of_mem _ (mem_lineage_self a)
    · exact hin

theorem enters_through (node a b : NodeRef tree) (hops : List (Hop tree)) (h : Route a hops b)
    (hb : node ∈ tree.lineage b) (ha : node ∉ tree.lineage a) : node ∈ visited a hops := by
  induction h with
  | here _ => exact absurd hb ha
  | up child parent dest rest hp _ ih =>
    rw [lineage_step child parent hp] at ha
    exact List.mem_cons_of_mem _ (ih hb fun hin => ha (List.mem_cons_of_mem _ hin))
  | down child parent dest rest hp _ ih =>
    by_cases hc : node ∈ tree.lineage child
    · rw [lineage_step child parent hp] at hc
      rcases List.mem_cons.1 hc with rfl | hin
      · exact List.mem_cons_of_mem _ List.mem_cons_self
      · exact absurd hin ha
    · exact List.mem_cons_of_mem _ (ih hb hc)

theorem up_or_down (a parent child b : NodeRef tree) (up down : List (Hop tree))
    (hp : tree.parentOf a = some parent) (hup : Route parent up b) (ha : a ∉ visited parent up)
    (hc : tree.parentOf child = some a) (hdown : Route child down b) (hs : Simple child down)
    (ha' : a ∉ visited child down) : False := by
  have hchild := goes_down child a b down hdown hs hc ha'
  have hab : a ∈ tree.lineage b := by
    apply lineage_trans a child b
    · rw [lineage_step child a hc]
      exact List.mem_cons_of_mem _ (mem_lineage_self a)
    · exact hchild
  exact ha (enters_through a parent b up hup hab (not_in_lineage a parent hp))

/-- There is at most one simple route between two nodes. -/
theorem route_unique (a b : NodeRef tree) (hops other : List (Hop tree)) (h : Route a hops b)
    (hs : Simple a hops) (ho : Route a other b) (hos : Simple a other) : hops = other := by
  induction h generalizing other with
  | here node => exact ((simple_empty _ _ other ho hos).2 rfl).symm
  | up child parent dest rest hp hrest ih =>
    obtain ⟨haway, hsrest⟩ := List.nodup_cons.1 hs
    cases ho with
    | here _ => exact (simple_empty _ _ _ (.up child parent _ rest hp hrest) hs).2 rfl
    | up _ parent' _ rest' hp' hrest' =>
      rw [hp] at hp'
      obtain rfl := Option.some.inj hp'
      rw [ih rest' hsrest hrest' (List.nodup_cons.1 hos).2]
    | down child' _ _ rest' hp' hrest' =>
      obtain ⟨haway', hsrest'⟩ := List.nodup_cons.1 hos
      exact (up_or_down child parent child' dest rest rest' hp hrest haway hp' hrest' hsrest'
        haway').elim
  | down child parent dest rest hp hrest ih =>
    obtain ⟨haway, hsrest⟩ := List.nodup_cons.1 hs
    cases ho with
    | here _ => exact (simple_empty _ _ _ (.down child parent _ rest hp hrest) hs).2 rfl
    | up _ parent' _ rest' hp' hrest' =>
      exact (up_or_down parent parent' child dest rest' rest hp' hrest' (List.nodup_cons.1 hos).1
        hp hrest hsrest haway).elim
    | down child' _ _ rest' hp' hrest' =>
      obtain ⟨haway', hsrest'⟩ := List.nodup_cons.1 hos
      have hdown := goes_down child parent dest rest hrest hsrest hp haway
      have hdown' := goes_down child' parent dest rest' hrest' hsrest' hp' haway'
      obtain rfl := siblings_apart child child' parent dest hp hp' hdown hdown'
      rw [ih rest' hsrest hrest' hsrest']

end Nolus.Trees
