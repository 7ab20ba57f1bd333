import Mathlib.Data.List.Basic
import Mathlib.Tactic

/-! # Preorder vectors

A tree in preorder is a vector of the indexes of the parents. It grows by a
node at a time, and the parent of the next node is on the spine: the path from
the last node up to the root. A node that joins leaves the part of the spine
below its parent. -/

set_option autoImplicit false

namespace Nolus.Preorders

def upFrom (p : ℕ) (spine : List ℕ) : List ℕ := spine.dropWhile (· ≠ p)

/-- The vectors of parents in preorder, each with its spine. The root is its own parent. -/
inductive Preorder : List ℕ → List ℕ → Prop
  | root : Preorder [0] [0]
  | grow (parents spine : List ℕ) (p : ℕ) : Preorder parents spine → p ∈ spine →
      Preorder (parents ++ [p]) (parents.length :: upFrom p spine)

theorem mem_upFrom_self (p : ℕ) (spine : List ℕ) (h : p ∈ spine) : p ∈ upFrom p spine := by
  induction spine with
  | nil => cases h
  | cons a spine ih =>
    by_cases ha : a = p
    · subst ha
      simp [upFrom]
    · have hp : p ∈ spine := (List.mem_cons.1 h).resolve_left fun he => ha he.symm
      simpa [upFrom, ha] using ih hp

theorem upFrom_cons_self (p : ℕ) (spine : List ℕ) : upFrom p (p :: spine) = p :: spine := by
  simp [upFrom]

theorem upFrom_cons_ne (p a : ℕ) (spine : List ℕ) (h : a ≠ p) :
    upFrom p (a :: spine) = upFrom p spine := by
  simp [upFrom, h]

theorem upFrom_head (p a : ℕ) (spine rest : List ℕ) (h : upFrom p spine = a :: rest) : a = p := by
  induction spine with
  | nil => cases h
  | cons b spine ih =>
    by_cases hb : b = p
    · subst hb
      rw [upFrom_cons_self] at h
      exact (List.cons.inj h).1.symm
    · rw [upFrom_cons_ne p b spine hb] at h
      exact ih h

/-- On a spine that goes down the part up from a node are those not above it in index. -/
theorem mem_upFrom (p a : ℕ) (spine : List ℕ) (hs : spine.Pairwise (· > ·)) (hp : p ∈ spine) :
    a ∈ upFrom p spine ↔ a ∈ spine ∧ a ≤ p := by
  induction spine with
  | nil => cases hp
  | cons b spine ih =>
    obtain ⟨hb, hs⟩ := List.pairwise_cons.1 hs
    by_cases hbp : b = p
    · subst hbp
      rw [upFrom_cons_self]
      constructor
      · intro ha
        refine ⟨ha, ?_⟩
        rcases List.mem_cons.1 ha with rfl | ha
        · exact le_refl _
        · exact (hb a ha).le
      · exact And.left
    · have hp' : p ∈ spine := (List.mem_cons.1 hp).resolve_left fun he => hbp he.symm
      rw [upFrom_cons_ne p b spine hbp, ih hs hp']
      constructor
      · rintro ⟨ha, hle⟩
        exact ⟨List.mem_cons_of_mem _ ha, hle⟩
      · rintro ⟨ha, hle⟩
        refine ⟨(List.mem_cons.1 ha).resolve_left ?_, hle⟩
        rintro rfl
        have hlt := hb p hp'
        omega

theorem upFrom_sublist (p : ℕ) (spine : List ℕ) : (upFrom p spine).Sublist spine :=
  List.dropWhile_sublist _

theorem mem_of_upFrom (p : ℕ) (spine spine' : List ℕ) (hp : p ∈ spine)
    (h : upFrom p spine' = upFrom p spine) : p ∈ spine' := by
  have hin := mem_upFrom_self p spine hp
  rw [← h] at hin
  exact (upFrom_sublist p spine').subset hin

variable {parents spine : List ℕ}

theorem parents_pos (h : Preorder parents spine) : 0 < parents.length := by
  cases h with
  | root => simp
  | grow ps sp p _ _ => simp

theorem spine_lt (h : Preorder parents spine) : ∀ a ∈ spine, a < parents.length := by
  induction h with
  | root => simp
  | grow ps sp p _ hp ih =>
    intro a ha
    rw [List.length_append, List.length_singleton]
    rcases List.mem_cons.1 ha with rfl | ha
    · omega
    · have hlt := ih a ((upFrom_sublist p sp).subset ha)
      omega

theorem spine_decreasing (h : Preorder parents spine) : spine.Pairwise (· > ·) := by
  induction h with
  | root => simp
  | grow ps sp p hpre hp ih =>
    rw [List.pairwise_cons]
    constructor
    · intro a ha
      exact spine_lt hpre a ((upFrom_sublist p sp).subset ha)
    · exact ih.sublist (upFrom_sublist p sp)

/-- The part of the spine up from a node that stays on it does not change. -/
theorem upFrom_upFrom (p q : ℕ) (spine : List ℕ) (hs : spine.Pairwise (· > ·)) (hp : p ∈ spine)
    (hq : q ∈ spine) (hle : q ≤ p) : upFrom q (upFrom p spine) = upFrom q spine := by
  induction spine with
  | nil => cases hp
  | cons b spine ih =>
    obtain ⟨hb, hs⟩ := List.pairwise_cons.1 hs
    by_cases hbp : b = p
    · subst hbp
      rw [upFrom_cons_self]
    · have hp' : p ∈ spine := (List.mem_cons.1 hp).resolve_left fun he => hbp he.symm
      have hlt := hb p hp'
      have hbq : b ≠ q := by omega
      have hq' : q ∈ spine := (List.mem_cons.1 hq).resolve_left fun he => hbq he.symm
      rw [upFrom_cons_ne p b spine hbp, upFrom_cons_ne q b spine hbq]
      exact ih hs hp' hq'

theorem root_parent (h : Preorder parents spine) (p : ℕ) (hp : parents[0]? = some p) : p = 0 := by
  induction h with
  | root => exact (Option.some.inj hp).symm
  | grow ps sp q hpre hq ih =>
    rw [List.getElem?_append_left (parents_pos hpre)] at hp
    exact ih hp

theorem grown_at (ps : List ℕ) (p i q : ℕ) (h : (ps ++ [p])[i]? = some q) :
    (i < ps.length ∧ ps[i]? = some q) ∨ (i = ps.length ∧ q = p) := by
  rcases Nat.lt_or_ge i ps.length with hlt | hge
  · rw [List.getElem?_append_left hlt] at h
    exact .inl ⟨hlt, h⟩
  · rw [List.getElem?_append_right hge, List.getElem?_singleton] at h
    split_ifs at h with h0
    exact .inr ⟨by omega, (Option.some.inj h).symm⟩

theorem root_at (i p : ℕ) (h : [0][i]? = some p) : i = 0 ∧ p = 0 := by
  rcases grown_at [] 0 i p h with ⟨hlt, _⟩ | hlast
  · exact absurd hlt (Nat.not_lt_zero _)
  · exact hlast

theorem parent_lt (h : Preorder parents spine) (i p : ℕ) (hi : 0 < i)
    (hp : parents[i]? = some p) : p < i := by
  induction h with
  | root =>
    have h0 := (root_at i p hp).1
    omega
  | grow ps sp q hpre hq ih =>
    rcases grown_at ps q i p hp with ⟨_, hin⟩ | ⟨rfl, rfl⟩
    · exact ih hin
    · exact spine_lt hpre p hq

theorem later_parents (h : Preorder parents spine) (a m p : ℕ) (ha : a ∈ spine) (hm : a < m)
    (hp : parents[m]? = some p) : a ≤ p := by
  induction h with
  | root =>
    have h0 := (root_at m p hp).1
    omega
  | grow ps sp q hpre hq ih =>
    have hlast := grown_at ps q m p hp
    have hup : a ∈ upFrom q sp := (List.mem_cons.1 ha).resolve_left (by omega)
    obtain ⟨hin, hle⟩ := (mem_upFrom q a sp (spine_decreasing hpre) hq).1 hup
    rcases hlast with ⟨_, hbefore⟩ | ⟨_, rfl⟩
    · exact ih hin hbefore
    · exact hle

theorem parent_between (h : Preorder parents spine) (k m p q : ℕ) (hk : parents[k]? = some p)
    (hpm : p < m) (hmk : m < k) (hm : parents[m]? = some q) : p ≤ q := by
  induction h with
  | root =>
    have h0 := (root_at k p hk).1
    omega
  | grow ps sp r hpre hr ih =>
    rcases grown_at ps r k p hk with ⟨hlt, hbefore⟩ | ⟨rfl, rfl⟩
    · rw [List.getElem?_append_left (hmk.trans hlt)] at hm
      exact ih hbefore hm
    · rw [List.getElem?_append_left hmk] at hm
      exact later_parents hpre p m q hr hpm hm

/-- What holds at the root, and for each next node at its place on the spine, holds of the
whole vector. -/
theorem preorder_induction (P : ℕ → List ℕ → Prop) (h : Preorder parents spine) (h0 : P 1 [0])
    (hstep : ∀ k spine p, 0 < k → parents[k]? = some p → p ∈ spine →
      spine.Pairwise (· > ·) → (∀ a ∈ spine, a < k) → P k spine →
      P (k + 1) (k :: upFrom p spine)) : P parents.length spine := by
  induction h with
  | root => exact h0
  | grow ps sp p hpre hp ih =>
    have hlast : (ps ++ [p])[ps.length]? = some p := by simp
    have hprefix := ih fun k spine q hk hq => hstep k spine q hk (by
      have hlt : k < ps.length := (List.getElem?_eq_some_iff.1 hq).1
      rwa [List.getElem?_append_left hlt])
    rw [List.length_append, List.length_singleton]
    exact hstep ps.length sp p (parents_pos hpre) hlast hp (spine_decreasing hpre)
      (spine_lt hpre) hprefix

/-! ## Stacks over a preorder -/

/-- A stack of nodes, its top first, with all the nodes of the spine that are to be kept. Nodes
of an abandoned branch may be left on it. -/
structure Stacked (kept : ℕ → Prop) (k : ℕ) (spine stack : List ℕ) : Prop where
  decreasing : stack.Pairwise (· > ·)
  before : ∀ i ∈ stack, i < k
  complete : ∀ a ∈ spine, kept a → a ∈ stack

variable {kept : ℕ → Prop} {k : ℕ} {stack : List ℕ}

theorem stacked_root : Stacked kept 1 [0] [0] where
  decreasing := List.pairwise_singleton _ _
  before := by simp
  complete := fun _ ha _ => ha

theorem stacked_skip (p : ℕ) (h : Stacked kept k spine stack) (hk : ¬ kept k) :
    Stacked kept (k + 1) (k :: upFrom p spine) stack where
  decreasing := h.decreasing
  before := fun i hi => (h.before i hi).trans (Nat.lt_succ_self k)
  complete := by
    intro a ha hkept
    rcases List.mem_cons.1 ha with rfl | ha
    · exact absurd hkept hk
    · exact h.complete a ((upFrom_sublist p spine).subset ha) hkept

/-- A node takes the place of what is above its parent. -/
theorem stacked_push (p : ℕ) (h : Stacked kept k spine stack) (hs : spine.Pairwise (· > ·))
    (hp : p ∈ spine) (hin : p ∈ stack) :
    Stacked kept (k + 1) (k :: upFrom p spine) (k :: upFrom p stack) where
  decreasing := by
    rw [List.pairwise_cons]
    constructor
    · intro i hi
      exact h.before i ((upFrom_sublist p stack).subset hi)
    · exact h.decreasing.sublist (upFrom_sublist p stack)
  before := by
    intro i hi
    rcases List.mem_cons.1 hi with rfl | hi
    · exact Nat.lt_succ_self _
    · exact (h.before i ((upFrom_sublist p stack).subset hi)).trans (Nat.lt_succ_self k)
  complete := by
    intro a ha hkept
    rcases List.mem_cons.1 ha with rfl | ha
    · exact List.mem_cons_self
    · obtain ⟨ha, hle⟩ := (mem_upFrom p a spine hs hp).1 ha
      apply List.mem_cons_of_mem
      exact (mem_upFrom p a stack h.decreasing hin).2 ⟨h.complete a ha hkept, hle⟩

end Nolus.Preorders
