import Mathlib.Data.List.Basic

/-! # Breadth first search

The search expands the nodes level by level. What is on the frontier is near,
at the level of the search, or far, one level further on. A node the search has
come upon is expanded or on the frontier, so every node within the level is
expanded already. -/

set_option autoImplicit false

namespace Nolus.Search

variable {N : Type}

inductive Steps (link : N → N → Prop) (start : N) : ℕ → N → Prop
  | start : Steps link start 0 start
  | next (n : ℕ) (a b : N) (h : Steps link start n a) (hlink : link a b) :
      Steps link start (n + 1) b

structure Frontier (link : N → N → Prop) (start : N) (level : ℕ)
    (expanded seen near far : List N) : Prop where
  within : ∀ n a, n < level → Steps link start n a → a ∈ expanded
  reached : ∀ a, Steps link start level a → a ∈ expanded ∨ a ∈ near
  closed : ∀ a ∈ expanded, ∀ b, link a b → b ∈ expanded ∨ b ∈ near ∨ b ∈ far
  known : ∀ a ∈ seen, a ∈ expanded ∨ a ∈ near ∨ a ∈ far

variable {link : N → N → Prop} {start : N} {level : ℕ} {expanded seen near far : List N}

theorem frontier_start (hnear : ∀ a, link start a → a ∈ near) :
    Frontier link start 1 [start] [start] near [] where
  within := by
    intro n a hn h
    cases h with
    | start => exact List.mem_singleton.2 rfl
    | next => omega
  reached := by
    intro a h
    cases h with
    | next n b _ h hlink =>
      cases h
      exact .inr (hnear a hlink)
  closed := by
    intro a ha b hlink
    obtain rfl := List.mem_singleton.1 ha
    exact .inr (.inl (hnear b hlink))
  known := fun a ha => .inl ha

/-- The far nodes are near once the near ones are expanded. -/
theorem frontier_further (h : Frontier link start level expanded seen [] far) :
    Frontier link start (level + 1) expanded seen far [] where
  within := by
    intro n a hn hsteps
    rcases Nat.lt_succ_iff_lt_or_eq.1 hn with hlt | rfl
    · exact h.within n a hlt hsteps
    · rcases h.reached a hsteps with hin | hin
      · exact hin
      · cases hin
  reached := by
    intro b hsteps
    cases hsteps with
    | next n a _ hsteps hlink =>
      rcases h.reached a hsteps with hin | hin
      · rcases h.closed a hin b hlink with hb | hb | hb
        · exact .inl hb
        · cases hb
        · exact .inr hb
      · cases hin
  closed := by
    intro a ha b hlink
    rcases h.closed a ha b hlink with hb | hb | hb
    · exact .inl hb
    · cases hb
    · exact .inr (.inl hb)
  known := by
    intro a ha
    rcases h.known a ha with hb | hb | hb
    · exact .inl hb
    · cases hb
    · exact .inr (.inl hb)

/-- The new nodes a near node leads to are far. -/
theorem frontier_expand (u : N) (fresh : List N)
    (hfresh : ∀ a, link u a → a ∈ seen ∨ a ∈ fresh)
    (h : Frontier link start level expanded seen (u :: near) far) :
    Frontier link start level (u :: expanded) (fresh ++ seen) near (far ++ fresh) := by
  have hmoved : ∀ a, a ∈ expanded ∨ a ∈ u :: near ∨ a ∈ far →
      a ∈ u :: expanded ∨ a ∈ near ∨ a ∈ far ++ fresh := by
    intro a ha
    simp only [List.mem_cons, List.mem_append] at ha ⊢
    tauto
  constructor
  · intro n a hn hsteps
    exact List.mem_cons_of_mem u (h.within n a hn hsteps)
  · intro a hsteps
    rcases h.reached a hsteps with hin | hin
    · exact .inl (List.mem_cons_of_mem u hin)
    · rcases List.mem_cons.1 hin with rfl | hin
      · exact .inl List.mem_cons_self
      · exact .inr hin
  · intro a ha b hlink
    rcases List.mem_cons.1 ha with rfl | ha
    · rcases hfresh b hlink with hseen | hnew
      · exact hmoved b (h.known b hseen)
      · exact .inr (.inr (List.mem_append_right far hnew))
    · exact hmoved b (h.closed a ha b hlink)
  · intro a ha
    rcases List.mem_append.1 ha with hnew | hseen
    · exact .inr (.inr (List.mem_append_right far hnew))
    · exact hmoved a (h.known a hseen)

theorem frontier_exhausted (hstart : start ∈ expanded)
    (h : Frontier link start level expanded seen [] []) (n : ℕ) (a : N)
    (hsteps : Steps link start n a) : a ∈ expanded := by
  induction hsteps with
  | start => exact hstart
  | next n a b _ hlink ih =>
    rcases h.closed a ih b hlink with hb | hb | hb
    · exact hb
    · cases hb
    · cases hb

theorem frontier_beyond (h : Frontier link start level expanded seen near far) (n : ℕ) (a : N)
    (hexpanded : a ∉ expanded) (hnear : a ∉ near) (hsteps : Steps link start n a) : level < n := by
  by_contra hle
  rcases Nat.lt_or_eq_of_le (Nat.le_of_not_lt hle) with hlt | rfl
  · exact hexpanded (h.within n a hlt hsteps)
  · rcases h.reached a hsteps with hin | hin
    · exact hexpanded hin
    · exact hnear hin

end Nolus.Search
