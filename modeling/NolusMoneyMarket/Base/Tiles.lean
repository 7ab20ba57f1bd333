import Mathlib.Algebra.BigOperators.Group.List.Basic
import Mathlib.Tactic

/-! # Tiles

Consecutive spans, each from where the one before it ends. Whatever lies
between the two ends of them all is in exactly one of them. -/

set_option autoImplicit false

namespace Nolus.Tiling

variable {τ : Type} [LinearOrder τ]

def Tiles (start : τ) : List (τ × τ) → τ → Prop
  | [], finish => start = finish
  | span :: spans, finish => start = span.1 ∧ span.1 ≤ span.2 ∧ Tiles span.2 spans finish

def Inside (t : τ) (span : τ × τ) : Prop := span.1 ≤ t ∧ t < span.2

instance (t : τ) (span : τ × τ) : Decidable (Inside t span) := inferInstanceAs (Decidable (_ ∧ _))

theorem tiles_le (start finish : τ) (spans : List (τ × τ)) (h : Tiles start spans finish) :
    start ≤ finish := by
  induction spans generalizing start with
  | nil => exact h.le
  | cons span spans ih =>
    obtain ⟨rfl, hspan, hrest⟩ := h
    exact hspan.trans (ih _ hrest)

theorem tiles_snoc (start middle finish : τ) (spans : List (τ × τ))
    (h : Tiles start spans middle) (hle : middle ≤ finish) :
    Tiles start (spans ++ [(middle, finish)]) finish := by
  induction spans generalizing start with
  | nil =>
    cases h
    exact ⟨rfl, hle, rfl⟩
  | cons span spans ih =>
    obtain ⟨rfl, hspan, hrest⟩ := h
    exact ⟨rfl, hspan, ih _ hrest⟩

/-- Every moment between the ends is in one span, any other one in none. -/
theorem tiles_once (start finish : τ) (spans : List (τ × τ)) (h : Tiles start spans finish)
    (t : τ) :
    spans.countP (fun span => Inside t span) = if Inside t (start, finish) then 1 else 0 := by
  induction spans generalizing start with
  | nil =>
    cases h
    rw [List.countP_nil, if_neg fun hin => (hin.1.trans_lt hin.2).false]
  | cons span spans ih =>
    obtain ⟨rfl, hspan, hrest⟩ := h
    have hle := tiles_le _ _ _ hrest
    rw [List.countP_cons, ih _ hrest]
    by_cases hbefore : t < span.2
    · have hlater : ¬ Inside t (span.2, finish) := fun hin => (hin.1.trans_lt hbefore).false
      have hsame : Inside t span ↔ Inside t (span.1, finish) :=
        ⟨fun hin => ⟨hin.1, hin.2.trans_le hle⟩, fun hin => ⟨hin.1, hbefore⟩⟩
      simp only [if_neg hlater, decide_eq_true_eq, hsame, Nat.zero_add]
    · have hafter := not_lt.1 hbefore
      have hpast : ¬ Inside t span := fun hin => hbefore hin.2
      have hsame : Inside t (span.2, finish) ↔ Inside t (span.1, finish) :=
        ⟨fun hin => ⟨hspan.trans hafter, hin.2⟩, fun hin => ⟨hafter, hin.2⟩⟩
      simp only [decide_eq_true_eq, if_neg hpast, hsame, Nat.add_zero]

end Nolus.Tiling
