import Mathlib.Tactic

/-! # Payments in order

A payment covers a list of dues from the first to the last. Each due takes
what it can of the rest of the payment, and what is left at the end is the
change, the last of the payments. -/

set_option autoImplicit false

namespace Nolus.Waterfall

def waterfall : List ℕ → ℕ → List ℕ
  | [], payment => [payment]
  | due :: dues, payment => min due payment :: waterfall dues (payment - min due payment)

/-- No due is overpaid, and whatever comes after a due not paid in full gets nothing. -/
def InOrder : List ℕ → List ℕ → Prop
  | due :: dues, paid :: rest =>
    paid ≤ due ∧ (paid < due → ∀ p ∈ rest, p = 0) ∧ InOrder dues rest
  | _, _ => True

theorem waterfall_sum (dues : List ℕ) (payment : ℕ) :
    (waterfall dues payment).sum = payment := by
  induction dues generalizing payment with
  | nil => simp [waterfall]
  | cons due dues ih =>
    rw [waterfall, List.sum_cons, ih]
    omega

theorem waterfall_at (dues : List ℕ) (due : ℕ) (later : List ℕ) (payment : ℕ) :
    (waterfall (dues ++ due :: later) payment)[dues.length]? =
      some (min due (payment - dues.sum)) := by
  induction dues generalizing payment with
  | nil => simp [waterfall]
  | cons first dues ih =>
    have hleft : payment - min first payment - dues.sum = payment - (first + dues.sum) := by omega
    rw [List.cons_append, waterfall, List.length_cons, List.getElem?_cons_succ, ih, hleft,
      List.sum_cons]

theorem waterfall_change (dues : List ℕ) (payment : ℕ) :
    (waterfall dues payment)[dues.length]? = some (payment - dues.sum) := by
  induction dues generalizing payment with
  | nil => simp [waterfall]
  | cons first dues ih =>
    have hleft : payment - min first payment - dues.sum = payment - (first + dues.sum) := by omega
    rw [waterfall, List.length_cons, List.getElem?_cons_succ, ih, hleft, List.sum_cons]

theorem waterfall_nothing (dues : List ℕ) : ∀ p ∈ waterfall dues 0, p = 0 := by
  intro p hp
  have hsum := waterfall_sum dues 0
  exact List.sum_eq_zero_iff.1 hsum p hp

theorem waterfall_inOrder (dues : List ℕ) (payment : ℕ) :
    InOrder dues (waterfall dues payment) := by
  induction dues generalizing payment with
  | nil => trivial
  | cons due dues ih =>
    rw [waterfall]
    constructor
    · exact min_le_left _ _
    constructor
    · intro hlt p hp
      have hrest : payment - min due payment = 0 := by omega
      rw [hrest] at hp
      exact waterfall_nothing dues p hp
    · exact ih _

end Nolus.Waterfall
