import NolusMoneyMarket.Base.Fallible

/-! # Shapes

A shape holds a fixed number of units in a fixed order, whatever the units are.
Two values of a shape pair up unit by unit, and a fallible action goes over the
units, or the pairs, in their order. -/

set_option autoImplicit false

namespace Nolus.Shapes
open Nolus.Fallible

class Shape (F : Type → Type) where
  units : {α : Type} → F α → List α
  zip : {α β : Type} → F α → F β → F (α × β)
  units_zip : ∀ {α β : Type} (a : F α) (b : F β), units (zip a b) = (units a).zip (units b)

variable {F : Type → Type} [Shape F] {α β σ ε : Type}

def tryForEach (this : F α) (f : σ → α → Outcome ε σ) (state : σ) : Outcome ε σ :=
  (Shape.units this).foldlM f state

def tryForEachPair (left : F α) (right : F β) (f : σ → α → β → Outcome ε σ) (state : σ) :
    Outcome ε σ :=
  tryForEach (Shape.zip left right) (fun state pair => f state pair.1 pair.2) state

theorem foldlM_total (f : σ → α → Outcome ε σ) (step : σ → α → σ)
    (h : ∀ state unit, f state unit = .ok (step state unit)) (units : List α) (state : σ) :
    units.foldlM f state = .ok (units.foldl step state) := by
  induction units generalizing state with
  | nil => rfl
  | cons unit units ih =>
    rw [List.foldlM_cons, h]
    exact ih _

theorem tryForEachPair_total (left : F α) (right : F β) (f : σ → α → β → Outcome ε σ)
    (step : σ → α × β → σ) (h : ∀ state a b, f state a b = .ok (step state (a, b))) (state : σ) :
    tryForEachPair left right f state =
      .ok (((Shape.units left).zip (Shape.units right)).foldl step state) := by
  rw [tryForEachPair, tryForEach, foldlM_total _ step (fun state pair => h state pair.1 pair.2),
    Shape.units_zip]

end Nolus.Shapes
