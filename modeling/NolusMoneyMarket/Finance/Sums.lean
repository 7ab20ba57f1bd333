import NolusMoneyMarket.Finance.Product

/-! # Sums of prices

A sum of two prices does not depend on their order and is within two units of
the eighteenth decimal from the exact one. When the exact sum does not fit both
terms are rounded down, and a term may be lost: the sum is then below the other
one, or no price at all. -/

set_option autoImplicit false

namespace Nolus.PriceSums
open Nolus.Fallible Nolus.Fraction Nolus.Prices Nolus.PriceAccuracy Nolus.PriceProducts

variable {ε : Type}

structure Sums (ε : Type) (p q r : Price) : Prop where
  reduced : Reduced r
  left_le : p ≤ r
  right_le : q ≤ r
  comm : (q.add p : Outcome ε Price) = .ok r
  near : |value r - (value p + value q)| ≤ grain

def Decimal (p : Price) : Prop := p.amount ∣ p.amountQuote * factor

def Visible (p : Price) : Prop := p.amount ≤ p.amountQuote * factor

/-- The sum of two prices is exact, or the rounding of each of them is made up by the other. -/
def KeepsTerms (p q : Price) : Prop :=
  SumFits p q ∨ Decimal p ∨ Decimal q ∨ (Visible p ∧ Visible q)

instance (p : Price) : Decidable (Decimal p) := inferInstanceAs (Decidable (_ ∣ _))
instance (p : Price) : Decidable (Visible p) := inferInstanceAs (Decidable (_ ≤ _))
instance (p q : Price) : Decidable (KeepsTerms p q) := inferInstanceAs (Decidable (_ ∨ _))

theorem decimal_visible (p : Price) (h : Held p) (hd : Decimal p) : Visible p :=
  Nat.le_of_dvd (Nat.mul_pos h.quote_pos (by decide)) hd

theorem visible_iff_units (p : Price) (hp : 0 < p.amount) : Visible p ↔ 0 < units p := by
  rw [units, Ratio.part, Nat.div_pos_iff]
  exact ⟨fun h => ⟨hp, h⟩, fun h => h.2⟩

/-! ## Order of the terms -/

theorem sumFits_comm (p q : Price) : SumFits p q ↔ SumFits q p := by
  rw [SumFits, SumFits, Nat.gcd_comm, Nat.lcm_comm, Nat.add_comm]

theorem checkedAdd_comm (p q : Price) (hp : 0 < p.amount) (hq : 0 < q.amount) :
    (p.checkedAdd q : Outcome ε _) = q.checkedAdd p := by
  rw [checkedAdd_eq p q hp, checkedAdd_eq q p hq, Nat.gcd_comm, Nat.lcm_comm, Nat.add_comm]
  simp only [sumFits_comm p q]

theorem total_cases (p : Price) (hp : 0 < p.amount) :
    (∃ v, (total factor p : Outcome ε ℕ) = .ok v) ∨
      (total factor p : Outcome ε ℕ) = panicking (.overflow "unexpected overflow") := by
  unfold total Ratio.of safeMul
  split_ifs with h1 h2 h3
  · exact .inl ⟨_, rfl⟩
  · exact absurd h2 hp.ne'
  · exact .inl ⟨_, rfl⟩
  · exact .inr rfl

theorem lossyAdd_comm (p q : Price) (hp : 0 < p.amount) (hq : 0 < q.amount) :
    (p.lossyAdd q : Outcome ε _) = q.lossyAdd p := by
  have hsum : ∀ v w, Fallible.checkedAdd amountBits v w = Fallible.checkedAdd amountBits w v := by
    intro v w
    rw [Fallible.checkedAdd, Fallible.checkedAdd, Nat.add_comm]
  unfold Price.lossyAdd
  rw [bind_swap _ _ _ _ (total_cases p hp) (total_cases q hq)]
  simp only [hsum]

theorem add_comm (p q : Price) (hp : 0 < p.amount) (hq : 0 < q.amount) :
    (p.add q : Outcome ε Price) = q.add p := by
  rw [Price.add, Price.add, checkedAdd_comm p q hp hq, lossyAdd_comm p q hp hq]

/-! ## Lost terms -/

theorem add_near (p q r : Price) (hp : 0 < p.amount) (hq : 0 < q.amount)
    (h : (p.add q : Outcome ε Price) = .ok r) : |value r - (value p + value q)| ≤ grain := by
  obtain ⟨_, hlow, hup, _⟩ := add_ok p q r hp hq h
  have hg := grain_nonneg
  rw [abs_le]
  constructor <;> linarith

theorem left_kept (p q r : Price) (hp : Held p) (hq : Held q)
    (h : (p.add q : Outcome ε Price) = .ok r) :
    p ≤ r ↔ SumFits p q ∨ Decimal p ∨ Visible q := by
  obtain ⟨hr, _⟩ := add_ok p q r hp.amount_pos hq.amount_pos h
  rw [le_iff_value p r hp.toFits hr]
  exact add_not_below p q r hp.amount_pos hq.amount_pos h

theorem right_kept (p q r : Price) (hp : Held p) (hq : Held q)
    (h : (p.add q : Outcome ε Price) = .ok r) :
    q ≤ r ↔ SumFits p q ∨ Decimal q ∨ Visible p := by
  rw [add_comm p q hp.amount_pos hq.amount_pos] at h
  rw [left_kept q p r hq hp h, sumFits_comm q p]

theorem add_vanishes (p q r : Price) (hp : Held p) (hq : Held q)
    (h : (p.add q : Outcome ε Price) = .ok r) :
    r.amountQuote = 0 ↔ ¬SumFits p q ∧ ¬Visible p ∧ ¬Visible q := by
  obtain ⟨hr, hsum⟩ := add_value p q r hp.amount_pos hq.amount_pos h
  have hzero : r.amountQuote = 0 ↔ value r = 0 := by
    have hne : (r.amount : ℚ) ≠ 0 := by exact_mod_cast hr.amount_pos.ne'
    rw [value, div_eq_zero_iff, or_iff_left hne, Nat.cast_eq_zero]
  rw [hzero, visible_iff_units p hp.amount_pos, visible_iff_units q hq.amount_pos]
  rcases hsum with ⟨hfits, hv⟩ | ⟨hfits, hv⟩
  · have h1 := value_pos p hp
    have h2 := value_pos q hq
    exact ⟨fun h0 => by linarith, fun h0 => absurd hfits h0.1⟩
  · rw [hv, div_eq_zero_iff, or_iff_left factor_pos.ne', Nat.cast_eq_zero]
    simp only [hfits, not_false_eq_true, true_and]
    omega

theorem reduced_above (p q r : Price) (hp : Held p) (hq : Held q) (hle : p ≤ r)
    (h : (p.add q : Outcome ε Price) = .ok r) : Reduced r := by
  obtain ⟨hr, _⟩ := add_ok p q r hp.amount_pos hq.amount_pos h
  have hv := (le_iff_value p r hp.toFits hr).1 hle
  refine ⟨⟨hr, ?_⟩, add_coprime p q r h⟩
  apply Nat.pos_of_ne_zero
  intro h0
  have hpos := value_pos p hp
  rw [value, value, h0, Nat.cast_zero, zero_div, ← value] at hv
  linarith

theorem keepsTerms_iff (p q : Price) (hp : Held p) (hq : Held q) :
    KeepsTerms p q ↔ (SumFits p q ∨ Decimal p ∨ Visible q) ∧
      (SumFits p q ∨ Decimal q ∨ Visible p) := by
  have h1 := decimal_visible p hp
  have h2 := decimal_visible q hq
  constructor
  · rintro (h | h | h | ⟨h, h'⟩)
    · exact ⟨.inl h, .inl h⟩
    · exact ⟨.inr (.inl h), .inr (.inr (h1 h))⟩
    · exact ⟨.inr (.inr (h2 h)), .inr (.inl h)⟩
    · exact ⟨.inr (.inr h'), .inr (.inr h)⟩
  · rintro ⟨h | h | h, hright⟩
    · exact .inl h
    · exact .inr (.inl h)
    · rcases hright with h' | h' | h'
      · exact .inl h'
      · exact .inr (.inr (.inl h'))
      · exact .inr (.inr (.inr ⟨h', h⟩))

/-- The sum of two prices is what it should be exactly when it keeps its terms. -/
theorem add_sums_iff (p q r : Price) (hp : Reduced p) (hq : Reduced q)
    (h : (p.add q : Outcome ε Price) = .ok r) : Sums ε p q r ↔ KeepsTerms p q := by
  have hleft := left_kept p q r hp.toHeld hq.toHeld h
  have hright := right_kept p q r hp.toHeld hq.toHeld h
  rw [keepsTerms_iff p q hp.toHeld hq.toHeld, ← hleft, ← hright]
  constructor
  · intro hs
    exact ⟨hs.left_le, hs.right_le⟩
  · intro hle
    exact {
      reduced := reduced_above p q r hp.toHeld hq.toHeld hle.1 h
      left_le := hle.1
      right_le := hle.2
      comm := by rw [← add_comm p q hp.amount_pos hq.amount_pos, h]
      near := add_near p q r hp.amount_pos hq.amount_pos h }

theorem reduced_mk (p : Price) (h : (0 < p.amount ∧ p.amount < 2 ^ amountBits) ∧
    (0 < p.amountQuote ∧ p.amountQuote < 2 ^ amountBits) ∧
    Nat.gcd p.amount p.amountQuote = 1) : Reduced p where
  amount_pos := h.1.1
  amount_fits := h.1.2
  quote_pos := h.2.1.1
  quote_fits := h.2.1.2
  coprime := h.2.2

def third : Price := ⟨3, 1⟩

def small : Price := ⟨2 ^ 127 - 1, 2 ^ 100⟩

/-- The exact sum does not fit, and both terms are visible at eighteen decimals. -/
theorem add_sums_small :
    Sums Empty third small ⟨1000000000000000000, 333333340783913929⟩ :=
  (add_sums_iff third small _ (reduced_mk _ (by decide)) (reduced_mk _ (by decide)) rfl).2
    (by decide)

/-- A third plus a price that is rounded to nothing is less than a third, and two such prices
add to a price with no amount of the quote. -/
theorem add_loses_terms :
    (Reduced third ∧ Reduced ⟨2 ^ 127, 1⟩ ∧
      (third.add ⟨2 ^ 127, 1⟩ : Outcome Empty Price) =
        .ok ⟨1000000000000000000, 333333333333333333⟩ ∧
      ¬third ≤ ⟨1000000000000000000, 333333333333333333⟩) ∧
    Reduced ⟨2 ^ 64, 1⟩ ∧ Reduced ⟨2 ^ 64 + 1, 1⟩ ∧
      (Price.add ⟨2 ^ 64, 1⟩ ⟨2 ^ 64 + 1, 1⟩ : Outcome Empty Price) = .ok ⟨1, 0⟩ ∧
      ¬Reduced ⟨1, 0⟩ := by
  refine ⟨⟨reduced_mk _ (by decide), reduced_mk _ (by decide), rfl, by decide⟩, ?_⟩
  refine ⟨reduced_mk _ (by decide), reduced_mk _ (by decide), rfl, ?_⟩
  intro h
  exact absurd h.quote_pos (by decide)

end Nolus.PriceSums
