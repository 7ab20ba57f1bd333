import Mathlib.Data.Rat.Defs
import Mathlib.Algebra.Order.Field.Rat
import Mathlib.Tactic

/-! # Share pools

A pool of some worth issues shares for what is put in it and redeems them for
a part of the worth. Both conversions are floored, hence each move leaves the
worth of a share where it was or raises it. Gains raise it too. -/

set_option autoImplicit false

namespace Nolus.SharePools

structure SharePool where
  worth : ℕ
  shares : ℕ

def SharePool.ratio (p : SharePool) : ℚ := p.worth / p.shares

/-- The worth of a share does not drop from the first pool to the second. -/
def NotBelow (p q : SharePool) : Prop := p.worth * q.shares ≤ q.worth * p.shares

def Backed (p : SharePool) : Prop := p.shares ≤ p.worth

inductive Move : SharePool → SharePool → Prop
  | gain (p : SharePool) (worth : ℕ) : p.worth ≤ worth → Move p ⟨worth, p.shares⟩
  | mint (p : SharePool) (amount : ℕ) : 0 < p.shares →
      Move p ⟨p.worth + amount, p.shares + p.shares * amount / p.worth⟩
  | burn (p : SharePool) (extra shares : ℕ) : shares ≤ p.shares → 0 < p.shares →
      Move p ⟨p.worth + extra - (p.worth + extra) * shares / p.shares, p.shares - shares⟩
  | first (p : SharePool) (amount : ℕ) : p.shares = 0 → Move p ⟨p.worth + amount, amount⟩

theorem notBelow_trans (p q r : SharePool) (hq : 0 < q.shares) (h : NotBelow p q)
    (k : NotBelow q r) : NotBelow p r := by
  unfold NotBelow at *
  apply Nat.le_of_mul_le_mul_right _ hq
  calc p.worth * r.shares * q.shares = p.worth * q.shares * r.shares := by ring
    _ ≤ q.worth * p.shares * r.shares := Nat.mul_le_mul_right _ h
    _ = q.worth * r.shares * p.shares := by ring
    _ ≤ r.worth * q.shares * p.shares := Nat.mul_le_mul_right _ k
    _ = r.worth * p.shares * q.shares := by ring

theorem notBelow_ratio (p q : SharePool) (hp : 0 < p.shares) (hq : 0 < q.shares)
    (h : NotBelow p q) : p.ratio ≤ q.ratio := by
  unfold SharePool.ratio
  rw [div_le_div_iff₀ (by exact_mod_cast hp) (by exact_mod_cast hq)]
  exact_mod_cast h

theorem backed_of_notBelow (p q : SharePool) (hp : 0 < p.shares) (hb : Backed p)
    (h : NotBelow p q) : Backed q := by
  unfold Backed NotBelow at *
  apply Nat.le_of_mul_le_mul_right _ hp
  calc q.shares * p.shares ≤ q.shares * p.worth := Nat.mul_le_mul_left _ hb
    _ = p.worth * q.shares := by ring
    _ ≤ q.worth * p.shares := h

theorem mint_notBelow (p : SharePool) (amount : ℕ) :
    NotBelow p ⟨p.worth + amount, p.shares + p.shares * amount / p.worth⟩ := by
  have h := Nat.mul_div_le (p.shares * amount) p.worth
  simp only [NotBelow]
  nlinarith

theorem burn_notBelow (p : SharePool) (extra shares : ℕ) (hs : shares ≤ p.shares) :
    NotBelow p ⟨p.worth + extra - (p.worth + extra) * shares / p.shares, p.shares - shares⟩ := by
  have h := Nat.div_mul_le_self ((p.worth + extra) * shares) p.shares
  have hle : (p.worth + extra) * shares / p.shares ≤ p.worth + extra :=
    Nat.div_le_of_le_mul (by rw [Nat.mul_comm p.shares]; exact Nat.mul_le_mul_left _ hs)
  obtain ⟨rest, hrest⟩ := Nat.exists_eq_add_of_le hs
  obtain ⟨left, hleft⟩ := Nat.exists_eq_add_of_le hle
  generalize (p.worth + extra) * shares / p.shares = paid at *
  have hw : p.worth ≤ paid + left := by omega
  simp only [NotBelow, hleft, hrest, Nat.add_sub_cancel_left] at h ⊢
  nlinarith

theorem move_notBelow (p q : SharePool) (h : Move p q) (hp : 0 < p.shares) : NotBelow p q := by
  cases h with
  | gain worth hw => exact Nat.mul_le_mul_right _ hw
  | mint amount hpos => exact mint_notBelow p amount
  | burn extra shares hs hpos => exact burn_notBelow p extra shares hs
  | first amount h0 => omega

theorem move_backed (p q : SharePool) (h : Move p q) (hb : 0 < p.shares → Backed p)
    (hq : 0 < q.shares) : Backed q := by
  rcases Nat.eq_zero_or_pos p.shares with h0 | hp
  · cases h with
    | gain worth hw => exact absurd hq (by simp [h0])
    | mint amount hpos => omega
    | burn extra shares hs hpos => omega
    | first amount _ => exact Nat.le_add_left _ _
  · exact backed_of_notBelow p q hp (hb hp) (move_notBelow p q h hp)

end Nolus.SharePools
