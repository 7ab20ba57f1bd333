import NolusMoneyMarket.Finance.Fraction

/-! # Prices

A price is a ratio of two amounts in canonical form. Totals of a price are
floored, comparison is by cross-multiplication, addition falls back to a
rounding to eighteen decimal places, and multiplication drops the low bits
that do not fit in an amount. -/

set_option autoImplicit false

namespace Nolus.Prices
open Nolus.Fallible Nolus.Fraction

structure Price where
  amount : ℕ
  amountQuote : ℕ
deriving DecidableEq, Repr

variable {ε : Type}

def intoCoprimeWith (lhs rhs : ℕ) : Outcome ε (ℕ × ℕ) :=
  if Nat.gcd lhs rhs = 0 then panicking .divisionByZero
  else pure (lhs / Nat.gcd lhs rhs, rhs / Nat.gcd lhs rhs)

def Price.new (amount amountQuote : ℕ) : Outcome ε Price := do
  let (amount', amountQuote') ← intoCoprimeWith amount amountQuote
  pure ⟨amount', amountQuote'⟩

def Price.identity : Price := ⟨1, 1⟩

def Price.inv (self : Price) : Price := ⟨self.amountQuote, self.amount⟩

def total (amount : ℕ) (price : Price) : Outcome ε ℕ :=
  Ratio.of ⟨amount, price.amount⟩ price.amountQuote

instance : LE Price := ⟨fun p q => p.amountQuote * q.amount ≤ p.amount * q.amountQuote⟩
instance : LT Price := ⟨fun p q => p.amountQuote * q.amount < p.amount * q.amountQuote⟩

instance (p q : Price) : Decidable (p ≤ q) := Nat.decLe _ _
instance (p q : Price) : Decidable (p < q) := Nat.decLt _ _

theorem le_def (p q : Price) :
    p ≤ q ↔ p.amountQuote * q.amount ≤ p.amount * q.amountQuote := Iff.rfl

theorem lt_def (p q : Price) :
    p < q ↔ p.amountQuote * q.amount < p.amount * q.amountQuote := Iff.rfl

def bitsAboveMax (double : ℕ) : Outcome ε ℕ :=
  let higherHalf := double / 2 ^ amountBits
  if higherHalf < 2 ^ amountBits then
    pure (if higherHalf = 0 then 0 else Nat.log2 higherHalf + 1)
  else panicking (.overflow "Bigger Amount Higher Rank Type than required!")

def trimDown (double bits : ℕ) : Outcome ε ℕ :=
  let amount := double / 2 ^ bits
  if amount < 2 ^ amountBits then
    if 0 < amount then pure amount
    else panicking (.assertion "price overflow during multiplication")
  else panicking (.overflow "insufficient bits to trim")

def Price.lossyMul (self : Price) (rhs : Ratio) : Outcome ε Price := do
  let (amount, nominator) ← intoCoprimeWith self.amount rhs.parts
  let (amountQuote, denominator) ← intoCoprimeWith self.amountQuote rhs.total
  let extra ← bitsAboveMax (amount * denominator)
  let extraQuote ← bitsAboveMax (amountQuote * nominator)
  let extraBits := max extra extraQuote
  let trimmed ← trimDown (amount * denominator) extraBits
  let trimmedQuote ← trimDown (amountQuote * nominator) extraBits
  Price.new trimmed trimmedQuote

/-- The price of a currency in the quote of its quote. The ratio of the two amounts of
the middle currency is not reduced. -/
def Price.mul (self rhs : Price) : Outcome ε Price := do
  let price ← Price.new self.amount rhs.amountQuote
  price.lossyMul ⟨self.amountQuote, rhs.amount⟩

/-- Exact addition over the least common denominator, when everything fits. -/
def Price.checkedAdd (self rhs : Price) : Outcome ε (Option Price) := do
  let (a1, c1) ← intoCoprimeWith self.amount rhs.amount
  if a1 = 0 then panicking (.assertion "invariant on amount != 0 should have passed!")
  else
    let gcd := self.amount / a1
    let mayAmountQuote := do
      let b_c1 ← checkedMul amountBits self.amountQuote c1
      let d_a1 ← checkedMul amountBits rhs.amountQuote a1
      Fallible.checkedAdd amountBits b_c1 d_a1
    let mayAmount := do
      let a1_c1 ← checkedMul amountBits a1 c1
      checkedMul amountBits a1_c1 gcd
    match mayAmountQuote, mayAmount with
    | some amountQuote, some amount => do
      let price ← Price.new amount amountQuote
      pure (some price)
    | _, _ => pure none

def factor : ℕ := 1000000000000000000

def Price.lossyAdd (self rhs : Price) : Outcome ε (Option Price) := do
  let lhsTotal ← total factor self
  let rhsTotal ← total factor rhs
  match Fallible.checkedAdd amountBits lhsTotal rhsTotal with
  | some factoredTotal => do
    let price ← Price.new factor factoredTotal
    pure (some price)
  | none => pure none

def Price.add (self rhs : Price) : Outcome ε Price := do
  let exact ← self.checkedAdd rhs
  match exact with
  | some price => pure price
  | none =>
    let lossy ← self.lossyAdd rhs
    expect lossy (.overflow "should not observe huge prices")

theorem new_ok (amount quote : ℕ) (p : Price)
    (h : (Price.new amount quote : Outcome ε Price) = .ok p) :
    0 < Nat.gcd amount quote ∧ p.amount * Nat.gcd amount quote = amount ∧
      p.amountQuote * Nat.gcd amount quote = quote := by
  simp only [Price.new, intoCoprimeWith, bind_ok] at h
  obtain ⟨⟨a, q⟩, hg, hp⟩ := h
  split_ifs at hg with h0
  · simp at hg
  · simp only [pure_ok, Prod.mk.injEq] at hg hp
    subst hp
    have ha := Nat.div_mul_cancel (Nat.gcd_dvd_left amount quote)
    have hq := Nat.div_mul_cancel (Nat.gcd_dvd_right amount quote)
    exact ⟨Nat.pos_of_ne_zero h0, by rw [← hg.1]; exact ha, by rw [← hg.2]; exact hq⟩

theorem new_fits (amount quote : ℕ) (h : 0 < quote) :
    ∃ p, (Price.new amount quote : Outcome ε Price) = .ok p := by
  have hg : Nat.gcd amount quote ≠ 0 := Nat.gcd_ne_zero_right (by omega)
  simp [Price.new, intoCoprimeWith, hg, pure, Except.pure, bind, Except.bind]

theorem new_amount_pos (amount quote : ℕ) (p : Price) (ha : 0 < amount)
    (h : (Price.new amount quote : Outcome ε Price) = .ok p) : 0 < p.amount := by
  obtain ⟨_, h1, _⟩ := new_ok amount quote p h
  rcases Nat.eq_zero_or_pos p.amount with h0 | hp
  · rw [h0] at h1
    omega
  · exact hp

theorem part_reduced (a b g of : ℕ) (hg : 0 < g) :
    Ratio.part ⟨of, a⟩ b = b * g * of / (a * g) := by
  rw [Ratio.part, Nat.mul_right_comm, Nat.mul_div_mul_right _ _ hg]

theorem total_new (amount quote of v : ℕ) (p : Price) (ha : 0 < amount)
    (hp : (Price.new amount quote : Outcome ε Price) = .ok p)
    (h : (total of p : Outcome ε ℕ) = .ok v) : v = quote * of / amount := by
  have hpos := new_amount_pos amount quote p ha hp
  obtain ⟨hg, h1, h2⟩ := new_ok amount quote p hp
  have hv := of_ok ⟨of, p.amount⟩ p.amountQuote v hpos h
  rw [hv, part_reduced _ _ _ of hg, h1, h2]

theorem total_inv_new (amount quote of v : ℕ) (p : Price) (hq : 0 < quote)
    (hp : (Price.new amount quote : Outcome ε Price) = .ok p)
    (h : (total of p.inv : Outcome ε ℕ) = .ok v) : v = amount * of / quote := by
  obtain ⟨hg, h1, h2⟩ := new_ok amount quote p hp
  have hpos : 0 < p.amountQuote := by
    rcases Nat.eq_zero_or_pos p.amountQuote with h0 | hpos
    · rw [h0] at h2
      omega
    · exact hpos
  have hv := of_ok ⟨of, p.amountQuote⟩ p.amount v hpos h
  rw [hv, part_reduced _ _ _ of hg, h1, h2]

end Nolus.Prices
