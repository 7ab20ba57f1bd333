import NolusMoneyMarket.Base.Fallible

/-! # Fractions of amounts

Multiplication of an amount by a ratio with the intermediate product in the
next higher rank, as the finance package does it for coins, durations and
percents. Coins are natural numbers of 128-bit range, percents are numbers of
permille of 32-bit range. -/

set_option autoImplicit false

namespace Nolus.Fraction
open Nolus.Fallible

structure Ratio where
  parts : ℕ
  total : ℕ
deriving DecidableEq, Repr

def amountBits : ℕ := 128
def timeBits : ℕ := 64
def percentBits : ℕ := 32

def hundred : ℕ := 1000

def percent (permille : ℕ) : Ratio := ⟨permille, hundred⟩

variable {ε : Type}

/-- The product of the operands is computed in a type of twice the width, hence
only the quotient may fall out of range. -/
def safeMul (width whole : ℕ) (ratio : Ratio) : Outcome ε ℕ :=
  if ratio.parts = ratio.total then pure whole
  else if ratio.total = 0 then panicking .divisionByZero
  else if whole * ratio.parts / ratio.total < 2 ^ width then
    pure (whole * ratio.parts / ratio.total)
  else panicking (.overflow "unexpected overflow")

def Ratio.of (ratio : Ratio) (whole : ℕ) : Outcome ε ℕ := safeMul amountBits whole ratio

def coinAdd (a b : ℕ) : Outcome ε ℕ :=
  expect (checkedAdd amountBits a b) (.overflow "addition should not overflow with real data")

def percentSafeMul (whole : ℕ) (ratio : Ratio) : Outcome ε ℕ := do
  let res ← safeMul amountBits whole ratio
  if res < 2 ^ percentBits then pure res
  else panicking (.overflow "overflow computing a fraction of permille")

def percentFromRatio (nominator denominator : ℕ) : Outcome ε ℕ :=
  percentSafeMul hundred ⟨nominator, denominator⟩

def Ratio.part (ratio : Ratio) (whole : ℕ) : ℕ := whole * ratio.parts / ratio.total

@[simp] theorem coinAdd_ok (a b c : ℕ) :
    (coinAdd a b : Outcome ε ℕ) = .ok c ↔ a + b < 2 ^ amountBits ∧ a + b = c := by
  simp [coinAdd]

theorem coinAdd_evaluates (a b : ℕ) : Evaluates (coinAdd a b : Outcome ε ℕ) (a + b) := by
  unfold coinAdd checkedAdd
  split_ifs
  · exact .inl rfl
  · exact evaluates_overflow _ _

theorem part_zero (total whole : ℕ) : Ratio.part ⟨0, total⟩ whole = 0 := by
  simp [Ratio.part]

theorem part_le (ratio : Ratio) (whole : ℕ) (h : ratio.parts ≤ ratio.total) :
    ratio.part whole ≤ whole := by
  rcases Nat.eq_zero_or_pos ratio.total with h0 | hpos
  · simp [Ratio.part, h0]
  · exact Nat.div_le_of_le_mul (by rw [Nat.mul_comm]; exact Nat.mul_le_mul_right whole h)

theorem part_mono (ratio : Ratio) (a b : ℕ) (h : a ≤ b) : ratio.part a ≤ ratio.part b :=
  Nat.div_le_div_right (Nat.mul_le_mul_right _ h)

theorem part_add_le (ratio : Ratio) (a b : ℕ) :
    ratio.part a + ratio.part b ≤ ratio.part (a + b) := by
  simp only [Ratio.part, Nat.add_mul]
  exact Nat.div_add_div_le_add_div

theorem safeMul_evaluates (width whole : ℕ) (ratio : Ratio) (ht : 0 < ratio.total) :
    Evaluates (safeMul width whole ratio : Outcome ε ℕ) (ratio.part whole) := by
  unfold safeMul
  split_ifs with h1 h2 h3
  · rw [Ratio.part, h1, Nat.mul_div_cancel whole ht]
    exact evaluates_pure _
  · omega
  · exact evaluates_pure _
  · exact evaluates_overflow _ _

theorem safeMul_ok (width whole v : ℕ) (ratio : Ratio) (ht : 0 < ratio.total)
    (h : (safeMul width whole ratio : Outcome ε ℕ) = .ok v) : v = ratio.part whole :=
  evaluates_ok _ _ _ (safeMul_evaluates width whole ratio ht) h

theorem safeMul_lt (width whole v : ℕ) (ratio : Ratio) (hw : whole < 2 ^ width)
    (h : (safeMul width whole ratio : Outcome ε ℕ) = .ok v) : v < 2 ^ width := by
  unfold safeMul at h
  split_ifs at h with h1 h2 h3
  · rwa [← (pure_ok _ _).1 h]
  · cases h
  · rwa [← (pure_ok _ _).1 h]
  · cases h

theorem safeMul_total_pos (width whole v : ℕ) (ratio : Ratio) (hp : 0 < ratio.parts)
    (h : (safeMul width whole ratio : Outcome ε ℕ) = .ok v) : 0 < ratio.total := by
  apply Nat.pos_of_ne_zero
  intro h0
  have hne : ratio.parts ≠ 0 := by omega
  simp [safeMul, h0, hne] at h

theorem safeMul_fits (width whole : ℕ) (ratio : Ratio) (ht : 0 < ratio.total)
    (h : ratio.part whole < 2 ^ width) :
    (safeMul width whole ratio : Outcome ε ℕ) = .ok (ratio.part whole) := by
  unfold safeMul
  split_ifs with h1 h2 h3
  · rw [Ratio.part, h1, Nat.mul_div_cancel whole ht]
    rfl
  · omega
  · rfl
  · exact absurd h h3

theorem safeMul_unfit (width whole : ℕ) (ratio : Ratio) (ht : 0 < ratio.total)
    (hw : whole < 2 ^ width) (h : 2 ^ width ≤ ratio.part whole) :
    (safeMul width whole ratio : Outcome ε ℕ) = panicking (.overflow "unexpected overflow") := by
  unfold safeMul
  split_ifs with h1 h2 h3
  · rw [Ratio.part, h1, Nat.mul_div_cancel whole ht] at h
    omega
  · omega
  · exact absurd h3 (Nat.not_lt.2 h)
  · rfl

/-- A fraction taken in amounts and then narrowed to a type of fewer bits. -/
theorem narrowed_ok (bits whole v : ℕ) (ratio : Ratio) (cause : Panic) (ht : 0 < ratio.total)
    (hb : bits ≤ amountBits) :
    (safeMul amountBits whole ratio >>= fun res =>
        if res < 2 ^ bits then pure res else panicking cause : Outcome ε ℕ) = .ok v ↔
      ratio.part whole < 2 ^ bits ∧ ratio.part whole = v := by
  have hbits : 2 ^ bits ≤ 2 ^ amountBits := Nat.pow_le_pow_right (by decide) hb
  constructor
  · intro h
    obtain ⟨res, hres, hfits⟩ := (bind_ok _ _ _).1 h
    have heq := safeMul_ok _ _ _ ratio ht hres
    subst heq
    split_ifs at hfits with hlt
    · exact ⟨hlt, (pure_ok _ _).1 hfits⟩
    · exact absurd hfits (panicking_ok _ _)
  · rintro ⟨hlt, rfl⟩
    apply (bind_ok _ _ _).2
    refine ⟨_, safeMul_fits _ _ ratio ht (by omega), ?_⟩
    rw [if_pos hlt]
    rfl

theorem percentFromRatio_ok (nominator denominator v : ℕ) (h : 0 < denominator) :
    (percentFromRatio nominator denominator : Outcome ε ℕ) = .ok v ↔
      Ratio.part ⟨nominator, denominator⟩ hundred < 2 ^ percentBits ∧
        Ratio.part ⟨nominator, denominator⟩ hundred = v :=
  narrowed_ok percentBits hundred v ⟨nominator, denominator⟩ _ h (by decide)

theorem of_evaluates (ratio : Ratio) (whole : ℕ) (ht : 0 < ratio.total) :
    Evaluates (ratio.of whole : Outcome ε ℕ) (ratio.part whole) :=
  safeMul_evaluates amountBits whole ratio ht

theorem of_ok (ratio : Ratio) (whole v : ℕ) (ht : 0 < ratio.total)
    (h : (ratio.of whole : Outcome ε ℕ) = .ok v) : v = ratio.part whole :=
  safeMul_ok _ _ _ _ ht h

theorem percent_total_pos (permille : ℕ) : 0 < (percent permille).total := by
  simp [percent, hundred]

end Nolus.Fraction
