import NolusMoneyMarket.Base.Rounding
import NolusMoneyMarket.Finance.Price

/-! # Accuracy of the price arithmetic

Multiplication by a ratio keeps 127 significant bits of the larger amount of
the exact product. Addition is exact, or rounds each operand down to eighteen
decimal places. The panics of both are guards against prices that do not fit. -/

set_option autoImplicit false

namespace Nolus.PriceAccuracy
open Nolus.Fallible Nolus.Fraction Nolus.Prices Nolus.Rounding

variable {ε : Type}

def value (p : Price) : ℚ := p.amountQuote / p.amount

structure Fits (p : Price) : Prop where
  amount_pos : 0 < p.amount
  amount_fits : p.amount < 2 ^ amountBits
  quote_fits : p.amountQuote < 2 ^ amountBits

structure Held (p : Price) : Prop extends Fits p where
  quote_pos : 0 < p.amountQuote

def plenty : ℚ := 2 ^ 127

def share : ℚ := 1 / plenty + 1 / plenty

def grain : ℚ := 2 / factor

theorem plenty_pos : 0 < plenty := by norm_num [plenty]

theorem share_nonneg : 0 ≤ share := by norm_num [share, plenty]

theorem share_le_one : share ≤ 1 := by norm_num [share, plenty]

theorem grain_nonneg : 0 ≤ grain := by norm_num [grain, factor]

theorem value_nonneg (p : Price) : 0 ≤ value p := by
  rw [value]
  positivity

theorem value_pos (p : Price) (h : Held p) : 0 < value p := by
  have h1 : (0 : ℚ) < p.amountQuote := by exact_mod_cast h.quote_pos
  have h2 : (0 : ℚ) < p.amount := by exact_mod_cast h.amount_pos
  exact div_pos h1 h2

theorem le_iff_value (p q : Price) (hp : Fits p) (hq : Fits q) :
    p ≤ q ↔ value p ≤ value q := by
  have h1 : (0 : ℚ) < p.amount := by exact_mod_cast hp.amount_pos
  have h2 : (0 : ℚ) < q.amount := by exact_mod_cast hq.amount_pos
  rw [le_def, value, value, div_le_div_iff₀ h1 h2, mul_comm (q.amountQuote : ℚ)]
  exact_mod_cast Iff.rfl

/-! ## Canonical forms -/

theorem coprime_ok (a b : ℕ) (r : ℕ × ℕ) (h : (intoCoprimeWith a b : Outcome ε _) = .ok r) :
    0 < Nat.gcd a b ∧ r.1 * Nat.gcd a b = a ∧ r.2 * Nat.gcd a b = b := by
  unfold intoCoprimeWith at h
  split_ifs at h with h0
  · cases h
  · simp only [pure_ok] at h
    subst h
    exact ⟨Nat.pos_of_ne_zero h0, Nat.div_mul_cancel (Nat.gcd_dvd_left a b),
      Nat.div_mul_cancel (Nat.gcd_dvd_right a b)⟩

theorem coprime_fits (a b : ℕ) (h : 0 < a ∨ 0 < b) :
    (intoCoprimeWith a b : Outcome ε _) = .ok (a / Nat.gcd a b, b / Nat.gcd a b) := by
  have hg : Nat.gcd a b ≠ 0 := by
    rcases h with h | h
    · exact Nat.gcd_ne_zero_left (by omega)
    · exact Nat.gcd_ne_zero_right (by omega)
  rw [intoCoprimeWith, if_neg hg]
  rfl

theorem new_total (amount quote : ℕ) (h : 0 < amount ∨ 0 < quote) :
    (Price.new amount quote : Outcome ε Price) =
      .ok ⟨amount / Nat.gcd amount quote, quote / Nat.gcd amount quote⟩ := by
  rw [Price.new, coprime_fits amount quote h]
  rfl

theorem new_value (amount quote : ℕ) (p : Price)
    (h : (Price.new amount quote : Outcome ε Price) = .ok p) : value p = quote / amount := by
  obtain ⟨hg, h1, h2⟩ := new_ok amount quote p h
  have hq : ((Nat.gcd amount quote : ℕ) : ℚ) ≠ 0 := by exact_mod_cast hg.ne'
  have e1 : (p.amount : ℚ) * Nat.gcd amount quote = amount := by exact_mod_cast h1
  have e2 : (p.amountQuote : ℚ) * Nat.gcd amount quote = quote := by exact_mod_cast h2
  rw [value, ← e1, ← e2, mul_div_mul_right _ _ hq]

theorem new_held (amount quote : ℕ) (p : Price) (ha : 0 < amount)
    (ha' : amount < 2 ^ amountBits) (hq' : quote < 2 ^ amountBits)
    (h : (Price.new amount quote : Outcome ε Price) = .ok p) :
    Fits p ∧ (0 < quote → Held p) := by
  obtain ⟨hg, h1, h2⟩ := new_ok amount quote p h
  have hpos := new_amount_pos amount quote p ha h
  have hle1 : p.amount ≤ amount := h1 ▸ Nat.le_mul_of_pos_right _ hg
  have hle2 : p.amountQuote ≤ quote := h2 ▸ Nat.le_mul_of_pos_right _ hg
  have hfits : Fits p := ⟨hpos, by omega, by omega⟩
  refine ⟨hfits, fun hq => ⟨hfits, ?_⟩⟩
  apply Nat.pos_of_ne_zero
  intro h0
  rw [h0, Nat.zero_mul] at h2
  omega

/-! ## Trimming -/

def extraBits (double : ℕ) : ℕ :=
  if double / 2 ^ amountBits = 0 then 0 else Nat.log2 (double / 2 ^ amountBits) + 1

theorem bitsAboveMax_ok (double bits : ℕ)
    (h : (bitsAboveMax double : Outcome ε ℕ) = .ok bits) : bits = extraBits double := by
  unfold bitsAboveMax at h
  simp only at h
  split_ifs at h with h1 h2
  · rw [extraBits, if_pos h2]
    exact ((pure_ok _ _).1 h).symm
  · rw [extraBits, if_neg h2]
    exact ((pure_ok _ _).1 h).symm
  · cases h

theorem bitsAboveMax_fits (double : ℕ) (h : double < 2 ^ amountBits * 2 ^ amountBits) :
    (bitsAboveMax double : Outcome ε ℕ) = .ok (extraBits double) := by
  have hd : double / 2 ^ amountBits < 2 ^ amountBits := Nat.div_lt_of_lt_mul h
  simp only [bitsAboveMax, if_pos hd]
  rfl

/-- The bits above an amount are the least number of bits to drop. -/
theorem extraBits_spec (double : ℕ) :
    double < 2 ^ (extraBits double) * 2 ^ amountBits ∧
      (extraBits double = 0 ∨ 2 ^ (extraBits double) * 2 ^ 127 ≤ double) := by
  have hpos : (0 : ℕ) < 2 ^ amountBits := Nat.two_pow_pos _
  unfold extraBits
  split_ifs with h0
  · have hlt : double < 2 ^ amountBits := (Nat.div_eq_zero_iff_lt hpos).1 h0
    exact ⟨by omega, .inl rfl⟩
  · have hlog : 2 ^ (Nat.log2 (double / 2 ^ amountBits)) ≤ double / 2 ^ amountBits :=
      Nat.log2_self_le h0
    have hlog' : double / 2 ^ amountBits < 2 ^ (Nat.log2 (double / 2 ^ amountBits) + 1) :=
      Nat.lt_log2_self
    constructor
    · exact (Nat.div_lt_iff_lt_mul hpos).1 hlog'
    · right
      have h1 := (Nat.le_div_iff_mul_le hpos).1 hlog
      calc 2 ^ (Nat.log2 (double / 2 ^ amountBits) + 1) * 2 ^ 127
          = 2 ^ (Nat.log2 (double / 2 ^ amountBits)) * 2 ^ amountBits := by
            simp only [amountBits, Nat.pow_succ]
            ring
        _ ≤ double := h1

theorem trimDown_ok (double bits v : ℕ) (h : (trimDown double bits : Outcome ε ℕ) = .ok v) :
    v = double / 2 ^ bits ∧ 0 < v ∧ v < 2 ^ amountBits := by
  unfold trimDown at h
  simp only at h
  split_ifs at h with h1 h2
  · simp only [pure_ok] at h
    subst h
    exact ⟨rfl, h2, h1⟩
  · cases h
  · cases h

theorem trimDown_fits (double bits : ℕ) (h1 : 2 ^ bits ≤ double)
    (h2 : double < 2 ^ bits * 2 ^ amountBits) :
    (trimDown double bits : Outcome ε ℕ) = .ok (double / 2 ^ bits) := by
  have hpos : 0 < double / 2 ^ bits := Nat.div_pos h1 (Nat.two_pow_pos _)
  have hlt : double / 2 ^ bits < 2 ^ amountBits := Nat.div_lt_of_lt_mul h2
  simp only [trimDown, if_pos hlt, if_pos hpos]
  rfl

/-! ## Multiplication -/

def product (p : Price) (r : Ratio) : ℚ := value p * (r.parts / r.total)

theorem product_reduced (p : Price) (r : Ratio) (a n q t g1 g2 : ℕ) (hg1 : 0 < g1) (hg2 : 0 < g2)
    (h1 : a * g1 = p.amount) (h2 : n * g1 = r.parts) (h3 : q * g2 = p.amountQuote)
    (h4 : t * g2 = r.total) : product p r = ((q * n : ℕ) : ℚ) / (a * t : ℕ) := by
  have e1 : (g1 : ℚ) ≠ 0 := by exact_mod_cast hg1.ne'
  have e2 : (g2 : ℚ) ≠ 0 := by exact_mod_cast hg2.ne'
  rw [product, value, ← h1, ← h2, ← h3, ← h4, div_mul_div_comm]
  push_cast
  rw [show (q : ℚ) * g2 * (n * g1) = q * n * (g1 * g2) by ring,
    show (a : ℚ) * g1 * (t * g2) = a * t * (g1 * g2) by ring,
    mul_div_mul_right _ _ (mul_ne_zero e1 e2)]

theorem trimmed_plenty (a b k : ℕ) (hk : k = max (extraBits a) (extraBits b)) :
    2 ^ k = 1 ∨ plenty ≤ ((b / 2 ^ k : ℕ) : ℚ) ∨ plenty ≤ ((a / 2 ^ k : ℕ) : ℚ) := by
  have hspec : ∀ d, extraBits d = k → k ≠ 0 → plenty ≤ ((d / 2 ^ k : ℕ) : ℚ) := by
    intro d hd h0
    rcases (extraBits_spec d).2 with hz | hz
    · omega
    · rw [hd, Nat.mul_comm] at hz
      have hle := (Nat.le_div_iff_mul_le (Nat.two_pow_pos k)).2 hz
      rw [plenty]
      exact_mod_cast hle
  rcases Nat.eq_zero_or_pos k with h0 | hpos
  · left
    rw [h0]
    rfl
  · right
    rcases Nat.le_total (extraBits a) (extraBits b) with hle | hle
    · left
      exact hspec b (by omega) (by omega)
    · right
      exact hspec a (by omega) (by omega)

theorem lossyMul_ok (p q : Price) (r : Ratio) (h : (p.lossyMul r : Outcome ε Price) = .ok q) :
    Held q ∧ below (1 / plenty) 0 (product p r) ≤ value q ∧
      value q ≤ above share (product p r) := by
  simp only [Price.lossyMul, bind_ok] at h
  obtain ⟨⟨a, n⟩, h1, ⟨q', t⟩, h2, e1, he1, e2, he2, v1, hv1, v2, hv2, hnew⟩ := h
  obtain ⟨hg1, ha, hn⟩ := coprime_ok _ _ _ h1
  obtain ⟨hg2, hq, ht⟩ := coprime_ok _ _ _ h2
  rw [bitsAboveMax_ok _ _ he1, bitsAboveMax_ok _ _ he2] at hv1 hv2
  obtain ⟨hd1, hp1, hb1⟩ := trimDown_ok _ _ _ hv1
  obtain ⟨hd2, hp2, hb2⟩ := trimDown_ok _ _ _ hv2
  have hx := product_reduced p r a n q' t _ _ hg1 hg2 ha hn hq ht
  have hval := new_value v1 v2 q hnew
  have hheld := (new_held v1 v2 q hp1 hb1 hb2 hnew).2 hp2
  have hroom := trimmed_plenty (a * t) (q' * n) _ rfl
  set k := max (extraBits (a * t)) (extraBits (q' * n)) with hk
  rw [hd1, hd2] at hval
  rw [hd1] at hp1
  obtain ⟨hlow, hup⟩ := dropped_bits (q' * n) (a * t) (2 ^ k) plenty (product p r) (value q)
    plenty_pos hp1 hroom hx hval
  have hx0 : 0 ≤ product p r := hx ▸ by positivity
  have htwice : value q ≤ 2 * product p r := by
    have hle := truncated_le (q' * n) (a * t) (2 ^ k) hp1
    rw [← hx, ← hval] at hle
    have hone : (1 : ℚ) / ((a * t / 2 ^ k : ℕ) : ℚ) ≤ 1 := by
      rw [div_le_one (by exact_mod_cast hp1)]
      exact_mod_cast hp1
    nlinarith
  exact ⟨hheld, hlow, dropped_bits_above plenty _ _ plenty_pos hx0 htwice hup⟩

/-- Up to the trimming the multiplication of amounts does not fail. -/
theorem lossyMul_trims (p : Price) (r : Ratio) (hp : Fits p) (ht : 0 < r.total)
    (hr : r.parts < 2 ^ amountBits) (hr' : r.total < 2 ^ amountBits) :
    ∃ den num : ℕ, 0 < den ∧ product p r = (num : ℚ) / den ∧
      (p.lossyMul r : Outcome ε Price) = (do
        let v ← trimDown den (max (extraBits den) (extraBits num))
        let v' ← trimDown num (max (extraBits den) (extraBits num))
        Price.new v v') := by
  have h1 := @coprime_fits ε p.amount r.parts (.inl hp.amount_pos)
  have h2 := @coprime_fits ε p.amountQuote r.total (.inr ht)
  obtain ⟨hg1, ha, hn⟩ := coprime_ok _ _ _ h1
  obtain ⟨hg2, hq, htt⟩ := coprime_ok _ _ _ h2
  simp only at ha hn hq htt
  set g1 := Nat.gcd p.amount r.parts
  set g2 := Nat.gcd p.amountQuote r.total
  have hden : 0 < p.amount / g1 * (r.total / g2) := by
    apply Nat.mul_pos
    · exact Nat.pos_of_ne_zero fun h => by
        rw [h] at ha
        have := hp.amount_pos
        omega
    · exact Nat.pos_of_ne_zero fun h => by
        rw [h] at htt
        omega
  have hw1 : p.amount / g1 * (r.total / g2) < 2 ^ amountBits * 2 ^ amountBits :=
    Nat.mul_lt_mul'' (lt_of_le_of_lt (Nat.div_le_self _ _) hp.amount_fits)
      (lt_of_le_of_lt (Nat.div_le_self _ _) hr')
  have hw2 : p.amountQuote / g2 * (r.parts / g1) < 2 ^ amountBits * 2 ^ amountBits :=
    Nat.mul_lt_mul'' (lt_of_le_of_lt (Nat.div_le_self _ _) hp.quote_fits)
      (lt_of_le_of_lt (Nat.div_le_self _ _) hr)
  have hx := product_reduced p r _ _ _ _ g1 g2 hg1 hg2 ha hn hq htt
  refine ⟨_, _, hden, hx, ?_⟩
  rw [Price.lossyMul, h1, h2]
  show (bitsAboveMax _ >>= _) = _
  rw [bitsAboveMax_fits _ hw1]
  show (bitsAboveMax _ >>= _) = _
  rw [bitsAboveMax_fits _ hw2]
  rfl

/-- The guards of the price arithmetic against vanishing and huge prices. -/
inductive Guard : Fault ε → Prop
  | vanishing : Guard (.panic (.assertion "price overflow during multiplication"))
  | huge : Guard (.panic (.overflow "should not observe huge prices"))
  | total : Guard (.panic (.overflow "unexpected overflow"))

theorem trimDown_faults (double bits : ℕ) (h : double < 2 ^ bits * 2 ^ amountBits) :
    FaultsIn Guard (trimDown double bits : Outcome ε ℕ) := by
  have hlt : double / 2 ^ bits < 2 ^ amountBits := Nat.div_lt_of_lt_mul h
  simp only [trimDown, if_pos hlt]
  split_ifs
  · exact faultsIn_pure _ _
  · exact faultsIn_error _ _ .vanishing

theorem new_faults (amount quote : ℕ) (h : 0 < amount) :
    FaultsIn Guard (Price.new amount quote : Outcome ε Price) := by
  rw [new_total amount quote (.inl h)]
  exact faultsIn_ok _ _

theorem extraBits_max (a b : ℕ) :
    a < 2 ^ max (extraBits a) (extraBits b) * 2 ^ amountBits ∧
      b < 2 ^ max (extraBits a) (extraBits b) * 2 ^ amountBits := by
  have hmono : ∀ d k, extraBits d ≤ k → d < 2 ^ k * 2 ^ amountBits := by
    intro d k hk
    exact lt_of_lt_of_le (extraBits_spec d).1
      (Nat.mul_le_mul_right _ (Nat.pow_le_pow_right (by omega) hk))
  exact ⟨hmono a _ (Nat.le_max_left _ _), hmono b _ (Nat.le_max_right _ _)⟩

theorem lossyMul_faults (p : Price) (r : Ratio) (hp : Fits p) (ht : 0 < r.total)
    (hr : r.parts < 2 ^ amountBits) (hr' : r.total < 2 ^ amountBits) :
    FaultsIn Guard (p.lossyMul r : Outcome ε Price) := by
  obtain ⟨den, num, _, _, heq⟩ := @lossyMul_trims ε p r hp ht hr hr'
  obtain ⟨h1, h2⟩ := extraBits_max den num
  rw [heq]
  apply faultsIn_bind _ _ _ (trimDown_faults _ _ h1)
  intro v hv
  apply faultsIn_bind _ _ _ (trimDown_faults _ _ h2)
  intro v' _
  exact new_faults v v' (trimDown_ok _ _ _ hv).2.1

/-- A product that is neither tiny nor huge is computed. -/
theorem lossyMul_fits (p : Price) (r : Ratio) (hp : Fits p) (ht : 0 < r.total)
    (hr : r.parts < 2 ^ amountBits) (hr' : r.total < 2 ^ amountBits)
    (hlow : 1 / 2 ^ 126 ≤ product p r) (hup : product p r ≤ 2 ^ 126) :
    ∃ q, (p.lossyMul r : Outcome ε Price) = .ok q := by
  obtain ⟨den, num, hden, hx, heq⟩ := @lossyMul_trims ε p r hp ht hr hr'
  have hdq : (0 : ℚ) < den := by exact_mod_cast hden
  have h1 : den ≤ num * 2 ^ 126 := by
    rw [hx, div_le_div_iff₀ (by positivity) hdq, one_mul] at hlow
    exact_mod_cast hlow
  have h2 : num ≤ 2 ^ 126 * den := by
    rw [hx, div_le_iff₀ hdq] at hup
    exact_mod_cast hup
  obtain ⟨hw1, hw2⟩ := extraBits_max den num
  set k := max (extraBits den) (extraBits num) with hk
  have hroom : 2 ^ k ≤ den ∧ 2 ^ k ≤ num := by
    rcases Nat.eq_zero_or_pos k with h0 | hpos
    · rw [h0]
      omega
    · rcases Nat.le_total (extraBits den) (extraBits num) with hle | hle
      · have hs := (extraBits_spec num).2
        rw [show extraBits num = k by omega] at hs
        have hs' : 2 ^ k * 2 ^ 127 ≤ num := by omega
        omega
      · have hs := (extraBits_spec den).2
        rw [show extraBits den = k by omega] at hs
        have hs' : 2 ^ k * 2 ^ 127 ≤ den := by omega
        omega
  rw [heq, trimDown_fits _ _ hroom.1 hw1]
  show ∃ q, (trimDown num k >>= _) = _
  rw [trimDown_fits _ _ hroom.2 hw2]
  have hpos : 0 < den / 2 ^ k := Nat.div_pos hroom.1 (Nat.two_pow_pos _)
  exact ⟨_, new_total _ _ (.inl hpos)⟩

/-! ## Addition -/

theorem sum_over_common (b d a1 c1 g : ℚ) (ha : a1 ≠ 0) (hc : c1 ≠ 0) (hg : g ≠ 0) :
    (b * c1 + d * a1) / (a1 * c1 * g) = b / (a1 * g) + d / (c1 * g) := by
  field_simp

theorem lcm_parts (a b : ℕ) :
    Nat.lcm a b = a / Nat.gcd a b * (b / Nat.gcd a b) * Nat.gcd a b := by
  rw [mul_assoc, Nat.div_mul_cancel (Nat.gcd_dvd_right a b),
    Nat.div_mul_right_comm (Nat.gcd_dvd_left a b), Nat.lcm_eq_mul_div]

/-- The sum of two values over the least common denominator. -/
theorem sum_over_lcm (p q : Price) (hp : 0 < p.amount) (hq : 0 < q.amount) :
    ((p.amountQuote * (q.amount / Nat.gcd p.amount q.amount) +
        q.amountQuote * (p.amount / Nat.gcd p.amount q.amount) : ℕ) : ℚ) /
      (Nat.lcm p.amount q.amount : ℕ) = value p + value q := by
  have hg : 0 < Nat.gcd p.amount q.amount := Nat.gcd_pos_of_pos_left _ hp
  have ha := Nat.div_mul_cancel (Nat.gcd_dvd_left p.amount q.amount)
  have hc := Nat.div_mul_cancel (Nat.gcd_dvd_right p.amount q.amount)
  have hden := lcm_parts p.amount q.amount
  set g := Nat.gcd p.amount q.amount
  set a1 := p.amount / g
  set c1 := q.amount / g
  have ha0 : a1 ≠ 0 := fun h => by
    rw [h] at ha
    omega
  have hc0 : c1 ≠ 0 := fun h => by
    rw [h] at hc
    omega
  rw [hden, value, value, ← ha, ← hc]
  push_cast
  apply sum_over_common
  · exact_mod_cast ha0
  · exact_mod_cast hc0
  · exact_mod_cast hg.ne'

theorem checked_sum (width a b c d : ℕ) :
    (do let x ← checkedMul width a b
        let y ← checkedMul width c d
        Fallible.checkedAdd width x y) =
      if a * b + c * d < 2 ^ width then some (a * b + c * d) else none := by
  by_cases hs : a * b + c * d < 2 ^ width
  · have h1 : a * b < 2 ^ width := by omega
    have h2 : c * d < 2 ^ width := by omega
    simp [checkedMul, Fallible.checkedAdd, h1, h2, hs]
  · by_cases h1 : a * b < 2 ^ width <;> by_cases h2 : c * d < 2 ^ width <;>
      simp [checkedMul, Fallible.checkedAdd, h1, h2, hs]

theorem checked_product (width a b c : ℕ) (hc : 0 < c) :
    (do let x ← checkedMul width a b
        checkedMul width x c) =
      if a * b * c < 2 ^ width then some (a * b * c) else none := by
  have hle : a * b ≤ a * b * c := Nat.le_mul_of_pos_right _ hc
  unfold checkedMul
  split_ifs with h1 h2 h2
  · simp [h2]
  · simp [h2]
  · omega
  · rfl

/-- The terms of the sum over the least common denominator are amounts. -/
def SumFits (p q : Price) : Prop :=
  p.amountQuote * (q.amount / Nat.gcd p.amount q.amount) +
      q.amountQuote * (p.amount / Nat.gcd p.amount q.amount) < 2 ^ amountBits ∧
    Nat.lcm p.amount q.amount < 2 ^ amountBits

instance (p q : Price) : Decidable (SumFits p q) := inferInstanceAs (Decidable (_ ∧ _))

/-- The sum is made over the least common denominator, when its terms fit. -/
theorem checkedAdd_eq (p q : Price) (hp : 0 < p.amount) :
    (p.checkedAdd q : Outcome ε _) =
      if SumFits p q then (do
        let price ← Price.new (Nat.lcm p.amount q.amount)
          (p.amountQuote * (q.amount / Nat.gcd p.amount q.amount) +
            q.amountQuote * (p.amount / Nat.gcd p.amount q.amount))
        pure (some price))
      else pure none := by
  have h1 := @coprime_fits ε p.amount q.amount (.inl hp)
  obtain ⟨hg, ha, hc⟩ := coprime_ok _ _ _ h1
  have hden := lcm_parts p.amount q.amount
  simp only at ha hc
  set g := Nat.gcd p.amount q.amount
  set a1 := p.amount / g
  set c1 := q.amount / g
  have ha0 : 0 < a1 := Nat.pos_of_ne_zero fun h => by
    rw [h] at ha
    omega
  have hgcd : p.amount / a1 = g := Nat.div_eq_of_eq_mul_right ha0 ha.symm
  have hfits : SumFits p q ↔ p.amountQuote * c1 + q.amountQuote * a1 < 2 ^ amountBits ∧
      a1 * c1 * g < 2 ^ amountBits := by
    rw [← hden]
    rfl
  rw [Price.checkedAdd, h1]
  show (if a1 = 0 then _ else _) = _
  rw [if_neg ha0.ne', hden]
  simp only [hgcd, checked_sum, checked_product _ _ _ _ hg, hfits]
  by_cases hsum : p.amountQuote * c1 + q.amountQuote * a1 < 2 ^ amountBits <;>
    by_cases hfit : a1 * c1 * g < 2 ^ amountBits <;> simp [hsum, hfit]

theorem checkedAdd_spec (p q : Price) (hp : 0 < p.amount) (hq : 0 < q.amount) :
    ∃ o, (p.checkedAdd q : Outcome ε _) = .ok o ∧ (o.isSome ↔ SumFits p q) ∧
      ∀ r, o = some r → Fits r ∧ value r = value p + value q := by
  rw [checkedAdd_eq p q hp]
  split_ifs with hfits
  · have hpos : 0 < Nat.lcm p.amount q.amount := Nat.lcm_pos hp hq
    have hnew := @new_total ε _ (p.amountQuote * (q.amount / Nat.gcd p.amount q.amount) +
      q.amountQuote * (p.amount / Nat.gcd p.amount q.amount)) (.inl hpos)
    refine ⟨some _, by simp only [hnew]; rfl, by simp [hfits], ?_⟩
    intro r hr
    cases hr
    refine ⟨(new_held _ _ _ hpos hfits.2 hfits.1 hnew).1, ?_⟩
    rw [new_value _ _ _ hnew]
    exact sum_over_lcm p q hp hq
  · exact ⟨none, rfl, by simp [hfits], by simp⟩

def units (p : Price) : ℕ := Ratio.part ⟨factor, p.amount⟩ p.amountQuote

theorem units_bounds (p : Price) (hp : 0 < p.amount) :
    (units p : ℚ) ≤ value p * factor ∧ value p * factor < units p + 1 := by
  have hq : (0 : ℚ) < p.amount := by exact_mod_cast hp
  obtain ⟨h1, h2⟩ := div_floor_bounds (p.amountQuote * factor) p.amount hp
  rw [units, Ratio.part, value, div_mul_eq_mul_div, le_div_iff₀ hq, div_lt_iff₀ hq]
  push_cast at h1 h2 ⊢
  exact ⟨h1, h2⟩

theorem factor_pos : (0 : ℚ) < factor := by norm_num [factor]

theorem lossyAdd_value (p q r : Price) (hp : 0 < p.amount) (hq : 0 < q.amount)
    (h : (p.lossyAdd q : Outcome ε _) = .ok (some r)) :
    Fits r ∧ value r = ((units p + units q : ℕ) : ℚ) / factor := by
  simp only [Price.lossyAdd, bind_ok] at h
  obtain ⟨v, hv, w, hw, hr⟩ := h
  have hv' : v = units p := of_ok ⟨factor, p.amount⟩ p.amountQuote v hp hv
  have hw' : w = units q := of_ok ⟨factor, q.amount⟩ q.amountQuote w hq hw
  have hfits : factor < 2 ^ amountBits := by norm_num [factor, amountBits]
  split at hr
  · rename_i t ht
    simp only [Fallible.checkedAdd_some] at ht
    obtain ⟨hb, rfl⟩ := ht
    simp only [bind_ok, pure_ok, Option.some.injEq] at hr
    obtain ⟨r', hr', rfl⟩ := hr
    constructor
    · exact (new_held _ _ _ (by norm_num [factor]) hfits hb hr').1
    · rw [new_value _ _ _ hr', hv', hw']
  · cases hr

/-- Rounding down both terms of a sum costs a grain at most. -/
theorem rounded_sum (p q : Price) (hp : 0 < p.amount) (hq : 0 < q.amount) :
    value p + value q - grain ≤ ((units p + units q : ℕ) : ℚ) / factor ∧
      ((units p + units q : ℕ) : ℚ) / factor ≤ value p + value q ∧
      (1 / factor ≤ value p → 1 / factor ≤ ((units p + units q : ℕ) : ℚ) / factor) := by
  obtain ⟨hv1, hv2⟩ := units_bounds p hp
  obtain ⟨hw1, hw2⟩ := units_bounds q hq
  have hf := factor_pos
  push_cast
  refine ⟨?_, ?_, ?_⟩
  · rw [le_div_iff₀ hf, grain, sub_mul, div_mul_cancel₀ _ hf.ne']
    linarith
  · rw [div_le_iff₀ hf]
    linarith
  · intro h1
    rw [div_le_iff₀ hf] at h1
    have hone : 1 ≤ units p := by
      have hlt : (0 : ℚ) < units p := by linarith
      have hlt' : 0 < units p := by exact_mod_cast hlt
      omega
    have hone' : (1 : ℚ) ≤ units p := by exact_mod_cast hone
    apply div_le_div_of_nonneg_right _ hf.le
    have hw0 : (0 : ℚ) ≤ units q := Nat.cast_nonneg _
    linarith

/-- A sum is exact, or both terms are rounded down when the exact sum does not fit. -/
theorem add_value (p q r : Price) (hp : 0 < p.amount) (hq : 0 < q.amount)
    (h : (p.add q : Outcome ε Price) = .ok r) :
    Fits r ∧ ((SumFits p q ∧ value r = value p + value q) ∨
      (¬SumFits p q ∧ value r = ((units p + units q : ℕ) : ℚ) / factor)) := by
  obtain ⟨o, ho, hsome, hspec⟩ := @checkedAdd_spec ε p q hp hq
  rw [Price.add, ho] at h
  cases o with
  | some r' =>
    have hr : r' = r := (pure_ok _ _).1 h
    subst hr
    obtain ⟨hf, hv⟩ := hspec r' rfl
    exact ⟨hf, .inl ⟨hsome.1 rfl, hv⟩⟩
  | none =>
    change (p.lossyAdd q >>= fun lossy => expect lossy _) = _ at h
    simp only [bind_ok, expect_ok] at h
    obtain ⟨o, ho, rfl⟩ := h
    obtain ⟨hf, hv⟩ := lossyAdd_value p q r hp hq ho
    exact ⟨hf, .inr ⟨fun hs => by simpa using hsome.2 hs, hv⟩⟩

/-- A sum is below its first term exactly when it is rounded, the term is rounded down and
the second one vanishes. -/
theorem add_not_below (p q r : Price) (hp : 0 < p.amount) (hq : 0 < q.amount)
    (h : (p.add q : Outcome ε Price) = .ok r) :
    value p ≤ value r ↔
      SumFits p q ∨ p.amount ∣ p.amountQuote * factor ∨ q.amount ≤ q.amountQuote * factor := by
  have hf := factor_pos
  have hpq : (0 : ℚ) < p.amount := by exact_mod_cast hp
  obtain ⟨hv1, hv2⟩ := units_bounds p hp
  rcases (add_value p q r hp hq h).2 with ⟨hs, hv⟩ | ⟨hs, hv⟩
  · have hq0 := value_nonneg q
    exact ⟨fun _ => .inl hs, fun _ => by linarith⟩
  rw [hv, le_div_iff₀ hf]
  push_cast
  constructor
  · intro hle
    right
    rcases Nat.eq_zero_or_pos (units q) with h0 | hpos
    · left
      rw [h0, Nat.cast_zero, add_zero] at hle
      have heq : value p * factor = units p := le_antisymm hle hv1
      rw [value, div_mul_eq_mul_div, div_eq_iff hpq.ne'] at heq
      have hnat : p.amountQuote * factor = units p * p.amount := by exact_mod_cast heq
      exact ⟨units p, by rw [hnat, Nat.mul_comm]⟩
    · right
      rw [units, Ratio.part] at hpos
      exact (Nat.div_pos_iff.1 hpos).2
  · intro hcond
    rcases hcond with hcond | hcond | hcond
    · exact absurd hcond hs
    · have hunits : (units p : ℚ) = value p * factor := by
        rw [units, Ratio.part, Nat.cast_div hcond hpq.ne', value, div_mul_eq_mul_div]
        push_cast
        rfl
      have hw0 : (0 : ℚ) ≤ units q := Nat.cast_nonneg _
      linarith
    · have hone : 1 ≤ units q := Nat.div_pos hcond hq
      have hone' : (1 : ℚ) ≤ units q := by exact_mod_cast hone
      linarith

theorem add_ok (p q r : Price) (hp : 0 < p.amount) (hq : 0 < q.amount)
    (h : (p.add q : Outcome ε Price) = .ok r) :
    Fits r ∧ value p + value q - grain ≤ value r ∧ value r ≤ value p + value q ∧
      (1 / factor ≤ value p → 1 / factor ≤ value r) := by
  obtain ⟨hf, hsum⟩ := add_value p q r hp hq h
  refine ⟨hf, ?_⟩
  rcases hsum with ⟨_, hv⟩ | ⟨_, hv⟩
  · have hg := grain_nonneg
    have hq0 := value_nonneg q
    exact ⟨by linarith, hv.le, fun h1 => by linarith⟩
  · rw [hv]
    exact rounded_sum p q hp hq

theorem total_faults (p : Price) (hp : Fits p) :
    FaultsIn Guard (total factor p : Outcome ε ℕ) := by
  unfold total Ratio.of safeMul
  split_ifs with h1 h2
  · exact faultsIn_pure _ _
  · exact absurd h2 hp.amount_pos.ne'
  · exact faultsIn_pure _ _
  · exact faultsIn_error _ _ .total

theorem add_faults (p q : Price) (hp : Fits p) (hq : Fits q) :
    FaultsIn Guard (p.add q : Outcome ε Price) := by
  obtain ⟨o, ho, -, -⟩ := @checkedAdd_spec ε p q hp.amount_pos hq.amount_pos
  rw [Price.add, ho]
  cases o with
  | some r => exact faultsIn_pure _ _
  | none =>
    change FaultsIn Guard (p.lossyAdd q >>= fun lossy => expect lossy _)
    apply faultsIn_bind
    · apply faultsIn_bind _ _ _ (total_faults p hp)
      intro v _
      apply faultsIn_bind _ _ _ (total_faults q hq)
      intro w _
      split
      · apply faultsIn_bind _ _ _ (new_faults _ _ (by norm_num [factor]))
        intro r _
        exact faultsIn_pure _ _
      · exact faultsIn_pure _ _
    · intro lossy _
      cases lossy with
      | none => exact faultsIn_error _ _ .huge
      | some r => exact faultsIn_ok _ _

theorem total_fits (p : Price) (hp : Fits p) (h : value p * factor < 2 ^ 128) :
    (total factor p : Outcome ε ℕ) = .ok (units p) := by
  apply safeMul_fits _ _ _ hp.amount_pos
  have hq : (0 : ℚ) < p.amount := by exact_mod_cast hp.amount_pos
  rw [value, div_mul_eq_mul_div, div_lt_iff₀ hq] at h
  have hlt : p.amountQuote * factor < 2 ^ 128 * p.amount := by exact_mod_cast h
  exact (Nat.div_lt_iff_lt_mul hp.amount_pos).2 hlt

theorem lossyAdd_fits (p q : Price) (hp : Fits p) (hq : Fits q)
    (h : (value p + value q) * factor < 2 ^ 128) :
    ∃ r, (p.lossyAdd q : Outcome ε _) = .ok (some r) := by
  have hf := factor_pos
  have hp0 := mul_nonneg (value_nonneg p) hf.le
  have hq0 := mul_nonneg (value_nonneg q) hf.le
  have h1 := @total_fits ε p hp (by linarith)
  have h2 := @total_fits ε q hq (by linarith)
  obtain ⟨hv, _⟩ := units_bounds p hp.amount_pos
  obtain ⟨hw, _⟩ := units_bounds q hq.amount_pos
  set v := units p
  set w := units q
  have hsum : v + w < 2 ^ amountBits := by
    have hlt : ((v + w : ℕ) : ℚ) < 2 ^ 128 := by
      push_cast
      linarith
    exact_mod_cast hlt
  have hnew := @new_total ε factor (v + w) (.inl (by norm_num [factor]))
  use ⟨factor / Nat.gcd factor (v + w), (v + w) / Nat.gcd factor (v + w)⟩
  simp only [Price.lossyAdd, bind_ok]
  refine ⟨v, h1, w, h2, ?_⟩
  rw [Fallible.checkedAdd, if_pos hsum]
  exact (bind_ok _ _ _).2 ⟨_, hnew, rfl⟩

theorem add_fits (p q : Price) (hp : Fits p) (hq : Fits q)
    (h : (value p + value q) * factor < 2 ^ 128) :
    ∃ r, (p.add q : Outcome ε Price) = .ok r := by
  obtain ⟨o, ho, -, -⟩ := @checkedAdd_spec ε p q hp.amount_pos hq.amount_pos
  rw [Price.add, ho]
  cases o with
  | some r => exact ⟨r, rfl⟩
  | none =>
    obtain ⟨r, hr⟩ := @lossyAdd_fits ε p q hp hq h
    use r
    show ((p.lossyAdd q >>= fun lossy => expect lossy _) : Outcome ε Price) = _
    rw [hr]
    rfl

end Nolus.PriceAccuracy
