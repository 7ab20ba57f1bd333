import NolusMoneyMarket.Finance.Accuracy

/-! # Products of prices

The product of two prices is in canonical form. It is the exact one when the
amounts before their last reduction fit, otherwise the low bits are dropped.
Products over a chain of prices are made from either of its ends. -/

set_option autoImplicit false

namespace Nolus.PriceProducts
open Nolus.Fallible Nolus.Fraction Nolus.Prices Nolus.PriceAccuracy

variable {ε : Type}

structure Canonical (p : Price) : Prop where
  amount_pos : 0 < p.amount
  quote_pos : 0 < p.amountQuote
  coprime : Nat.Coprime p.amount p.amountQuote

structure Reduced (p : Price) : Prop extends Held p where
  coprime : Nat.Coprime p.amount p.amountQuote

theorem reduced_canonical (p : Price) (h : Reduced p) : Canonical p :=
  ⟨h.amount_pos, h.quote_pos, h.coprime⟩

theorem identity_reduced : Reduced Price.identity where
  amount_pos := by decide
  amount_fits := by norm_num [Price.identity, amountBits]
  quote_fits := by norm_num [Price.identity, amountBits]
  quote_pos := by decide
  coprime := by decide

theorem new_coprime (amount quote : ℕ) (p : Price)
    (h : (Price.new amount quote : Outcome ε Price) = .ok p) :
    Nat.Coprime p.amount p.amountQuote := by
  have hg := (new_ok amount quote p h).1
  have hpos : 0 < amount ∨ 0 < quote := by
    by_contra hno
    have ha : amount = 0 := by omega
    have hq : quote = 0 := by omega
    rw [ha, hq] at hg
    simp at hg
  rw [new_total amount quote hpos] at h
  obtain rfl := Except.ok.inj h
  exact Nat.coprime_div_gcd_div_gcd hg

theorem new_reduced (p : Price) (h : Reduced p) :
    (Price.new p.amount p.amountQuote : Outcome ε Price) = .ok p := by
  rw [new_total _ _ (.inl h.amount_pos), h.coprime, Nat.div_one, Nat.div_one]

theorem lossyMul_reduced (p r : Price) (ratio : Ratio)
    (h : (p.lossyMul ratio : Outcome ε Price) = .ok r) : Reduced r := by
  have hheld := (lossyMul_ok p r ratio h).1
  simp only [Price.lossyMul, bind_ok] at h
  obtain ⟨_, _, _, _, _, _, _, _, v, _, v', _, hnew⟩ := h
  exact ⟨hheld, new_coprime v v' r hnew⟩

theorem mul_reduced (p q r : Price) (h : (p.mul q : Outcome ε Price) = .ok r) : Reduced r := by
  obtain ⟨price, _, hr⟩ := (bind_ok _ _ _).1 h
  exact lossyMul_reduced price r _ hr

/-- Prices in canonical form are equal when their values are. -/
theorem canonical_ext (p q : Price) (hp : Canonical p) (hq : Canonical q) (h : value p = value q) :
    p = q := by
  have h1 : (p.amount : ℚ) ≠ 0 := by exact_mod_cast hp.amount_pos.ne'
  have h2 : (q.amount : ℚ) ≠ 0 := by exact_mod_cast hq.amount_pos.ne'
  rw [value, value, div_eq_div_iff h1 h2] at h
  have hcross : p.amountQuote * q.amount = q.amountQuote * p.amount := by exact_mod_cast h
  have hd1 : p.amount ∣ q.amount := by
    apply hp.coprime.dvd_of_dvd_mul_left
    rw [hcross]
    exact Dvd.intro_left _ rfl
  have hd2 : q.amount ∣ p.amount := by
    apply hq.coprime.dvd_of_dvd_mul_left
    rw [← hcross]
    exact Dvd.intro_left _ rfl
  have ha : p.amount = q.amount := Nat.dvd_antisymm hd1 hd2
  rw [ha] at hcross
  have hquote := Nat.eq_of_mul_eq_mul_right hq.amount_pos hcross
  cases p
  cases q
  simp_all

theorem checkedAdd_coprime (p q r : Price)
    (h : (p.checkedAdd q : Outcome ε _) = .ok (some r)) :
    Nat.Coprime r.amount r.amountQuote := by
  obtain ⟨⟨a1, c1⟩, _, hsum⟩ := (bind_ok _ _ _).1 h
  simp only at hsum
  split_ifs at hsum with h0
  · exact absurd hsum (panicking_ok _ _)
  · split at hsum
    · next quote amount _ _ =>
      obtain ⟨price, hnew, hsome⟩ := (bind_ok _ _ _).1 hsum
      obtain rfl := Option.some.inj ((pure_ok _ _).1 hsome)
      exact new_coprime amount quote price hnew
    · cases (pure_ok _ _).1 hsum

theorem lossyAdd_coprime (p q r : Price) (h : (p.lossyAdd q : Outcome ε _) = .ok (some r)) :
    Nat.Coprime r.amount r.amountQuote := by
  simp only [Price.lossyAdd, bind_ok] at h
  obtain ⟨_, _, _, _, hsum⟩ := h
  split at hsum
  · next quote _ =>
    obtain ⟨price, hnew, hsome⟩ := (bind_ok _ _ _).1 hsum
    obtain rfl := Option.some.inj ((pure_ok _ _).1 hsome)
    exact new_coprime factor quote price hnew
  · cases (pure_ok _ _).1 hsum

theorem add_coprime (p q r : Price) (h : (p.add q : Outcome ε Price) = .ok r) :
    Nat.Coprime r.amount r.amountQuote := by
  obtain ⟨sum, hsum, hres⟩ := (bind_ok _ _ _).1 h
  cases sum with
  | some price =>
    obtain rfl := (pure_ok _ _).1 hres
    exact checkedAdd_coprime p q price hsum
  | none =>
    obtain ⟨lossy, hlossy, hexpect⟩ := (bind_ok _ _ _).1 hres
    obtain rfl := (expect_ok _ _ _).1 hexpect
    exact lossyAdd_coprime p q r hlossy

/-! ## Faults -/

def Panics (e : Fault ε) : Prop := ∃ cause, e = .panic cause

theorem panicking_panics {α : Type} (cause : Panic) :
    FaultsIn Panics (panicking cause : Outcome ε α) := faultsIn_error _ _ ⟨cause, rfl⟩

theorem panics_of_evaluates {α : Type} (x : Outcome ε α) (v : α) (h : Evaluates x v) :
    FaultsIn Panics x := by
  intro e he
  obtain ⟨message, hmessage⟩ := evaluates_faults x v h e he
  exact ⟨_, hmessage⟩

theorem panics_of_ok {α : Type} (x : Outcome ε α) (v : α) (h : x = .ok v) : FaultsIn Panics x := by
  rw [h]
  exact faultsIn_ok _ _

theorem safeMul_panics (width whole : ℕ) (ratio : Ratio) :
    FaultsIn Panics (safeMul width whole ratio : Outcome ε ℕ) := by
  unfold safeMul
  split_ifs
  · exact faultsIn_pure _ _
  · exact panicking_panics _
  · exact faultsIn_pure _ _
  · exact panicking_panics _

theorem nativeSub_panics (a b : ℕ) : FaultsIn Panics (nativeSub a b : Outcome ε ℕ) := by
  unfold nativeSub
  split_ifs
  · exact faultsIn_ok _ _
  · exact panicking_panics _

theorem coprime_panics (a b : ℕ) : FaultsIn Panics (intoCoprimeWith a b : Outcome ε _) := by
  unfold intoCoprimeWith
  split_ifs
  · exact panicking_panics _
  · exact faultsIn_pure _ _

theorem new_panics (amount quote : ℕ) :
    FaultsIn Panics (Price.new amount quote : Outcome ε Price) :=
  faultsIn_bind _ _ _ (coprime_panics _ _) fun _ _ => faultsIn_pure _ _

theorem bitsAboveMax_panics (double : ℕ) :
    FaultsIn Panics (bitsAboveMax double : Outcome ε ℕ) := by
  unfold bitsAboveMax
  simp only
  split_ifs
  · exact faultsIn_pure _ _
  · exact faultsIn_pure _ _
  · exact panicking_panics _

theorem trimDown_panics (double bits : ℕ) :
    FaultsIn Panics (trimDown double bits : Outcome ε ℕ) := by
  unfold trimDown
  simp only
  split_ifs
  · exact faultsIn_pure _ _
  · exact panicking_panics _
  · exact panicking_panics _

theorem lossyMul_panics (p : Price) (r : Ratio) :
    FaultsIn Panics (p.lossyMul r : Outcome ε Price) := by
  apply faultsIn_bind _ _ _ (coprime_panics _ _)
  intro _ _
  apply faultsIn_bind _ _ _ (coprime_panics _ _)
  intro _ _
  apply faultsIn_bind _ _ _ (bitsAboveMax_panics _)
  intro _ _
  apply faultsIn_bind _ _ _ (bitsAboveMax_panics _)
  intro _ _
  apply faultsIn_bind _ _ _ (trimDown_panics _ _)
  intro _ _
  apply faultsIn_bind _ _ _ (trimDown_panics _ _)
  intro _ _
  exact new_panics _ _

theorem mul_panics (p q : Price) : FaultsIn Panics (p.mul q : Outcome ε Price) :=
  faultsIn_bind _ _ _ (new_panics _ _) fun _ _ => lossyMul_panics _ _

/-- A product of prices is refused when an amount of either is zero. -/
theorem mul_positive (p q r : Price) (h : (p.mul q : Outcome ε Price) = .ok r) :
    (0 < p.amount ∧ 0 < p.amountQuote) ∧ 0 < q.amount ∧ 0 < q.amountQuote := by
  obtain ⟨price, hnew, hr⟩ := (bind_ok _ _ _).1 h
  simp only [Price.lossyMul, bind_ok] at hr
  obtain ⟨⟨a, n⟩, h1, ⟨b, t⟩, h2, e1, _, e2, _, v, hv, v', hv', _⟩ := hr
  obtain ⟨hg1, ha, hn⟩ := coprime_ok _ _ _ h1
  obtain ⟨hg2, hb, ht⟩ := coprime_ok _ _ _ h2
  obtain ⟨hg, hp, hq⟩ := new_ok _ _ _ hnew
  obtain ⟨rfl, hpos, _⟩ := trimDown_ok _ _ _ hv
  obtain ⟨rfl, hpos', _⟩ := trimDown_ok _ _ _ hv'
  have hamounts : 0 < a * t := lt_of_lt_of_le hpos (Nat.div_le_self _ _)
  have hquotes : 0 < b * n := lt_of_lt_of_le hpos' (Nat.div_le_self _ _)
  simp only at ha hn hb ht
  have hpa : 0 < price.amount := by
    rw [← ha]
    exact Nat.mul_pos (Nat.pos_of_mul_pos_right hamounts) hg1
  have hpq : 0 < price.amountQuote := by
    rw [← hb]
    exact Nat.mul_pos (Nat.pos_of_mul_pos_right hquotes) hg2
  refine ⟨⟨?_, ?_⟩, ?_, ?_⟩
  · rw [← hp]
    exact Nat.mul_pos hpa hg
  · rw [← hn]
    exact Nat.mul_pos (Nat.pos_of_mul_pos_left hquotes) hg1
  · rw [← ht]
    exact Nat.mul_pos (Nat.pos_of_mul_pos_left hamounts) hg2
  · rw [← hq]
    exact Nat.mul_pos hpq hg

/-! ## Exact products -/

def KeepsBits (p q : Price) : Prop :=
  p.amount / Nat.gcd p.amount q.amountQuote * q.amount < 2 ^ amountBits ∧
    q.amountQuote / Nat.gcd p.amount q.amountQuote * p.amountQuote < 2 ^ amountBits

instance (p q : Price) : Decidable (KeepsBits p q) := inferInstanceAs (Decidable (_ ∧ _))

theorem extraBits_fits (double : ℕ) (h : double < 2 ^ amountBits) : extraBits double = 0 := by
  rw [extraBits, if_pos (Nat.div_eq_of_lt h)]

theorem lossyMul_coprime (p : Price) (r : Ratio) (h1 : Nat.Coprime p.amount r.parts)
    (h2 : Nat.Coprime p.amountQuote r.total) (hpos : 0 < p.amount * r.total)
    (hpos' : 0 < p.amountQuote * r.parts) (hfit : p.amount * r.total < 2 ^ amountBits)
    (hfit' : p.amountQuote * r.parts < 2 ^ amountBits) :
    (p.lossyMul r : Outcome ε Price) =
      Price.new (p.amount * r.total) (p.amountQuote * r.parts) := by
  have hwide : ∀ d, d < 2 ^ amountBits → d < 2 ^ amountBits * 2 ^ amountBits := by
    intro d hd
    exact lt_of_lt_of_le hd (Nat.le_mul_of_pos_right _ (Nat.two_pow_pos _))
  have hc1 : (intoCoprimeWith p.amount r.parts : Outcome ε _) = .ok (p.amount, r.parts) := by
    rw [coprime_fits _ _ (.inl (Nat.pos_of_mul_pos_right hpos)), h1, Nat.div_one, Nat.div_one]
  have hc2 : (intoCoprimeWith p.amountQuote r.total : Outcome ε _) =
      .ok (p.amountQuote, r.total) := by
    rw [coprime_fits _ _ (.inl (Nat.pos_of_mul_pos_right hpos')), h2, Nat.div_one, Nat.div_one]
  have hb1 := @bitsAboveMax_fits ε _ (hwide _ hfit)
  have hb2 := @bitsAboveMax_fits ε _ (hwide _ hfit')
  rw [extraBits_fits _ hfit] at hb1
  rw [extraBits_fits _ hfit'] at hb2
  have ht1 := @trimDown_fits ε (p.amount * r.total) 0 hpos (by simpa using hfit)
  have ht2 := @trimDown_fits ε (p.amountQuote * r.parts) 0 hpos' (by simpa using hfit')
  simp [Price.lossyMul, hc1, hc2, hb1, hb2, ht1, ht2, bind, Except.bind]

/-- A product that keeps its bits is the exact one. -/
theorem mul_exact (p q : Price) (hp : Canonical p) (hq : Canonical q) (h : KeepsBits p q) :
    ∃ r, (p.mul q : Outcome ε Price) = .ok r ∧ value r = value p * value q := by
  have hnew := @new_total ε p.amount q.amountQuote (.inl hp.amount_pos)
  have hg : 0 < Nat.gcd p.amount q.amountQuote := Nat.gcd_pos_of_pos_left _ hp.amount_pos
  have hda := Nat.gcd_dvd_left p.amount q.amountQuote
  have hdq := Nat.gcd_dvd_right p.amount q.amountQuote
  have ha : 0 < p.amount / Nat.gcd p.amount q.amountQuote :=
    Nat.div_pos (Nat.le_of_dvd hp.amount_pos hda) hg
  have hb : 0 < q.amountQuote / Nat.gcd p.amount q.amountQuote :=
    Nat.div_pos (Nat.le_of_dvd hq.quote_pos hdq) hg
  have hmul := @lossyMul_coprime ε
    ⟨p.amount / Nat.gcd p.amount q.amountQuote, q.amountQuote / Nat.gcd p.amount q.amountQuote⟩
    ⟨p.amountQuote, q.amount⟩ (hp.coprime.coprime_div_left hda)
    (hq.coprime.symm.coprime_div_left hdq) (Nat.mul_pos ha hq.amount_pos)
    (Nat.mul_pos hb hp.quote_pos) h.1 h.2
  obtain ⟨r, hr⟩ := @new_fits ε
    (p.amount / Nat.gcd p.amount q.amountQuote * q.amount)
    (q.amountQuote / Nat.gcd p.amount q.amountQuote * p.amountQuote) (Nat.mul_pos hb hp.quote_pos)
  refine ⟨r, (bind_ok _ _ _).2 ⟨_, hnew, hmul.trans hr⟩, ?_⟩
  rw [new_value _ _ r hr, value, value, div_mul_div_comm]
  have e1 : ((p.amount / Nat.gcd p.amount q.amountQuote : ℕ) : ℚ) *
      Nat.gcd p.amount q.amountQuote = p.amount := by exact_mod_cast Nat.div_mul_cancel hda
  have e2 : ((q.amountQuote / Nat.gcd p.amount q.amountQuote : ℕ) : ℚ) *
      Nat.gcd p.amount q.amountQuote = q.amountQuote := by exact_mod_cast Nat.div_mul_cancel hdq
  have hgq : ((Nat.gcd p.amount q.amountQuote : ℕ) : ℚ) ≠ 0 := by exact_mod_cast hg.ne'
  rw [← e1, ← e2]
  push_cast
  rw [show (p.amountQuote : ℚ) * (((q.amountQuote / Nat.gcd p.amount q.amountQuote : ℕ) : ℚ) *
      Nat.gcd p.amount q.amountQuote) = ((q.amountQuote / Nat.gcd p.amount q.amountQuote : ℕ) : ℚ) *
      p.amountQuote * Nat.gcd p.amount q.amountQuote by ring,
    show ((p.amount / Nat.gcd p.amount q.amountQuote : ℕ) : ℚ) *
      Nat.gcd p.amount q.amountQuote * q.amount =
      ((p.amount / Nat.gcd p.amount q.amountQuote : ℕ) : ℚ) * q.amount *
      Nat.gcd p.amount q.amountQuote by ring, mul_div_mul_right _ _ hgq]

theorem identity_keeps (p : Price) (h : Reduced p) : KeepsBits p Price.identity := by
  have h1 : Nat.gcd p.amount Price.identity.amountQuote = 1 := Nat.gcd_one_right _
  rw [KeepsBits, h1]
  simpa [Price.identity] using And.intro h.amount_fits h.quote_fits

theorem identity_value : value Price.identity = 1 := by norm_num [value, Price.identity]

end Nolus.PriceProducts
