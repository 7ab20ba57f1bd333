import NolusMoneyMarket.Finance.Product
import NolusMoneyMarket.Oracle.Pairs
import NolusMoneyMarket.MarketPrice.Alarms

/-! # Base prices of all currencies

The oracle goes over the swap legs in preorder with a stack of base prices.
The price of a leg is multiplied by the base price of its parent, found from
the top of the stack, and the result takes the place of what is above. A leg
without a price leaves the stack as it is, together with what is left there
of an abandoned branch. -/

set_option autoImplicit false

namespace Nolus.BasePrices
open Nolus.Fallible Nolus.Preorders Nolus.Prices Nolus.PriceProducts Nolus.Trees Nolus.SwapPairs
open Nolus.PriceAlarming (BasePrice)

abbrev PairsError : Type := SwapPairs.Error

abbrev PriceQuerier : Type := ℕ → ℕ → Outcome PairsError (Option Price)

/-- The stack has its top first. -/
structure LegCmd where
  stack : List BasePrice

def LegCmd.new (base : ℕ) : LegCmd := ⟨[⟨base, Price.identity⟩]⟩

/-- The parent is searched from the top, and what is above it is dropped only when there
is a price to push. -/
def LegCmd.on (querier : PriceQuerier) (self : LegCmd) (amountC quoteC : ℕ) :
    Outcome PairsError (LegCmd × Option BasePrice) :=
  match self.stack.dropWhile fun parent => parent.currency ≠ quoteC with
  | [] => pure (self, none)
  | parent :: below => do
    let parentPrice ← Price.new parent.price.amount parent.price.amountQuote
    let found ← querier amountC quoteC
    match found with
    | none => pure (self, none)
    | some price => do
      let product ← price.mul parentPrice
      let basePrice : BasePrice := ⟨amountC, product⟩
      pure (⟨basePrice :: parent :: below⟩, some basePrice)

def visitAnyOnCurrencies {α : Type} (inPool : ℕ → ℕ → Bool) (currency1 currency2 : ℕ)
    (visitor : ℕ → ℕ → Outcome PairsError α) : Outcome PairsError α :=
  if inPool currency1 currency2 then visitor currency1 currency2
  else failing (.currency (.notInPoolWith currency1 currency2))

abbrev PriceResult : Type := Except PairsError BasePrice

structure Scan where
  cmd : LegCmd
  yielded : List PriceResult

/-- An error is yielded and the walk goes on with the command as it was, a panic aborts it. -/
def scanLeg (inPool : ℕ → ℕ → Bool) (querier : PriceQuerier) (self : Scan) (leg : SwapLeg) :
    Outcome PairsError Scan :=
  match visitAnyOnCurrencies inPool leg.from_ leg.to_.target (self.cmd.on querier) with
  | .ok (cmd, none) => pure ⟨cmd, self.yielded⟩
  | .ok (cmd, some price) => pure ⟨cmd, self.yielded ++ [.ok price]⟩
  | .error (.error reason) => pure ⟨self.cmd, self.yielded ++ [.error reason]⟩
  | .error (.panic cause) => panicking cause

def scanLegs (inPool : ℕ → ℕ → Bool) (querier : PriceQuerier) (base : ℕ)
    (legs : List SwapLeg) : Outcome PairsError Scan :=
  legs.foldlM (scanLeg inPool querier) ⟨LegCmd.new base, []⟩

def allPricesIter (inPool : ℕ → ℕ → Bool) (querier : PriceQuerier) (base : ℕ)
    (swapPairsDf : List SwapLeg) : Outcome PairsError (List PriceResult) := do
  let scan ← scanLegs inPool querier base swapPairsDf
  pure scan.yielded

def LegCmd.from_ (self : LegCmd) (currency : ℕ) : List BasePrice :=
  self.stack.dropWhile fun parent => parent.currency ≠ currency

theorem from_found (cmd : LegCmd) (currency : ℕ) (parent : BasePrice) (below : List BasePrice)
    (h : cmd.from_ currency = parent :: below) :
    parent ∈ cmd.stack ∧ parent.currency = currency := by
  have hhead := List.head?_dropWhile_not (fun b => decide (b.currency ≠ currency)) cmd.stack
  rw [← LegCmd.from_, h] at hhead
  constructor
  · apply (List.dropWhile_sublist _).subset
    rw [← LegCmd.from_, h]
    exact List.mem_cons_self
  · simpa using hhead

theorem on_ok (querier : PriceQuerier) (cmd cmd' : LegCmd) (amountC quoteC : ℕ)
    (o : Option BasePrice) (h : cmd.on querier amountC quoteC = .ok (cmd', o)) :
    (cmd' = cmd ∧ o = none ∧
      (cmd.from_ quoteC = [] ∨ querier amountC quoteC = .ok none)) ∨
    ∃ parent below q p r, cmd.from_ quoteC = parent :: below ∧
      (Price.new parent.price.amount parent.price.amountQuote : Outcome PairsError Price) = .ok q ∧
      querier amountC quoteC = .ok (some p) ∧ (p.mul q : Outcome PairsError Price) = .ok r ∧
      cmd' = ⟨⟨amountC, r⟩ :: parent :: below⟩ ∧ o = some ⟨amountC, r⟩ := by
  unfold LegCmd.on at h
  split at h
  · next hdrop =>
    obtain ⟨rfl, rfl⟩ := Prod.mk.inj ((pure_ok _ _).1 h)
    exact .inl ⟨rfl, rfl, .inl hdrop⟩
  · next parent below hdrop =>
    obtain ⟨q, hq, hfound⟩ := (bind_ok _ _ _).1 h
    obtain ⟨found, hquery, hpush⟩ := (bind_ok _ _ _).1 hfound
    cases found with
    | none =>
      obtain ⟨rfl, rfl⟩ := Prod.mk.inj ((pure_ok _ _).1 hpush)
      exact .inl ⟨rfl, rfl, .inr hquery⟩
    | some p =>
      obtain ⟨r, hr, hres⟩ := (bind_ok _ _ _).1 hpush
      obtain ⟨rfl, rfl⟩ := Prod.mk.inj ((pure_ok _ _).1 hres)
      exact .inr ⟨parent, below, q, p, r, hdrop, hq, hquery, hr, rfl, rfl⟩

theorem on_returns (querier : PriceQuerier) (cmd : LegCmd) (amountC quoteC : ℕ)
    (hquery : ∀ cause, querier amountC quoteC ≠ .error (.panic cause))
    (hmul : ∀ parent below, cmd.from_ quoteC = parent :: below → ∃ q,
      (Price.new parent.price.amount parent.price.amountQuote : Outcome PairsError Price) =
        .ok q ∧ ∀ p, querier amountC quoteC = .ok (some p) →
          ∃ r, (p.mul q : Outcome PairsError Price) = .ok r)
    (cause : Panic) : cmd.on querier amountC quoteC ≠ .error (.panic cause) := by
  intro h
  unfold LegCmd.on at h
  split at h
  · exact absurd h (pure_error _ _)
  · next parent below hfound =>
    obtain ⟨q, hq, hproduct⟩ := hmul parent below hfound
    rcases (bind_error _ _ _).1 h with hnew | ⟨q', hq', hrest⟩
    · rw [hq] at hnew
      cases hnew
    · rw [hq] at hq'
      obtain rfl := Except.ok.inj hq'
      rcases (bind_error _ _ _).1 hrest with hno | ⟨found, hfound, hpush⟩
      · exact hquery cause hno
      · cases found with
        | none => exact absurd hpush (pure_error _ _)
        | some p =>
          obtain ⟨r, hr⟩ := hproduct p hfound
          rcases (bind_error _ _ _).1 hpush with hno | ⟨_, _, hres⟩
          · rw [hr] at hno
            cases hno
          · exact absurd hres (pure_error _ _)

/-- Only the query for a price reports errors. -/
theorem on_error (querier : PriceQuerier) (cmd : LegCmd) (amountC quoteC : ℕ)
    (reason : PairsError) (h : cmd.on querier amountC quoteC = .error (.error reason)) :
    querier amountC quoteC = .error (.error reason) := by
  unfold LegCmd.on at h
  split at h
  · exact absurd h (pure_error _ _)
  · rcases (bind_error _ _ _).1 h with hnew | ⟨q, _, hfound⟩
    · obtain ⟨_, hp⟩ := new_panics _ _ _ hnew
      cases hp
    · rcases (bind_error _ _ _).1 hfound with hquery | ⟨found, _, hpush⟩
      · exact hquery
      · cases found with
        | none => exact absurd hpush (pure_error _ _)
        | some p =>
          rcases (bind_error _ _ _).1 hpush with hmul | ⟨r, _, hres⟩
          · obtain ⟨_, hp⟩ := mul_panics _ _ _ hmul
            cases hp
          · exact absurd hres (pure_error _ _)

theorem scanLegs_append (inPool : ℕ → ℕ → Bool) (querier : PriceQuerier) (base : ℕ)
    (legs : List SwapLeg) (leg : SwapLeg) (scan : Scan) :
    scanLegs inPool querier base (legs ++ [leg]) = .ok scan ↔
      ∃ before, scanLegs inPool querier base legs = .ok before ∧
        scanLeg inPool querier before leg = .ok scan := by
  simp [scanLegs, List.foldlM_append]

/-! ## Base prices by their definition -/

def legPrice (inPool : ℕ → ℕ → Bool) (querier : PriceQuerier) (leg : SwapLeg) : Option Price :=
  if inPool leg.from_ leg.to_.target then
    match querier leg.from_ leg.to_.target with
    | .ok price => price
    | .error _ => none
  else none

inductive Priced (legs : List SwapLeg) (price : SwapLeg → Option Price) (base : ℕ) : ℕ → Prop
  | base : Priced legs price base base
  | leg (leg : SwapLeg) (p : Price) : leg ∈ legs → price leg = some p →
      Priced legs price base leg.to_.target → Priced legs price base leg.from_

/-- The base price of a currency is the price of its leg multiplied by the one of its parent. -/
inductive BaseOf (legs : List SwapLeg) (price : SwapLeg → Option Price) (base : ℕ) :
    ℕ → Price → Prop
  | base : BaseOf legs price base base Price.identity
  | leg (leg : SwapLeg) (p q r : Price) : leg ∈ legs → price leg = some p →
      BaseOf legs price base leg.to_.target q →
      (p.mul q : Outcome PairsError Price) = .ok r → BaseOf legs price base leg.from_ r

def prices (yielded : List PriceResult) : List BasePrice :=
  yielded.filterMap Except.toOption

theorem prices_append (yielded rest : List PriceResult) :
    prices (yielded ++ rest) = prices yielded ++ prices rest := List.filterMap_append

theorem baseOf_priced (legs : List SwapLeg) (price : SwapLeg → Option Price) (base c : ℕ)
    (q : Price) (h : BaseOf legs price base c q) : Priced legs price base c := by
  induction h with
  | base => exact .base
  | leg leg p q r hin hp hq hmul ih => exact .leg leg p hin hp ih

theorem baseOf_reduced (legs : List SwapLeg) (price : SwapLeg → Option Price) (base c : ℕ)
    (q : Price) (h : BaseOf legs price base c q) : Reduced q := by
  cases h with
  | base => exact identity_reduced
  | leg leg p q r hin hp hq hmul => exact mul_reduced p q _ hmul

def Representable (legs : List SwapLeg) (price : SwapLeg → Option Price) (base : ℕ) : Prop :=
  ∀ leg ∈ legs, ∀ p q, price leg = some p → BaseOf legs price base leg.to_.target q →
    ∃ r, (p.mul q : Outcome PairsError Price) = .ok r

variable {base : ℕ}

theorem priced_leg (pairs : SupportedPairs base) (price : SwapLeg → Option Price) (leg : SwapLeg)
    (hin : leg ∈ pairs.legs) (h : Priced pairs.legs price base leg.from_) :
    (∃ p, price leg = some p) ∧ Priced pairs.legs price base leg.to_.target := by
  generalize hc : leg.from_ = c at h
  cases h with
  | base => exact absurd hc (leg_from_ne pairs leg hin)
  | leg leg' p hin' hp htarget =>
    obtain rfl := leg_unique pairs leg leg' hin hin' hc
    exact ⟨⟨p, hp⟩, htarget⟩

theorem baseOf_leg (pairs : SupportedPairs base) (price : SwapLeg → Option Price) (leg : SwapLeg)
    (r : Price) (hin : leg ∈ pairs.legs) (h : BaseOf pairs.legs price base leg.from_ r) :
    ∃ p q, price leg = some p ∧ BaseOf pairs.legs price base leg.to_.target q ∧
      (p.mul q : Outcome PairsError Price) = .ok r := by
  generalize hc : leg.from_ = c at h
  cases h with
  | base => exact absurd hc (leg_from_ne pairs leg hin)
  | leg leg' p q r hin' hp hq hmul =>
    obtain rfl := leg_unique pairs leg leg' hin hin' hc
    exact ⟨p, q, hp, hq, hmul⟩

theorem baseOf_base (pairs : SupportedPairs base) (price : SwapLeg → Option Price) (c : ℕ)
    (q : Price) (h : BaseOf pairs.legs price base c q) (hc : c = base) : q = Price.identity := by
  cases h with
  | base => rfl
  | leg leg p q r hin hp hq hmul => exact absurd hc (leg_from_ne pairs leg hin)

theorem baseOf_unique (pairs : SupportedPairs base) (price : SwapLeg → Option Price) (c : ℕ)
    (q q' : Price) (h : BaseOf pairs.legs price base c q)
    (h' : BaseOf pairs.legs price base c q') : q = q' := by
  induction h generalizing q' with
  | base => exact (baseOf_base pairs price base q' h' rfl).symm
  | leg leg p q r hin hp hq hmul ih =>
    obtain ⟨p', q'', hp', hq', hmul'⟩ := baseOf_leg pairs price leg q' hin h'
    rw [hp] at hp'
    obtain rfl := Option.some.inj hp'
    obtain rfl := ih q'' hq'
    rw [hmul] at hmul'
    exact Except.ok.inj hmul'

/-- A leg either leaves the stack as it is and yields no price, or pushes one and yields it. -/
theorem scanLeg_ok (inPool : ℕ → ℕ → Bool) (querier : PriceQuerier) (scan scan' : Scan)
    (leg : SwapLeg) (h : scanLeg inPool querier scan leg = .ok scan') :
    (scan'.cmd = scan.cmd ∧ prices scan'.yielded = prices scan.yielded ∧
      (scan.cmd.from_ leg.to_.target = [] ∨ legPrice inPool querier leg = none)) ∨
    ∃ parent below q p r, scan.cmd.from_ leg.to_.target = parent :: below ∧
      (Price.new parent.price.amount parent.price.amountQuote : Outcome PairsError Price) = .ok q ∧
      legPrice inPool querier leg = some p ∧ (p.mul q : Outcome PairsError Price) = .ok r ∧
      scan'.cmd = ⟨⟨leg.from_, r⟩ :: parent :: below⟩ ∧
      scan'.yielded = scan.yielded ++ [.ok ⟨leg.from_, r⟩] := by
  unfold scanLeg visitAnyOnCurrencies at h
  by_cases hpool : inPool leg.from_ leg.to_.target = true
  · rw [if_pos hpool] at h
    split at h
    · next cmd hon =>
      obtain rfl := (pure_ok _ _).1 h
      rcases on_ok querier _ _ _ _ _ hon with ⟨hcmd, _, hno⟩ | ⟨_, _, _, _, _, _, _, _, _, _, ho⟩
      · refine .inl ⟨hcmd, rfl, hno.imp_right fun hquery => ?_⟩
        rw [legPrice, if_pos hpool, hquery]
      · cases ho
    · next cmd b hon =>
      obtain rfl := (pure_ok _ _).1 h
      rcases on_ok querier _ _ _ _ _ hon with
        ⟨_, ho, _⟩ | ⟨parent, below, q, p, r, hdrop, hq, hquery, hr, hcmd, ho⟩
      · cases ho
      · obtain rfl := Option.some.inj ho
        refine .inr ⟨parent, below, q, p, r, hdrop, hq, ?_, hr, hcmd, rfl⟩
        rw [legPrice, if_pos hpool, hquery]
    · next reason hon =>
      obtain rfl := (pure_ok _ _).1 h
      refine .inl ⟨rfl, ?_, .inr ?_⟩
      · rw [prices_append]
        exact List.append_nil _
      · rw [legPrice, if_pos hpool, on_error querier _ _ _ reason hon]
    · exact absurd h (panicking_ok _ _)
  · rw [if_neg hpool] at h
    obtain rfl := (pure_ok _ _).1 h
    refine .inl ⟨rfl, ?_, .inr (if_neg hpool)⟩
    rw [prices_append]
    exact List.append_nil _

/-- A leg whose parent has an entry with the base price does not abort the walk. -/
theorem scanLeg_returns (inPool : ℕ → ℕ → Bool) (querier : PriceQuerier) (scan : Scan)
    (leg : SwapLeg) (hquery : ∀ cause,
      querier leg.from_ leg.to_.target ≠ .error (.panic cause))
    (hmul : ∀ parent below, scan.cmd.from_ leg.to_.target = parent :: below → ∃ q,
      (Price.new parent.price.amount parent.price.amountQuote : Outcome PairsError Price) =
        .ok q ∧ ∀ p, legPrice inPool querier leg = some p →
          ∃ r, (p.mul q : Outcome PairsError Price) = .ok r) :
    ∃ scan', scanLeg inPool querier scan leg = .ok scan' := by
  unfold scanLeg visitAnyOnCurrencies
  by_cases hpool : inPool leg.from_ leg.to_.target = true
  · rw [if_pos hpool]
    split
    · exact ⟨_, rfl⟩
    · exact ⟨_, rfl⟩
    · exact ⟨_, rfl⟩
    · next cause hon =>
      refine absurd hon (on_returns querier _ _ _ hquery ?_ cause)
      intro parent below hfound
      obtain ⟨q, hq, hproduct⟩ := hmul parent below hfound
      refine ⟨q, hq, fun p hp => hproduct p ?_⟩
      rw [legPrice, if_pos hpool, hp]
  · rw [if_neg hpool]
    exact ⟨_, rfl⟩

end Nolus.BasePrices
