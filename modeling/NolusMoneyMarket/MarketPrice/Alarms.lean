import NolusMoneyMarket.Base.IndexedMap
import NolusMoneyMarket.Finance.Price

/-! # Price alarms

A subscriber has an alarm for a price below a value and, optionally, one for a
price above or equal to another value. Both are kept by normalised prices: the
amount of the currency for a fixed amount of the base, floored, so a higher
price has a lower amount. The alarms of a subscriber are taken out together
and are queued until the reply to their delivery. -/

set_option autoImplicit false

namespace Nolus.PriceAlarming
open Nolus.Fallible Nolus.Fraction Nolus.Prices Nolus.KeyedStore Nolus.IndexedMaps

abbrev Addr := ℕ

structure BasePrice where
  currency : ℕ
  price : Price
deriving DecidableEq, Repr

structure NormalizedPrice where
  currency : ℕ
  amount : ℕ
deriving DecidableEq, Repr

instance : LinearOrder NormalizedPrice :=
  LinearOrder.lift' (fun p => toLex (p.currency, p.amount)) (by
    rintro ⟨c, a⟩ ⟨c', a'⟩ h
    simpa using h)

inductive AlarmError
  | iteratorLoadFailed
  | inDeliveryLoadBelow
  | emptyAlarmsInDeliveryQueue (cause : String)
  | nonEmptyAlarmsInDeliveryQueue (cause : String)
deriving DecidableEq, Repr

variable {ε : Type}

def normScale : ℕ := 10 ^ 18

def NormalizedPrice.new (price : BasePrice) : Outcome ε NormalizedPrice := do
  let amount ← total normScale price.price.inv
  pure ⟨price.currency, amount⟩

structure AlarmWithSubscriber where
  subscriber : Addr
  below : NormalizedPrice
  above : Option NormalizedPrice
deriving DecidableEq, Repr

structure PriceAlarms where
  alarmsBelow : IndexedMap Addr NormalizedPrice
  alarmsAboveOrEqual : IndexedMap Addr NormalizedPrice
  inDelivery : List AlarmWithSubscriber

namespace PriceAlarms

def empty : PriceAlarms := ⟨IndexedMap.empty, IndexedMap.empty, []⟩

def item (alarms : IndexedMap Addr NormalizedPrice) (e : NormalizedPrice × Addr) :
    Outcome AlarmError Addr := do
  let _ ← okOr (alarms.lookup e.2) .iteratorLoadFailed
  pure e.2

def iterBelow (self : PriceAlarms) (price : NormalizedPrice) : List (Outcome AlarmError Addr) :=
  (self.alarmsBelow.index.filter fun e =>
    e.1.currency = price.currency ∧ e.1.amount < price.amount).map (item self.alarmsBelow)

/-- The bound excludes the empty address only, which is nobody's. -/
def iterAboveOrEqual (self : PriceAlarms) (price : NormalizedPrice) :
    List (Outcome AlarmError Addr) :=
  (self.alarmsAboveOrEqual.index.filter fun e =>
    e.1.currency = price.currency ∧ price.amount ≤ e.1.amount).map (item self.alarmsAboveOrEqual)

def alarms (self : PriceAlarms) (price : BasePrice) :
    Outcome AlarmError (List (Outcome AlarmError Addr)) := do
  let normPrice ← NormalizedPrice.new price
  pure (self.iterBelow normPrice ++ self.iterAboveOrEqual normPrice)

def ensureNoInDelivery (self : PriceAlarms) : Outcome AlarmError Unit :=
  ensure (self.inDelivery = []) (.error (.nonEmptyAlarmsInDeliveryQueue "Assertion requested"))

def removeAboveOrEqual (self : PriceAlarms) (subscriber : Addr) : PriceAlarms :=
  { self with alarmsAboveOrEqual := self.alarmsAboveOrEqual.remove subscriber }

def removeAll (self : PriceAlarms) (subscriber : Addr) : PriceAlarms :=
  removeAboveOrEqual { self with alarmsBelow := self.alarmsBelow.remove subscriber } subscriber

def addAlarmBelowInternal (self : PriceAlarms) (subscriber : Addr) (alarm : NormalizedPrice) :
    PriceAlarms :=
  { self with alarmsBelow := self.alarmsBelow.save subscriber alarm }

def addAlarmAboveOrEqualInternal (self : PriceAlarms) (subscriber : Addr)
    (alarm : NormalizedPrice) : PriceAlarms :=
  { self with alarmsAboveOrEqual := self.alarmsAboveOrEqual.save subscriber alarm }

def addAlarm (self : PriceAlarms) (subscriber : Addr) (currency : ℕ) (below : Price)
    (aboveOrEqual : Option Price) : Outcome AlarmError PriceAlarms := do
  let below ← NormalizedPrice.new ⟨currency, below⟩
  let added := self.addAlarmBelowInternal subscriber below
  match aboveOrEqual with
  | none => pure (added.removeAboveOrEqual subscriber)
  | some aboveOrEqual => do
    let above ← NormalizedPrice.new ⟨currency, aboveOrEqual⟩
    pure (added.addAlarmAboveOrEqualInternal subscriber above)

def outForDelivery (self : PriceAlarms) (subscriber : Addr) : Outcome AlarmError PriceAlarms := do
  let below ← okOr (self.alarmsBelow.lookup subscriber) .inDeliveryLoadBelow
  let above := self.alarmsAboveOrEqual.lookup subscriber
  pure
    { alarmsBelow := self.alarmsBelow.replace subscriber none (some below)
      alarmsAboveOrEqual := match above with
        | none => self.alarmsAboveOrEqual
        | some above => self.alarmsAboveOrEqual.replace subscriber none (some above)
      inDelivery := self.inDelivery ++ [⟨subscriber, below, above⟩] }

def popFrontInDelivery (self : PriceAlarms) (errorOnEmpty : String) :
    Outcome AlarmError (AlarmWithSubscriber × PriceAlarms) :=
  match self.inDelivery with
  | [] => failing (.emptyAlarmsInDeliveryQueue errorOnEmpty)
  | alarm :: rest => pure (alarm, { self with inDelivery := rest })

def lastDelivered (self : PriceAlarms) : Outcome AlarmError PriceAlarms := do
  let (_, rest) ← self.popFrontInDelivery "Received success reply status"
  pure rest

def lastFailed (self : PriceAlarms) : Outcome AlarmError PriceAlarms := do
  let (alarm, rest) ← self.popFrontInDelivery "Received failure reply status"
  let restored := rest.addAlarmBelowInternal alarm.subscriber alarm.below
  match alarm.above with
  | none => pure restored
  | some above => pure (restored.addAlarmAboveOrEqualInternal alarm.subscriber above)

def InStep (self : PriceAlarms) : Prop :=
  self.alarmsBelow.InStep ∧ self.alarmsAboveOrEqual.InStep

end PriceAlarms

structure Holding where
  below : Option NormalizedPrice
  above : Option NormalizedPrice
deriving DecidableEq, Repr

def Holding.none : Holding := ⟨Option.none, Option.none⟩

/-- What the store is for: the active alarms of everyone. -/
abbrev Board := Addr → Holding

def PriceAlarms.board (self : PriceAlarms) : Board := fun s =>
  ⟨self.alarmsBelow.lookup s, self.alarmsAboveOrEqual.lookup s⟩

theorem board_update (self updated : PriceAlarms) (s : Addr) (v w : Option NormalizedPrice)
    (hb : updated.alarmsBelow.lookup = Function.update self.alarmsBelow.lookup s v)
    (ha : updated.alarmsAboveOrEqual.lookup =
      Function.update self.alarmsAboveOrEqual.lookup s w) :
    updated.board = Function.update self.board s ⟨v, w⟩ := by
  funext k
  rw [PriceAlarms.board, hb, ha]
  by_cases hk : k = s
  · subst hk
    simp
  · simp [hk, PriceAlarms.board]

theorem removeAboveOrEqual_board (self : PriceAlarms) (s : Addr) :
    (self.removeAboveOrEqual s).board =
      Function.update self.board s ⟨(self.board s).below, none⟩ :=
  board_update _ _ _ _ _ (Function.update_eq_self s _).symm (lookup_remove _ _)

theorem removeAll_board (self : PriceAlarms) (s : Addr) :
    (self.removeAll s).board = Function.update self.board s Holding.none :=
  board_update _ _ _ _ _ (lookup_remove _ _) (lookup_remove _ _)

def normalized (price : BasePrice) : NormalizedPrice :=
  ⟨price.currency, Ratio.part ⟨normScale, price.price.amountQuote⟩ price.price.amount⟩

theorem normalized_ok (price : BasePrice) (n : NormalizedPrice)
    (h : (NormalizedPrice.new price : Outcome ε NormalizedPrice) = .ok n) :
    n = normalized price := by
  simp only [NormalizedPrice.new, bind_ok, pure_ok] at h
  obtain ⟨amount, hof, rfl⟩ := h
  have hpos := safeMul_total_pos _ _ _ _ (by decide : 0 < normScale) hof
  rw [normalized, of_ok _ _ _ hpos hof]
  rfl

theorem addAlarm_ok (self added : PriceAlarms) (s : Addr) (currency : ℕ) (below : Price)
    (aboveOrEqual : Option Price)
    (h : self.addAlarm s currency below aboveOrEqual = .ok added) :
    added.board = Function.update self.board s ⟨some (normalized ⟨currency, below⟩),
        aboveOrEqual.map fun p => normalized ⟨currency, p⟩⟩ ∧
      added.inDelivery = self.inDelivery ∧ (self.InStep → added.InStep) := by
  simp only [PriceAlarms.addAlarm, bind_ok] at h
  obtain ⟨b, hb, h⟩ := h
  rw [← normalized_ok _ _ hb]
  cases aboveOrEqual with
  | none =>
    simp only [pure_ok] at h
    subst h
    refine ⟨?_, rfl, ?_⟩
    · exact board_update _ _ _ _ _ (lookup_save _ _ _) (lookup_remove _ _)
    · intro hin
      exact ⟨save_inStep _ hin.1 _ _, remove_inStep _ hin.2 _⟩
  | some p =>
    simp only [bind_ok, pure_ok] at h
    obtain ⟨a, ha, rfl⟩ := h
    rw [Option.map_some, ← normalized_ok _ _ ha]
    refine ⟨?_, rfl, ?_⟩
    · exact board_update _ _ _ _ _ (lookup_save _ _ _) (lookup_save _ _ _)
    · intro hin
      exact ⟨save_inStep _ hin.1 _ _, save_inStep _ hin.2 _ _⟩

/-- A subscriber is taken out with both of its alarms, as they are at that time. -/
theorem outForDelivery_ok (self out : PriceAlarms) (s : Addr)
    (h : self.outForDelivery s = .ok out) :
    ∃ below, (self.board s).below = some below ∧
      out.board = Function.update self.board s Holding.none ∧
      out.inDelivery = self.inDelivery ++ [⟨s, below, (self.board s).above⟩] ∧
      (self.InStep → out.InStep) := by
  simp only [PriceAlarms.outForDelivery, bind_ok, okOr_ok, pure_ok] at h
  obtain ⟨below, hb, rfl⟩ := h
  refine ⟨below, hb, ?_, rfl, ?_⟩
  · apply board_update _ _ _ _ _ (lookup_replace _ _ _ _)
    rcases ha : self.alarmsAboveOrEqual.lookup s with _ | above
    · simp only
      rw [← ha, Function.update_eq_self]
    · exact lookup_replace _ _ _ _
  · intro hin
    constructor
    · have hstep := replace_inStep _ hin.1 s none
      rwa [hb] at hstep
    · rcases ha : self.alarmsAboveOrEqual.lookup s with _ | above
      · exact hin.2
      · have hstep := replace_inStep _ hin.2 s none
        rwa [ha] at hstep

theorem lastDelivered_ok (self rest : PriceAlarms) (h : self.lastDelivered = .ok rest) :
    ∃ alarm, self.inDelivery = alarm :: rest.inDelivery ∧ rest.board = self.board ∧
      (self.InStep → rest.InStep) := by
  simp only [PriceAlarms.lastDelivered, PriceAlarms.popFrontInDelivery, bind_ok, pure_ok] at h
  obtain ⟨⟨alarm, popped⟩, hpop, rfl⟩ := h
  rcases hq : self.inDelivery with _ | ⟨front, queue⟩
  · simp [hq] at hpop
  · simp only [hq, pure_ok, Prod.mk.injEq] at hpop
    obtain ⟨rfl, rfl⟩ := hpop
    exact ⟨front, rfl, rfl, id⟩

/-- A failed delivery gives the subscriber back what was taken out. -/
theorem lastFailed_ok (self rest : PriceAlarms) (h : self.lastFailed = .ok rest) :
    ∃ alarm, self.inDelivery = alarm :: rest.inDelivery ∧
      rest.board = Function.update self.board alarm.subscriber
        ⟨some alarm.below, alarm.above.orElse fun _ => (self.board alarm.subscriber).above⟩ ∧
      (self.InStep → rest.InStep) := by
  simp only [PriceAlarms.lastFailed, PriceAlarms.popFrontInDelivery, bind_ok] at h
  obtain ⟨⟨alarm, popped⟩, hpop, h⟩ := h
  rcases hq : self.inDelivery with _ | ⟨front, queue⟩
  · simp [hq] at hpop
  · simp only [hq, pure_ok, Prod.mk.injEq] at hpop
    obtain ⟨rfl, rfl⟩ := hpop
    refine ⟨front, ?_⟩
    rcases ha : front.above with _ | above
    · simp only [ha, pure_ok] at h
      subst h
      refine ⟨rfl, ?_, fun hin => ⟨save_inStep _ hin.1 _ _, hin.2⟩⟩
      exact board_update _ _ _ _ _ (lookup_save _ _ _) (Function.update_eq_self _ _).symm
    · simp only [ha, pure_ok] at h
      subst h
      refine ⟨rfl, ?_, fun hin => ⟨save_inStep _ hin.1 _ _, save_inStep _ hin.2 _ _⟩⟩
      exact board_update _ _ _ _ _ (lookup_save _ _ _) (lookup_save _ _ _)

end Nolus.PriceAlarming
