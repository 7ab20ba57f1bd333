import NolusMoneyMarket.Oracle.Dispatch

/-! # Alarms in the order of prices

The alarms are kept by normalised prices, and the prices they were asked with
are recorded beside them. A price yields its alarms in the exact order of
prices, as long as the normalisation tells the two apart: an alarm below is
missed, and an alarm above or equal comes early, within one normalised price. -/

set_option autoImplicit false

namespace Nolus.AlarmsOrder
open Nolus.Fallible Nolus.Fraction Nolus.Prices Nolus.IndexedMaps Nolus.Runs
open Nolus.PriceAlarming Nolus.AlarmsDelivery Nolus.OracleDispatch

structure Asked where
  below : Option BasePrice
  above : Option BasePrice
deriving DecidableEq, Repr

def Asked.none : Asked := ⟨Option.none, Option.none⟩

def Asked.holding (self : Asked) : Holding :=
  ⟨self.below.map normalized, self.above.map normalized⟩

structure Asked.Proper (asked : Asked) : Prop where
  below_proper : ∀ b ∈ asked.below, ProperBase b
  above_proper : ∀ a ∈ asked.above, ProperBase a

structure Register where
  asked : Addr → Asked
  away : List (Addr × Asked)

inductive Op
  | act (action : Action)
  | outForDelivery (subscriber : Addr)
  | lastDelivered
  | lastFailed

def Op.run (self : Op) (alarms : PriceAlarms) : Outcome AlarmError PriceAlarms :=
  match self with
  | .act action => action.run alarms
  | .outForDelivery subscriber => alarms.outForDelivery subscriber
  | .lastDelivered => alarms.lastDelivered
  | .lastFailed => alarms.lastFailed

def ask : Command → Asked → Asked
  | .addAlarm currency below aboveOrEqual, _ =>
    ⟨some ⟨currency, below⟩, aboveOrEqual.map fun p => ⟨currency, p⟩⟩
  | .removeAboveOrEqual, asked => ⟨asked.below, none⟩
  | .removeAll, _ => Asked.none

def Register.record (self : Register) (op : Op) : Register :=
  match op with
  | .act action =>
    ⟨Function.update self.asked action.subscriber
      (ask action.command (self.asked action.subscriber)), self.away⟩
  | .outForDelivery s =>
    ⟨Function.update self.asked s Asked.none, self.away ++ [(s, self.asked s)]⟩
  | .lastDelivered => { self with away := self.away.tail }
  | .lastFailed =>
    match self.away with
    | [] => self
    | (s, held) :: rest =>
      ⟨Function.update self.asked s
        ⟨held.below, held.above.orElse fun _ => (self.asked s).above⟩, rest⟩

def Priced (op : Op) : Prop :=
  ∀ s currency below aboveOrEqual, op = .act ⟨s, .addAlarm currency below aboveOrEqual⟩ →
    (ask (.addAlarm currency below aboveOrEqual) Asked.none).Proper

structure Tracked where
  alarms : PriceAlarms
  register : Register

def Step (t : Tracked) (op : Op) (next : Tracked) : Prop :=
  Priced op ∧ op.run t.alarms = .ok next.alarms ∧ next.register = t.register.record op

def Start (t : Tracked) : Prop := t = ⟨PriceAlarms.empty, ⟨fun _ => Asked.none, []⟩⟩

/-- The store holds what was asked for, normalised. -/
structure Faithful (t : Tracked) : Prop where
  inStep : t.alarms.InStep
  board : ∀ s, t.alarms.board s = (t.register.asked s).holding
  queue : t.alarms.inDelivery.map awaitedAs = t.register.away.map fun e => (e.1, e.2.holding)
  asked : ∀ s, (t.register.asked s).Proper
  away : ∀ e ∈ t.register.away, e.2.Proper

theorem none_proper : Asked.none.Proper := by
  constructor
  · intro b hb
    cases hb
  · intro a ha
    cases ha

theorem ask_holding (command : Command) (asked : Asked) :
    (ask command asked).holding = command.effect asked.holding := by
  cases command with
  | addAlarm currency below aboveOrEqual =>
    cases aboveOrEqual with
    | none => rfl
    | some above => rfl
  | removeAboveOrEqual => rfl
  | removeAll => rfl

theorem ask_proper (s : Addr) (command : Command) (asked : Asked)
    (hp : Priced (.act ⟨s, command⟩)) (h : asked.Proper) : (ask command asked).Proper := by
  cases command with
  | addAlarm currency below aboveOrEqual => exact hp s currency below aboveOrEqual rfl
  | removeAboveOrEqual =>
    constructor
    · exact h.below_proper
    · intro a ha
      cases ha
  | removeAll => exact none_proper

theorem update_proper (asked : Addr → Asked) (s : Addr) (updated : Asked)
    (h : ∀ s, (asked s).Proper) (hu : updated.Proper) (s' : Addr) :
    (Function.update asked s updated s').Proper := by
  by_cases hs : s' = s
  · subst hs
    rw [Function.update_self]
    exact hu
  · rw [Function.update_of_ne hs]
    exact h s'

theorem update_holding (board : Board) (asked : Addr → Asked) (s : Addr) (holding : Holding)
    (updated : Asked) (h : ∀ s, board s = (asked s).holding) (hu : holding = updated.holding)
    (s' : Addr) :
    Function.update board s holding s' = (Function.update asked s updated s').holding := by
  by_cases hs : s' = s
  · subst hs
    rw [Function.update_self, Function.update_self]
    exact hu
  · rw [Function.update_of_ne hs, Function.update_of_ne hs]
    exact h s'

theorem orElse_holding (held asked : Asked) :
    Asked.holding ⟨held.below, held.above.orElse fun _ => asked.above⟩ =
      ⟨held.holding.below, held.holding.above.orElse fun _ => asked.holding.above⟩ := by
  rcases held with ⟨below, _ | above⟩
  · rfl
  · rfl

theorem orElse_proper (held asked : Asked) (hh : held.Proper) (ha : asked.Proper) :
    Asked.Proper ⟨held.below, held.above.orElse fun _ => asked.above⟩ := by
  constructor
  · exact hh.below_proper
  · rcases held with ⟨below, _ | above⟩
    · exact ha.above_proper
    · exact hh.above_proper

theorem act_faithful (t : Tracked) (action : Action) (next : PriceAlarms)
    (hp : Priced (.act action)) (h : action.run t.alarms = .ok next) (hf : Faithful t) :
    Faithful ⟨next, t.register.record (.act action)⟩ := by
  obtain ⟨hboard, hqueue, hin⟩ := action_run_ok _ _ _ h
  have hold := hf.board action.subscriber
  constructor
  · exact hin hf.inStep
  · intro s
    rw [hboard]
    apply update_holding _ _ _ _ _ hf.board
    rw [ask_holding, hold]
  · rw [hqueue]
    exact hf.queue
  · exact update_proper _ _ _ hf.asked (ask_proper _ _ _ hp (hf.asked _))
  · exact hf.away

theorem out_faithful (t : Tracked) (s : Addr) (next : PriceAlarms)
    (h : t.alarms.outForDelivery s = .ok next) (hf : Faithful t) :
    Faithful ⟨next, t.register.record (.outForDelivery s)⟩ := by
  obtain ⟨below, hbelow, hboard, hqueue, hin⟩ := outForDelivery_ok _ _ _ h
  have hhead : awaitedAs ⟨s, below, (t.alarms.board s).above⟩ =
      (s, (t.register.asked s).holding) := by
    rw [awaitedAs, ← hbelow, ← hf.board s]
  constructor
  · exact hin hf.inStep
  · intro s'
    rw [hboard]
    exact update_holding _ _ s Holding.none Asked.none hf.board rfl s'
  · rw [hqueue, List.map_append, hf.queue, List.map_singleton, hhead]
    simp [Register.record]
  · exact update_proper _ _ _ hf.asked none_proper
  · intro e he
    simp only [Register.record, List.mem_append, List.mem_singleton] at he
    rcases he with he | rfl
    · exact hf.away e he
    · exact hf.asked s

theorem delivered_faithful (t : Tracked) (next : PriceAlarms)
    (h : t.alarms.lastDelivered = .ok next) (hf : Faithful t) :
    Faithful ⟨next, t.register.record .lastDelivered⟩ := by
  obtain ⟨alarm, hqueue, hboard, hin⟩ := lastDelivered_ok _ _ h
  have hq := hf.queue
  rw [hqueue] at hq
  constructor
  · exact hin hf.inStep
  · intro s
    rw [hboard]
    exact hf.board s
  · simp only [Register.record]
    rw [List.map_tail, ← hq, List.map_cons, List.tail_cons]
  · exact hf.asked
  · intro e he
    exact hf.away e (List.mem_of_mem_tail he)

theorem failed_faithful (t : Tracked) (next : PriceAlarms)
    (h : t.alarms.lastFailed = .ok next) (hf : Faithful t) :
    Faithful ⟨next, t.register.record .lastFailed⟩ := by
  obtain ⟨alarm, hqueue, hboard, hin⟩ := lastFailed_ok _ _ h
  have hq := hf.queue
  rw [hqueue, List.map_cons] at hq
  rcases haway : t.register.away with _ | ⟨⟨s, held⟩, rest⟩
  · rw [haway] at hq
    cases hq
  rw [haway, List.map_cons, List.cons.injEq, awaitedAs, Prod.mk.injEq] at hq
  obtain ⟨⟨hs, hheld⟩, hrest⟩ := hq
  have hproper : held.Proper := hf.away (s, held) (by rw [haway]; exact List.mem_cons_self)
  have hrecord : t.register.record .lastFailed =
      ⟨Function.update t.register.asked s
        ⟨held.below, held.above.orElse fun _ => (t.register.asked s).above⟩, rest⟩ := by
    rw [Register.record, haway]
  rw [hrecord]
  constructor
  · exact hin hf.inStep
  · intro s'
    rw [hboard, hs]
    apply update_holding _ _ _ _ _ hf.board
    rw [orElse_holding, ← hheld, hf.board s]
  · exact hrest
  · exact update_proper _ _ _ hf.asked (orElse_proper _ _ hproper (hf.asked s))
  · intro e he
    exact hf.away e (by rw [haway]; exact List.mem_cons_of_mem _ he)

theorem step_faithful (t : Tracked) (op : Op) (next : Tracked) (h : Step t op next)
    (hf : Faithful t) : Faithful next := by
  rcases next with ⟨alarms, register⟩
  obtain ⟨hp, hrun, hrecord⟩ := h
  simp only at hrun hrecord
  subst hrecord
  cases op with
  | act action => exact act_faithful t action alarms hp hrun hf
  | outForDelivery s => exact out_faithful t s alarms hrun hf
  | lastDelivered => exact delivered_faithful t alarms hrun hf
  | lastFailed => exact failed_faithful t alarms hrun hf

theorem start_faithful (t : Tracked) (h : Start t) : Faithful t := by
  subst h
  constructor
  · exact ⟨empty_inStep, empty_inStep⟩
  · intro s
    rfl
  · rfl
  · intro s
    exact none_proper
  · intro e he
    cases he

theorem reachable_faithful (t : Tracked) (h : Reachable Step Start t) : Faithful t :=
  reachable_induction Start Faithful start_faithful step_faithful t h

/-! ## The order of prices and the order of their normalisations -/

theorem price_not_lt (p q : Price) : ¬ p < q ↔ q ≤ p := by
  rw [lt_def, le_def, Nat.not_lt, Nat.mul_comm q.amountQuote, Nat.mul_comm q.amount]

theorem normalized_lt_iff (b p : BasePrice) (hb : ProperBase b) (hp : ProperBase p) :
    (normalized b).amount < (normalized p).amount ↔
      p.price < b.price ∧ (normalized b).amount ≠ (normalized p).amount := by
  constructor
  · intro h
    constructor
    · by_contra hlt
      have hle := normalized_antitone b p hb hp hlt
      omega
    · omega
  · rintro ⟨hlt, hne⟩
    have hnot : ¬ b.price < p.price := by
      rw [lt_def] at hlt ⊢
      rw [Nat.mul_comm b.price.amountQuote, Nat.mul_comm b.price.amount]
      omega
    have hle := normalized_antitone p b hp hb hnot
    omega

theorem normalized_le_iff (a p : BasePrice) (ha : ProperBase a) (hp : ProperBase p) :
    (normalized p).amount ≤ (normalized a).amount ↔
      a.price ≤ p.price ∨ (normalized a).amount = (normalized p).amount := by
  rw [← Nat.not_lt, normalized_lt_iff a p ha hp, not_and_or, price_not_lt, not_ne_iff]

/-! ## What a price yields -/

/-- An alarm below is due strictly above the price, unless both normalise alike. -/
def DueBelow (b p : BasePrice) : Prop :=
  b.currency = p.currency ∧ p.price < b.price ∧ (normalized b).amount ≠ (normalized p).amount

/-- An alarm above or equal is due up to the price, and also when both normalise alike. -/
def DueAbove (a p : BasePrice) : Prop :=
  a.currency = p.currency ∧
    (a.price ≤ p.price ∨ (normalized a).amount = (normalized p).amount)

def Due (asked : Asked) (p : BasePrice) : Prop :=
  (∃ b ∈ asked.below, DueBelow b p) ∨ ∃ a ∈ asked.above, DueAbove a p

def Separate (asked : Asked) : Prop :=
  ∀ b ∈ asked.below, ∀ a ∈ asked.above, b.currency = a.currency → b.price ≤ a.price

theorem mem_index_below (t : Tracked) (hf : Faithful t) (n : NormalizedPrice) (s : Addr) :
    (n, s) ∈ t.alarms.alarmsBelow.index ↔ ∃ b ∈ (t.register.asked s).below, normalized b = n := by
  have hboard := congrArg Holding.below (hf.board s)
  have hlookup : t.alarms.alarmsBelow.lookup s = (t.register.asked s).below.map normalized := hboard
  rw [hf.inStep.1.2, hlookup, Option.map_eq_some_iff]
  rfl

theorem mem_index_above (t : Tracked) (hf : Faithful t) (n : NormalizedPrice) (s : Addr) :
    (n, s) ∈ t.alarms.alarmsAboveOrEqual.index ↔
      ∃ a ∈ (t.register.asked s).above, normalized a = n := by
  have hboard := congrArg Holding.above (hf.board s)
  have hlookup : t.alarms.alarmsAboveOrEqual.lookup s =
      (t.register.asked s).above.map normalized := hboard
  rw [hf.inStep.2.2, hlookup, Option.map_eq_some_iff]
  rfl

def belowSubscribers (alarms : PriceAlarms) (p : BasePrice) : List Addr :=
  (alarms.alarmsBelow.index.filter fun e => e.1.currency = (normalized p).currency ∧
    e.1.amount < (normalized p).amount).map Prod.snd

def aboveSubscribers (alarms : PriceAlarms) (p : BasePrice) : List Addr :=
  (alarms.alarmsAboveOrEqual.index.filter fun e => e.1.currency = (normalized p).currency ∧
    (normalized p).amount ≤ e.1.amount).map Prod.snd

theorem due_split (alarms : PriceAlarms) (p : BasePrice) :
    due alarms p = belowSubscribers alarms p ++ aboveSubscribers alarms p := rfl

theorem mem_belowSubscribers (t : Tracked) (hf : Faithful t) (p : BasePrice) (hp : ProperBase p)
    (s : Addr) :
    s ∈ belowSubscribers t.alarms p ↔ ∃ b ∈ (t.register.asked s).below, DueBelow b p := by
  have hproper := hf.asked s
  rw [belowSubscribers, List.mem_map]
  constructor
  · rintro ⟨⟨n, s'⟩, hin, rfl⟩
    obtain ⟨hindex, hcond⟩ := List.mem_filter.1 hin
    obtain ⟨b, hb, rfl⟩ := (mem_index_below t hf n s').1 hindex
    rw [decide_eq_true_eq] at hcond
    exact ⟨b, hb, hcond.1, (normalized_lt_iff b p (hproper.below_proper b hb) hp).1 hcond.2⟩
  · rintro ⟨b, hb, hc, hdue⟩
    refine ⟨(normalized b, s), List.mem_filter.2 ⟨?_, ?_⟩, rfl⟩
    · exact (mem_index_below t hf _ s).2 ⟨b, hb, rfl⟩
    · rw [decide_eq_true_eq]
      exact ⟨hc, (normalized_lt_iff b p (hproper.below_proper b hb) hp).2 hdue⟩

theorem mem_aboveSubscribers (t : Tracked) (hf : Faithful t) (p : BasePrice) (hp : ProperBase p)
    (s : Addr) :
    s ∈ aboveSubscribers t.alarms p ↔ ∃ a ∈ (t.register.asked s).above, DueAbove a p := by
  have hproper := hf.asked s
  rw [aboveSubscribers, List.mem_map]
  constructor
  · rintro ⟨⟨n, s'⟩, hin, rfl⟩
    obtain ⟨hindex, hcond⟩ := List.mem_filter.1 hin
    obtain ⟨a, ha, rfl⟩ := (mem_index_above t hf n s').1 hindex
    rw [decide_eq_true_eq] at hcond
    exact ⟨a, ha, hcond.1, (normalized_le_iff a p (hproper.above_proper a ha) hp).1 hcond.2⟩
  · rintro ⟨a, ha, hc, hdue⟩
    refine ⟨(normalized a, s), List.mem_filter.2 ⟨?_, ?_⟩, rfl⟩
    · exact (mem_index_above t hf _ s).2 ⟨a, ha, rfl⟩
    · rw [decide_eq_true_eq]
      exact ⟨hc, (normalized_le_iff a p (hproper.above_proper a ha) hp).2 hdue⟩

theorem count_filtered (alarms : IndexedMap Addr NormalizedPrice) (h : alarms.InStep)
    (keep : NormalizedPrice × Addr → Bool) (s : Addr) :
    ((alarms.index.filter keep).map Prod.snd).count s ≤ 1 :=
  List.nodup_iff_count_le_one.1
    ((index_keys_nodup alarms h).sublist (List.filter_sublist.map _)) s

theorem separate_due (asked : Asked) (p : BasePrice) (hs : Separate asked)
    (hproper : asked.Proper) (hp : ProperBase p) (b a : BasePrice) (hb : b ∈ asked.below)
    (ha : a ∈ asked.above) (hdb : DueBelow b p) (hda : DueAbove a p) : False := by
  have hpb := hproper.below_proper b hb
  have hpa := hproper.above_proper a ha
  have hle := hs b hb a ha (hdb.1.trans hda.1.symm)
  have hba := normalized_antitone b a hpb hpa ((price_not_lt _ _).2 hle)
  have h1 := (normalized_lt_iff b p hpb hp).2 hdb.2
  have h2 := (normalized_le_iff a p hpa hp).2 hda.2
  omega

theorem count_due (t : Tracked) (hf : Faithful t) (p : BasePrice) (hp : ProperBase p) (s : Addr)
    (hs : Separate (t.register.asked s)) : (due t.alarms p).count s ≤ 1 := by
  have hbelow : (belowSubscribers t.alarms p).count s ≤ 1 :=
    count_filtered _ hf.inStep.1 _ s
  have habove : (aboveSubscribers t.alarms p).count s ≤ 1 :=
    count_filtered _ hf.inStep.2 _ s
  rw [due_split, List.count_append]
  by_cases hb : s ∈ belowSubscribers t.alarms p
  · have ha : s ∉ aboveSubscribers t.alarms p := by
      intro ha
      obtain ⟨b, hb, hdb⟩ := (mem_belowSubscribers t hf p hp s).1 hb
      obtain ⟨a, ha, hda⟩ := (mem_aboveSubscribers t hf p hp s).1 ha
      exact separate_due _ p hs (hf.asked s) hp b a hb ha hdb hda
    rw [List.count_eq_zero_of_not_mem ha]
    omega
  · rw [List.count_eq_zero_of_not_mem hb]
    omega

/-- For a price that has a normalisation the alarms are listed without a failure. They are of
exactly those who are due, and once of whoever holds separate alarms. -/
theorem alarms_listed_exactly (t : Tracked) (h : Reachable Step Start t) (p : BasePrice)
    (hp : ProperBase p) (hn : (normalized p).amount < 2 ^ amountBits) :
    ∃ subscribers : List Addr, t.alarms.alarms p = .ok (subscribers.map .ok) ∧
      (∀ s, s ∈ subscribers ↔ Due (t.register.asked s) p) ∧
      ∀ s, Separate (t.register.asked s) → subscribers.count s ≤ 1 := by
  have hf := reachable_faithful t h
  obtain ⟨items, hitems⟩ := alarms_fits t.alarms p ⟨hp, hn⟩
  have hdue := alarms_due t.alarms hf.inStep p items hitems
  use due t.alarms p
  constructor
  · rw [hitems, hdue]
  constructor
  · intro s
    rw [due_split, List.mem_append, mem_belowSubscribers t hf p hp, mem_aboveSubscribers t hf p hp]
    rfl
  · intro s hs
    exact count_due t hf p hp s hs

def three : BasePrice := ⟨1, ⟨1, 3⟩⟩

def pastThree : BasePrice := ⟨1, ⟨10 ^ 18, 3 * 10 ^ 18 + 1⟩⟩

def asking : Op := .act ⟨7, .addAlarm 1 pastThree.price none⟩

def askedPastThree : Tracked where
  alarms := ⟨⟨AList.insert 7 (normalized pastThree) ∅, [(normalized pastThree, 7)]⟩,
    IndexedMap.empty, []⟩
  register := (Register.record ⟨fun _ => Asked.none, []⟩ asking)

theorem pastThree_proper : ProperBase pastThree := ⟨by decide, by decide⟩

theorem asking_priced : Priced asking := by
  intro s currency below aboveOrEqual h
  cases h
  constructor
  · intro b hb
    cases hb
    exact pastThree_proper
  · intro a ha
    cases ha

theorem askedPastThree_reachable : Reachable Step Start askedPastThree :=
  ⟨_, [asking], rfl, run_one _ _ _ ⟨asking_priced, by rfl, rfl⟩⟩

theorem alarms_listed_exactly_asked :
    ∃ subscribers : List Addr, askedPastThree.alarms.alarms three = .ok (subscribers.map .ok) ∧
      (∀ s, s ∈ subscribers ↔ Due (askedPastThree.register.asked s) three) ∧
      ∀ s, Separate (askedPastThree.register.asked s) → subscribers.count s ≤ 1 :=
  alarms_listed_exactly askedPastThree askedPastThree_reachable three ⟨by decide, by decide⟩
    (by decide)

/-- An alarm below is strictly above the price and nobody is listed. -/
theorem alarm_past_three_missed :
    Reachable Step Start askedPastThree ∧
      (askedPastThree.register.asked 7).below = some pastThree ∧
      three.price < pastThree.price ∧ askedPastThree.alarms.alarms three = .ok [] :=
  ⟨askedPastThree_reachable, rfl, by decide, by rfl⟩

end Nolus.AlarmsOrder
