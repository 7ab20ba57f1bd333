import NolusMoneyMarket.MarketPrice.Delivery

/-! # Dispatch of price alarms

The oracle accepts alarms whose below price is not above their other one and
is of the same currency. A dispatch goes over the prices of the currencies,
chains the alarms due at each of them, takes up to a maximum count of
subscribers and sends them out for delivery. Prices are normalised only when
they are reached. -/

set_option autoImplicit false

namespace Nolus.OracleDispatch
open Nolus.Fallible Nolus.Fraction Nolus.Prices Nolus.IndexedMaps Nolus.Runs
open Nolus.PriceAlarming Nolus.AlarmsDelivery

inductive Error
  | currencyMismatch
  | invariantBroken (message : String)
deriving DecidableEq, Repr

namespace Unchecked

structure Alarm where
  below : BasePrice
  above : Option BasePrice
deriving DecidableEq, Repr

def tryFrom (base : BasePrice) (currency : ℕ) : Outcome Error Price :=
  if base.currency = currency then pure base.price else failing .currencyMismatch

def Alarm.invariantHeld (self : Alarm) : Outcome Error Unit :=
  match self.above with
  | none => pure ()
  | some aboveOrEqual => do
    let belowPrice ← tryFrom self.below aboveOrEqual.currency
    ensure (¬ aboveOrEqual.price < belowPrice) (.error (.invariantBroken
      "The below alarm price should be less than or equal to the above_or_equal alarm price"))

end Unchecked

def ProperBase (base : BasePrice) : Prop := 0 < base.price.amount ∧ 0 < base.price.amountQuote

instance (base : BasePrice) : Decidable (ProperBase base) :=
  inferInstanceAs (Decidable (_ ∧ _))

/-- An alarm is one its deserialization has let through. -/
structure Alarm extends Unchecked.Alarm where
  below_proper : ProperBase below
  above_proper : ∀ base ∈ above, ProperBase base
  held : toAlarm.invariantHeld = .ok ()

/-- The other price is taken as one of the currency of the below price. -/
def Alarm.aboveOrEqual (self : Alarm) : Outcome Error (Option Price) :=
  match self.above with
  | none => pure none
  | some base => do
    let price ← Unchecked.tryFrom base self.below.currency
    pure (some price)

def Accepted (action : Action) : Prop :=
  ∀ currency below aboveOrEqual, action.command = .addAlarm currency below aboveOrEqual →
    ∃ alarm : Alarm, currency = alarm.below.currency ∧ below = alarm.below.price ∧
      alarm.aboveOrEqual = .ok aboveOrEqual

def takeItems : ℕ → List (Outcome AlarmError Addr) → Outcome AlarmError (List Addr)
  | 0, _ => pure []
  | _ + 1, [] => pure []
  | n + 1, item :: items => do
    let subscriber ← item
    let rest ← takeItems n items
    pure (subscriber :: rest)

/-- The rest of the alarms due, with the items of the current price first. -/
def drain (alarms : PriceAlarms) :
    List BasePrice → ℕ → List (Outcome AlarmError Addr) → Outcome AlarmError (List Addr)
  | [], n, items => takeItems n items
  | price :: prices, n, items => do
    let found ← takeItems n items
    if found.length = n then pure found
    else do
      let more ← alarms.alarms price
      let rest ← drain alarms prices (n - found.length) more
      pure (found ++ rest)

def notifyAlarms (alarms : PriceAlarms) (prices : List BasePrice) (maxCount : ℕ) :
    Outcome AlarmError (List Addr) :=
  match prices with
  | [] => takeItems maxCount []
  | price :: prices => do
    let items ← alarms.alarms price
    drain alarms prices maxCount items

def tryNotifyAlarms (alarms : PriceAlarms) (prices : List BasePrice) (maxCount : ℕ) :
    Outcome AlarmError (PriceAlarms × List Addr) := do
  let _ ← alarms.ensureNoInDelivery
  let subscribers ← notifyAlarms alarms prices maxCount
  let out ← outAll subscribers alarms
  pure (out, subscribers)

/-- Whoever holds both alarms holds them in one currency and in the order of prices. -/
def Holding.Ordered (holding : Holding) : Prop :=
  ∀ a ∈ holding.above, ∃ b ∈ holding.below, b.currency = a.currency ∧ a.amount ≤ b.amount

structure Ordered (w : World) : Prop where
  active : ∀ s, Holding.Ordered (w.alarms.board s)
  awaited : ∀ e ∈ w.awaited, Holding.Ordered e.2

theorem normalized_antitone (p q : BasePrice) (hp : ProperBase p) (hq : ProperBase q)
    (h : ¬ q.price < p.price) : (normalized q).amount ≤ (normalized p).amount := by
  rw [lt_def, not_lt] at h
  simp only [normalized, Ratio.part]
  rw [Nat.le_div_iff_mul_le hp.2]
  apply Nat.le_of_mul_le_mul_right _ hq.2
  calc q.price.amount * normScale / q.price.amountQuote * p.price.amountQuote *
        q.price.amountQuote
      = q.price.amount * normScale / q.price.amountQuote * q.price.amountQuote *
        p.price.amountQuote := by ring
    _ ≤ q.price.amount * normScale * p.price.amountQuote :=
        Nat.mul_le_mul_right _ (Nat.div_mul_le_self _ _)
    _ = q.price.amount * p.price.amountQuote * normScale := by ring
    _ ≤ q.price.amountQuote * p.price.amount * normScale := Nat.mul_le_mul_right _ h
    _ = p.price.amount * normScale * q.price.amountQuote := by ring

theorem tryFrom_ok (base : BasePrice) (currency : ℕ) (price : Price) :
    Unchecked.tryFrom base currency = .ok price ↔ base.currency = currency ∧ base.price = price := by
  unfold Unchecked.tryFrom
  split_ifs with hc
  · simp [hc]
  · simp [hc]

theorem alarm_ordered (alarm : Alarm) (aboveOrEqual : Option Price) (holding : Holding)
    (h : alarm.aboveOrEqual = .ok aboveOrEqual) :
    Holding.Ordered ((Command.addAlarm alarm.below.currency alarm.below.price aboveOrEqual).effect
      holding) := by
  intro a ha
  obtain ⟨price, hin, rfl⟩ := Option.mem_map.1 ha
  have hheld := alarm.held
  rcases habove : alarm.above with _ | above
  · simp only [Alarm.aboveOrEqual, habove, pure_ok] at h
    subst h
    simp at hin
  · rw [Unchecked.Alarm.invariantHeld, habove] at hheld
    simp only [bind_ok, ensure_ok, tryFrom_ok] at hheld
    obtain ⟨below, ⟨-, rfl⟩, hnot⟩ := hheld
    simp only [Alarm.aboveOrEqual, habove, bind_ok, tryFrom_ok, pure_ok] at h
    obtain ⟨price', ⟨-, rfl⟩, rfl⟩ := h
    rw [Option.mem_some_iff] at hin
    subst hin
    exact ⟨_, rfl, rfl, normalized_antitone alarm.below above alarm.below_proper
      (alarm.above_proper above habove) hnot⟩

theorem action_ordered (action : Action) (ha : Accepted action) (board : Board)
    (h : ∀ s, Holding.Ordered (board s)) (s : Addr) :
    Holding.Ordered (action.effect board s) := by
  rw [Action.effect]
  by_cases hs : s = action.subscriber
  · subst hs
    rw [Function.update_self]
    rcases hcommand : action.command with ⟨currency, below, aboveOrEqual⟩ | _ | _
    · obtain ⟨alarm, rfl, rfl, habove⟩ := ha _ _ _ hcommand
      exact alarm_ordered alarm _ _ habove
    · intro a hin
      simp [Command.effect] at hin
    · intro a hin
      simp [Command.effect, Holding.none] at hin
  · rw [Function.update_of_ne hs]
    exact h s

theorem effects_ordered (actions : List Action) (ha : ∀ action ∈ actions, Accepted action)
    (board : Board) (h : ∀ s, Holding.Ordered (board s)) (s : Addr) :
    Holding.Ordered (effects actions board s) := by
  induction actions generalizing board with
  | nil => exact h s
  | cons action actions ih =>
    exact ih (fun a hin => ha a (List.mem_cons_of_mem _ hin)) _
      (action_ordered action (ha action List.mem_cons_self) board h)

theorem none_ordered : Holding.Ordered Holding.none := by
  intro a ha
  simp [Holding.none] at ha

theorem step_ordered (w : World) (e : Event) (w' : World) (h : Step Accepted w e w')
    (hw : Sound w ∧ Ordered w) : Sound w' ∧ Ordered w' := by
  obtain ⟨hsound, hordered⟩ := hw
  have heffect := step_effect Accepted w w' e hsound h
  refine ⟨step_sound Accepted w e w' h hsound, ?_⟩
  cases h with
  | act action alarms ha hout hrun =>
    refine ⟨?_, hordered.awaited⟩
    intro s
    simp only [Event.Effect] at heffect
    rw [heffect]
    exact action_ordered action ha _ hordered.active s
  | round subscribers alarms hnone hout =>
    obtain ⟨-, -, -, hboard⟩ := heffect
    constructor
    · intro s
      rw [hboard]
      split_ifs
      · exact none_ordered
      · exact hordered.active s
    · intro e he
      obtain ⟨s, -, rfl⟩ := List.mem_map.1 he
      exact hordered.active s
  | delivered s held rest actions during alarms hawaited ha hrun hreply =>
    obtain ⟨_, _, -, -, hboard, -⟩ := heffect
    constructor
    · intro s
      rw [hboard]
      exact effects_ordered actions (fun a hin => (ha a hin).1) _ hordered.active s
    · intro e he
      exact hordered.awaited e (by rw [hawaited]; exact List.mem_cons_of_mem _ he)
  | failed s held rest alarms hawaited hreply =>
    obtain ⟨s', held', haw, hboard⟩ := heffect
    have hheld : Holding.Ordered held' :=
      hordered.awaited (s', held') (by rw [haw]; exact List.mem_cons_self)
    constructor
    · intro s
      rw [hboard]
      by_cases hs : s = s'
      · subst hs
        rw [Function.update_self]
        exact hheld
      · rw [Function.update_of_ne hs]
        exact hordered.active s
    · intro e he
      exact hordered.awaited e (by rw [hawaited]; exact List.mem_cons_of_mem _ he)

theorem reachable_ordered (w : World) (h : Reachable (Step Accepted) Start w) :
    Sound w ∧ Ordered w := by
  apply reachable_induction Start (fun w => Sound w ∧ Ordered w) _ step_ordered w h
  intro w hstart
  refine ⟨start_sound w hstart, ?_⟩
  subst hstart
  constructor
  · intro s
    exact none_ordered
  · intro e he
    simp at he

def due (alarms : PriceAlarms) (price : BasePrice) : List Addr :=
  (alarms.alarmsBelow.index.filter fun e => e.1.currency = (normalized price).currency ∧
      e.1.amount < (normalized price).amount).map Prod.snd ++
    (alarms.alarmsAboveOrEqual.index.filter fun e => e.1.currency = (normalized price).currency ∧
      (normalized price).amount ≤ e.1.amount).map Prod.snd

theorem items_load (alarms : IndexedMap Addr NormalizedPrice) (h : alarms.InStep)
    (entries : List (NormalizedPrice × Addr)) (hsub : ∀ e ∈ entries, e ∈ alarms.index) :
    entries.map (PriceAlarms.item alarms) = (entries.map Prod.snd).map .ok := by
  rw [List.map_map]
  apply List.map_congr_left
  rintro ⟨v, s⟩ he
  have hlookup := (h.2 v s).1 (hsub _ he)
  simp [PriceAlarms.item, hlookup, okOr, bind, Except.bind, pure, Except.pure]

theorem alarms_due (alarms : PriceAlarms) (hin : alarms.InStep) (price : BasePrice)
    (items : List (Outcome AlarmError Addr)) (h : alarms.alarms price = .ok items) :
    items = (due alarms price).map .ok := by
  simp only [PriceAlarms.alarms, bind_ok, pure_ok] at h
  obtain ⟨n, hn, rfl⟩ := h
  rw [normalized_ok price n hn, due, List.map_append, PriceAlarms.iterBelow,
    PriceAlarms.iterAboveOrEqual, items_load _ hin.1 _ (fun e he => (List.mem_filter.1 he).1),
    items_load _ hin.2 _ (fun e he => (List.mem_filter.1 he).1)]

theorem mem_due (w : World) (hw : Sound w) (ho : Ordered w) (price : BasePrice) (s : Addr)
    (h : s ∈ due w.alarms price) :
    ∃ b ∈ (w.alarms.board s).below, b.currency = price.currency := by
  rw [due, List.mem_append, List.mem_map, List.mem_map] at h
  rcases h with ⟨⟨b, s'⟩, hb, rfl⟩ | ⟨⟨a, s'⟩, ha, rfl⟩
  · obtain ⟨hindex, hcond⟩ := List.mem_filter.1 hb
    rw [decide_eq_true_eq] at hcond
    exact ⟨b, (hw.inStep.1.2 b s').1 hindex, hcond.1⟩
  · obtain ⟨hindex, hcond⟩ := List.mem_filter.1 ha
    rw [decide_eq_true_eq] at hcond
    obtain ⟨b, hb, hc, -⟩ := ho.active s' a ((hw.inStep.2.2 a s').1 hindex)
    exact ⟨b, hb, hc.trans hcond.1⟩

/-- Nobody is due both below and above or equal at one price. -/
theorem due_nodup (w : World) (hw : Sound w) (ho : Ordered w) (price : BasePrice) :
    (due w.alarms price).Nodup := by
  rw [due, List.nodup_append']
  refine ⟨?_, ?_, ?_⟩
  · exact (index_keys_nodup _ hw.inStep.1).sublist (List.filter_sublist.map _)
  · exact (index_keys_nodup _ hw.inStep.2).sublist (List.filter_sublist.map _)
  · intro s hsb hsa
    obtain ⟨⟨b, _⟩, hb, rfl⟩ := List.mem_map.1 hsb
    obtain ⟨⟨a, s⟩, ha, rfl⟩ := List.mem_map.1 hsa
    obtain ⟨hbi, hbc⟩ := List.mem_filter.1 hb
    obtain ⟨hai, hac⟩ := List.mem_filter.1 ha
    rw [decide_eq_true_eq] at hbc hac
    have hbelow := (hw.inStep.1.2 b s).1 hbi
    obtain ⟨b', hb', -, hle⟩ := ho.active s a ((hw.inStep.2.2 a s).1 hai)
    have hsame : b = b' := by
      have heq : (w.alarms.board s).below = some b := hbelow
      rw [Option.mem_def, heq, Option.some.injEq] at hb'
      exact hb'
    subst hsame
    simp only at hbc hac
    omega

theorem all_due_nodup (w : World) (hw : Sound w) (ho : Ordered w) (prices : List BasePrice)
    (hp : (prices.map BasePrice.currency).Nodup) : (prices.flatMap (due w.alarms)).Nodup := by
  rw [List.nodup_flatMap]
  constructor
  · intro price _
    exact due_nodup w hw ho price
  · rw [List.Nodup, List.pairwise_map] at hp
    apply hp.imp
    intro p q hne s hps hqs
    obtain ⟨b, hb, hbc⟩ := mem_due w hw ho p s hps
    obtain ⟨b', hb', hbc'⟩ := mem_due w hw ho q s hqs
    rw [Option.mem_def] at hb hb'
    rw [hb, Option.some.injEq] at hb'
    subst hb'
    exact hne (hbc.symm.trans hbc')

theorem takeItems_ok (n : ℕ) (keys : List Addr) :
    takeItems n (keys.map .ok) = .ok (keys.take n) := by
  induction keys generalizing n with
  | nil =>
    cases n with
    | zero => rfl
    | succ n => rfl
  | cons key keys ih =>
    cases n with
    | zero => rfl
    | succ n =>
      rw [List.map_cons, takeItems]
      simp only [ih, bind_ok, pure_ok, Except.ok.injEq]
      exact ⟨key, rfl, _, rfl, rfl⟩

/-- A dispatch selects the first of all that are due. -/
theorem drain_ok (alarms : PriceAlarms) (hin : alarms.InStep) (prices : List BasePrice) (n : ℕ)
    (keys subscribers : List Addr)
    (h : drain alarms prices n (keys.map .ok) = .ok subscribers) :
    subscribers = (keys ++ prices.flatMap (due alarms)).take n := by
  induction prices generalizing n keys subscribers with
  | nil =>
    rw [drain, takeItems_ok, Except.ok.injEq] at h
    simp [h]
  | cons price prices ih =>
    rw [drain, takeItems_ok] at h
    simp only [bind_ok, Except.ok.injEq] at h
    obtain ⟨found, rfl, h⟩ := h
    rw [List.take_append]
    split_ifs at h with hfull
    · rw [pure_ok] at h
      rw [List.length_take] at hfull
      have hzero : n - keys.length = 0 := by omega
      rw [← h, hzero, List.take_zero, List.append_nil]
    · simp only [bind_ok, pure_ok] at h
      obtain ⟨items, hitems, rest, hrest, rfl⟩ := h
      rw [alarms_due alarms hin price items hitems] at hrest
      rw [ih _ _ _ hrest, List.flatMap_cons, List.length_take]
      have hleft : n - min n keys.length = n - keys.length := by omega
      rw [hleft]

theorem notifyAlarms_ok (alarms : PriceAlarms) (hin : alarms.InStep) (prices : List BasePrice)
    (n : ℕ) (subscribers : List Addr) (h : notifyAlarms alarms prices n = .ok subscribers) :
    subscribers = (prices.flatMap (due alarms)).take n := by
  cases prices with
  | nil => exact drain_ok alarms hin [] n [] subscribers h
  | cons price prices =>
    simp only [notifyAlarms, bind_ok] at h
    obtain ⟨items, hitems, h⟩ := h
    rw [alarms_due alarms hin price items hitems] at h
    exact drain_ok alarms hin prices n _ subscribers h

def Representable (price : BasePrice) : Prop :=
  ProperBase price ∧ (normalized price).amount < 2 ^ amountBits

theorem alarms_fits (alarms : PriceAlarms) (price : BasePrice) (h : Representable price) :
    ∃ items, alarms.alarms price = .ok items := by
  have hnew : (NormalizedPrice.new price : Outcome AlarmError _) = .ok (normalized price) := by
    simp only [NormalizedPrice.new, bind_ok, pure_ok]
    exact ⟨_, safeMul_fits _ _ _ h.1.2 h.2, rfl⟩
  simp only [PriceAlarms.alarms, bind_ok, pure_ok]
  exact ⟨_, _, hnew, rfl⟩

theorem drain_fits (alarms : PriceAlarms) (hin : alarms.InStep) (prices : List BasePrice)
    (h : ∀ price ∈ prices, Representable price) (n : ℕ) (keys : List Addr) :
    ∃ subscribers, drain alarms prices n (keys.map .ok) = .ok subscribers := by
  induction prices generalizing n keys with
  | nil => exact ⟨_, takeItems_ok n keys⟩
  | cons price prices ih =>
    rw [drain, takeItems_ok]
    simp only [bind_ok, Except.ok.injEq, exists_eq_left']
    split_ifs with hfull
    · exact ⟨_, rfl⟩
    · obtain ⟨items, hitems⟩ := alarms_fits alarms price (h price List.mem_cons_self)
      obtain ⟨rest, hrest⟩ := ih (fun p hp => h p (List.mem_cons_of_mem _ hp))
        (n - (keys.take n).length) (due alarms price)
      rw [← alarms_due alarms hin price items hitems] at hrest
      exact ⟨_, by simp only [bind_ok, pure_ok]; exact ⟨_, hitems, _, hrest, rfl⟩⟩

theorem notifyAlarms_fits (alarms : PriceAlarms) (hin : alarms.InStep) (prices : List BasePrice)
    (h : ∀ price ∈ prices, Representable price) (n : ℕ) :
    ∃ subscribers, notifyAlarms alarms prices n = .ok subscribers := by
  cases prices with
  | nil => exact drain_fits alarms hin [] h n []
  | cons price prices =>
    obtain ⟨items, hitems⟩ := alarms_fits alarms price (h price List.mem_cons_self)
    obtain ⟨rest, hrest⟩ := drain_fits alarms hin prices
      (fun p hp => h p (List.mem_cons_of_mem _ hp)) n (due alarms price)
    rw [← alarms_due alarms hin price items hitems] at hrest
    refine ⟨rest, ?_⟩
    simp only [notifyAlarms, bind_ok]
    exact ⟨_, hitems, hrest⟩

structure Unfit (price : BasePrice) : Prop where
  proper : ProperBase price
  amount : price.price.amount < 2 ^ amountBits
  past : 2 ^ amountBits ≤ (normalized price).amount

theorem alarms_unfit (alarms : PriceAlarms) (price : BasePrice) (h : Unfit price) :
    alarms.alarms price = .error (.panic (.overflow "unexpected overflow")) := by
  have hnew : (NormalizedPrice.new price : Outcome AlarmError _) =
      .error (.panic (.overflow "unexpected overflow")) := by
    change (safeMul amountBits price.price.amount ⟨normScale, price.price.amountQuote⟩ >>= _) = _
    rw [safeMul_unfit _ _ _ h.proper.2 h.amount h.past]
    rfl
  rw [PriceAlarms.alarms, hnew]
  rfl

/-- The alarms of a price are asked for once those ahead of it are too few. -/
theorem drain_unfit (alarms : PriceAlarms) (hin : alarms.InStep) (before after : List BasePrice)
    (price : BasePrice) (hb : ∀ p ∈ before, Representable p) (h : Unfit price) (n : ℕ)
    (keys : List Addr) (hroom : (keys ++ before.flatMap (due alarms)).length < n) :
    drain alarms (before ++ price :: after) n (keys.map .ok) =
      .error (.panic (.overflow "unexpected overflow")) := by
  have hkeys : (keys.take n).length ≠ n := by
    rw [List.length_append] at hroom
    rw [List.length_take]
    omega
  induction before generalizing n keys with
  | nil =>
    rw [List.nil_append, drain, takeItems_ok]
    simp only [bind_error, reduceCtorEq, false_or, Except.ok.injEq, exists_eq_left', if_neg hkeys]
    exact .inl (alarms_unfit alarms price h)
  | cons p before ih =>
    obtain ⟨items, hitems⟩ := alarms_fits alarms p (hb p List.mem_cons_self)
    have hrest : ((due alarms p) ++ before.flatMap (due alarms)).length <
        n - (keys.take n).length := by
      rw [List.flatMap_cons, List.length_append] at hroom
      rw [List.length_take]
      omega
    have hpanic := ih (fun q hq => hb q (List.mem_cons_of_mem _ hq)) _ _ hrest (by
      rw [List.length_append] at hrest
      rw [List.length_take]
      omega)
    rw [← alarms_due alarms hin p items hitems] at hpanic
    rw [List.cons_append, drain, takeItems_ok]
    simp only [bind_error, reduceCtorEq, false_or, Except.ok.injEq, exists_eq_left', if_neg hkeys]
    exact .inr ⟨items, hitems, .inl hpanic⟩

/-- The selection reaches a price: it is the first one, or those before it leave room. -/
def Reaches (alarms : PriceAlarms) (maxCount : ℕ) (before : List BasePrice) : Prop :=
  before = [] ∨ (before.flatMap (due alarms)).length < maxCount

theorem notifyAlarms_unfit (alarms : PriceAlarms) (hin : alarms.InStep)
    (before after : List BasePrice) (price : BasePrice) (hb : ∀ p ∈ before, Representable p)
    (h : Unfit price) (n : ℕ) (hr : Reaches alarms n before) :
    notifyAlarms alarms (before ++ price :: after) n =
      .error (.panic (.overflow "unexpected overflow")) := by
  cases before with
  | nil =>
    rw [List.nil_append, notifyAlarms, alarms_unfit alarms price h]
    rfl
  | cons p before =>
    obtain ⟨items, hitems⟩ := alarms_fits alarms p (hb p List.mem_cons_self)
    have hpanic := drain_unfit alarms hin before after price
      (fun q hq => hb q (List.mem_cons_of_mem _ hq)) h n (due alarms p)
      (hr.resolve_left (List.cons_ne_nil _ _))
    rw [← alarms_due alarms hin p items hitems] at hpanic
    rw [List.cons_append, notifyAlarms, hitems]
    exact hpanic

theorem outAll_fits (subscribers : List Addr) (alarms : PriceAlarms) (hd : subscribers.Nodup)
    (h : ∀ s ∈ subscribers, (alarms.board s).below ≠ none) :
    ∃ out, outAll subscribers alarms = .ok out := by
  induction subscribers generalizing alarms with
  | nil => exact ⟨_, rfl⟩
  | cons s subscribers ih =>
    obtain ⟨hs, hd⟩ := List.nodup_cons.1 hd
    obtain ⟨below, hbelow⟩ := Option.ne_none_iff_exists'.1 (h s List.mem_cons_self)
    have hmid : ∃ mid, alarms.outForDelivery s = .ok mid := by
      simp only [PriceAlarms.outForDelivery, bind_ok, okOr_ok, pure_ok]
      exact ⟨_, below, hbelow, rfl⟩
    obtain ⟨mid, hmid⟩ := hmid
    obtain ⟨-, -, hboard, -⟩ := outForDelivery_ok alarms mid s hmid
    obtain ⟨out, hout⟩ := ih mid hd (by
      intro s' hs'
      have hne : s' ≠ s := by
        rintro rfl
        exact hs hs'
      rw [hboard, Function.update_of_ne hne]
      exact h s' (List.mem_cons_of_mem _ hs'))
    refine ⟨out, ?_⟩
    simp only [outAll, bind_ok]
    exact ⟨mid, hmid, hout⟩

/-- A dispatch selects nobody twice and takes everybody selected out. It does not fail, as
long as the prices it is given have a normalisation, and panics upon a price it reaches that has
none. -/
theorem dispatch_selects_once (w : World) (prices : List BasePrice) (maxCount : ℕ)
    (h : Reachable (Step Accepted) Start w) (hidle : w.awaited = [])
    (hp : (prices.map BasePrice.currency).Nodup) :
    (∀ subscribers, notifyAlarms w.alarms prices maxCount = .ok subscribers →
      subscribers.Nodup ∧ subscribers.length ≤ maxCount ∧
      ∃ out, tryNotifyAlarms w.alarms prices maxCount = .ok (out, subscribers)) ∧
    ((∀ price ∈ prices, Representable price) →
      ∃ out subscribers, tryNotifyAlarms w.alarms prices maxCount = .ok (out, subscribers)) ∧
    ∀ before price after, prices = before ++ price :: after →
      (∀ p ∈ before, Representable p) → Unfit price → Reaches w.alarms maxCount before →
      tryNotifyAlarms w.alarms prices maxCount =
        .error (.panic (.overflow "unexpected overflow")) := by
  obtain ⟨hw, ho⟩ := reachable_ordered w h
  have hnone : w.alarms.ensureNoInDelivery = .ok () := by
    have hq := hw.queue
    rw [hidle, List.map_eq_nil_iff] at hq
    simp [PriceAlarms.ensureNoInDelivery, hq]
  have hselect : ∀ subscribers, notifyAlarms w.alarms prices maxCount = .ok subscribers →
      subscribers.Nodup ∧ subscribers.length ≤ maxCount ∧
      ∃ out, tryNotifyAlarms w.alarms prices maxCount = .ok (out, subscribers) := by
    intro subscribers hs
    have htake := notifyAlarms_ok w.alarms hw.inStep prices maxCount subscribers hs
    have hnodup : subscribers.Nodup := by
      rw [htake]
      exact (all_due_nodup w hw ho prices hp).sublist (List.take_sublist _ _)
    refine ⟨hnodup, by rw [htake]; exact List.length_take_le _ _, ?_⟩
    obtain ⟨out, hout⟩ := outAll_fits subscribers w.alarms hnodup (by
      intro s hin
      rw [htake] at hin
      obtain ⟨price, -, hdue⟩ := List.mem_flatMap.1 (List.mem_of_mem_take hin)
      obtain ⟨b, hb, -⟩ := mem_due w hw ho price s hdue
      rw [Option.mem_def.1 hb]
      simp)
    refine ⟨out, ?_⟩
    simp only [tryNotifyAlarms, bind_ok, pure_ok]
    exact ⟨_, hnone, _, hs, _, hout, rfl⟩
  refine ⟨hselect, ?_, ?_⟩
  · intro hr
    obtain ⟨subscribers, hs⟩ := notifyAlarms_fits w.alarms hw.inStep prices hr maxCount
    obtain ⟨-, -, out, hout⟩ := hselect subscribers hs
    exact ⟨out, subscribers, hout⟩
  · rintro before price after rfl hb hunfit hreaches
    have hpanic := notifyAlarms_unfit w.alarms hw.inStep before after price hb hunfit maxCount
      hreaches
    rw [tryNotifyAlarms, hnone, hpanic]
    rfl

def sampleAlarm : Alarm where
  below := ⟨1, ⟨1, 20⟩⟩
  above := some ⟨1, ⟨1, 30⟩⟩
  below_proper := by decide
  above_proper := by
    intro base h
    cases h
    decide
  held := by rfl

theorem sample_accepted :
    Accepted ⟨7, .addAlarm 1 ⟨1, 20⟩ (some ⟨1, 30⟩)⟩ := by
  intro currency below aboveOrEqual h
  cases h
  exact ⟨sampleAlarm, rfl, rfl, rfl⟩

theorem sampleAdded_reachable : Reachable (Step Accepted) Start ⟨sampleAdded, []⟩ := by
  have hadd : Step Accepted ⟨PriceAlarms.empty, []⟩
      (.act ⟨7, .addAlarm 1 ⟨1, 20⟩ (some ⟨1, 30⟩)⟩) ⟨sampleAdded, []⟩ :=
    Step.act _ _ _ sample_accepted (by simp [Awaited]) rfl
  exact ⟨_, _, rfl, Run.next _ _ _ _ _ (Run.start _) hadd⟩

theorem dispatch_selects_once_sample :
    notifyAlarms sampleAdded [⟨2, ⟨1, 5⟩⟩, ⟨1, ⟨1, 35⟩⟩] 10 = .ok [7] ∧
    ∃ out, tryNotifyAlarms sampleAdded [⟨2, ⟨1, 5⟩⟩, ⟨1, ⟨1, 35⟩⟩] 10 = .ok (out, [7]) := by
  have hselected : notifyAlarms sampleAdded [⟨2, ⟨1, 5⟩⟩, ⟨1, ⟨1, 35⟩⟩] 10 = .ok [7] := by rfl
  have hdispatch := dispatch_selects_once ⟨sampleAdded, []⟩ [⟨2, ⟨1, 5⟩⟩, ⟨1, ⟨1, 35⟩⟩] 10
    sampleAdded_reachable rfl (by decide)
  obtain ⟨-, -, out, hout⟩ := hdispatch.1 [7] hselected
  exact ⟨hselected, out, hout⟩

/-- A price with too low a value of its currency has no normalisation. -/
theorem dispatch_panics :
    Reachable (Step Accepted) Start ⟨PriceAlarms.empty, []⟩ ∧
    ProperBase ⟨1, ⟨2 ^ 127, 1⟩⟩ ∧
    tryNotifyAlarms PriceAlarms.empty [⟨1, ⟨2 ^ 127, 1⟩⟩] 10 =
      .error (.panic (.overflow "unexpected overflow")) :=
  ⟨⟨_, [], rfl, Run.start _⟩, ⟨by decide, by decide⟩, rfl⟩

end Nolus.OracleDispatch
