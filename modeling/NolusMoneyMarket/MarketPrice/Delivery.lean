import NolusMoneyMarket.Base.Runs
import NolusMoneyMarket.MarketPrice.Alarms

/-! # Delivery of price alarms

The alarms store among its subscribers. A round takes a batch of subscribers
out, and their deliveries are replied to one after the other in the order of
the batch. The environment keeps on its own who is awaited and what everyone
awaited had held. A subscriber that is awaited acts within its own delivery
only, and a delivery that fails leaves nothing of what it has done. -/

set_option autoImplicit false

namespace Nolus.AlarmsDelivery
open Nolus.Fallible Nolus.Prices Nolus.IndexedMaps Nolus.Runs Nolus.PriceAlarming

inductive Command
  | addAlarm (currency : ℕ) (below : Price) (aboveOrEqual : Option Price)
  | removeAboveOrEqual
  | removeAll
deriving DecidableEq, Repr

structure Action where
  subscriber : Addr
  command : Command
deriving DecidableEq, Repr

def Action.run (self : Action) (alarms : PriceAlarms) : Outcome AlarmError PriceAlarms :=
  match self.command with
  | .addAlarm currency below aboveOrEqual =>
    alarms.addAlarm self.subscriber currency below aboveOrEqual
  | .removeAboveOrEqual => pure (alarms.removeAboveOrEqual self.subscriber)
  | .removeAll => pure (alarms.removeAll self.subscriber)

def runAll : List Action → PriceAlarms → Outcome AlarmError PriceAlarms
  | [], alarms => pure alarms
  | action :: actions, alarms => do
    let next ← action.run alarms
    runAll actions next

def outAll : List Addr → PriceAlarms → Outcome AlarmError PriceAlarms
  | [], alarms => pure alarms
  | subscriber :: subscribers, alarms => do
    let next ← alarms.outForDelivery subscriber
    outAll subscribers next

def Command.effect : Command → Holding → Holding
  | .addAlarm currency below aboveOrEqual, _ =>
    ⟨some (normalized ⟨currency, below⟩), aboveOrEqual.map fun p => normalized ⟨currency, p⟩⟩
  | .removeAboveOrEqual, holding => ⟨holding.below, none⟩
  | .removeAll, _ => Holding.none

def Action.effect (self : Action) (board : Board) : Board :=
  Function.update board self.subscriber (self.command.effect (board self.subscriber))

def effects : List Action → Board → Board
  | [], board => board
  | action :: actions, board => effects actions (action.effect board)

structure World where
  alarms : PriceAlarms
  awaited : List (Addr × Holding)

inductive Event
  | act (action : Action)
  | round (subscribers : List Addr)
  | delivered (actions : List Action)
  | failed

def Awaited (w : World) (s : Addr) : Prop := s ∈ w.awaited.map Prod.fst

inductive Step (allowed : Action → Prop) : World → Event → World → Prop
  | act (w : World) (action : Action) (alarms : PriceAlarms) (ha : allowed action)
      (hout : ¬ Awaited w action.subscriber) (hrun : action.run w.alarms = .ok alarms) :
      Step allowed w (.act action) ⟨alarms, w.awaited⟩
  | round (w : World) (subscribers : List Addr) (alarms : PriceAlarms)
      (hnone : w.alarms.ensureNoInDelivery = .ok ())
      (hout : outAll subscribers w.alarms = .ok alarms) :
      Step allowed w (.round subscribers)
        ⟨alarms, subscribers.map fun s => (s, w.alarms.board s)⟩
  | delivered (w : World) (s : Addr) (held : Holding) (rest : List (Addr × Holding))
      (actions : List Action) (during alarms : PriceAlarms) (hw : w.awaited = (s, held) :: rest)
      (ha : ∀ action ∈ actions, allowed action ∧ action.subscriber ∉ rest.map Prod.fst)
      (hrun : runAll actions w.alarms = .ok during) (hreply : during.lastDelivered = .ok alarms) :
      Step allowed w (.delivered actions) ⟨alarms, rest⟩
  | failed (w : World) (s : Addr) (held : Holding) (rest : List (Addr × Holding))
      (alarms : PriceAlarms) (hw : w.awaited = (s, held) :: rest)
      (hreply : w.alarms.lastFailed = .ok alarms) : Step allowed w .failed ⟨alarms, rest⟩

def Start (w : World) : Prop := w = ⟨PriceAlarms.empty, []⟩

def awaitedAs (alarm : AlarmWithSubscriber) : Addr × Holding :=
  (alarm.subscriber, ⟨some alarm.below, alarm.above⟩)

/-- The queue is what is awaited, and nobody awaited has an active alarm. -/
structure Sound (w : World) : Prop where
  inStep : w.alarms.InStep
  queue : w.alarms.inDelivery.map awaitedAs = w.awaited
  distinct : (w.awaited.map Prod.fst).Nodup
  away : ∀ s, Awaited w s → w.alarms.board s = Holding.none

theorem action_run_ok (action : Action) (alarms next : PriceAlarms)
    (h : action.run alarms = .ok next) :
    next.board = action.effect alarms.board ∧ next.inDelivery = alarms.inDelivery ∧
      (alarms.InStep → next.InStep) := by
  rcases action with ⟨s, command⟩
  cases command with
  | addAlarm currency below aboveOrEqual => exact addAlarm_ok _ _ _ _ _ _ h
  | removeAboveOrEqual =>
    simp only [Action.run, pure_ok] at h
    subst h
    exact ⟨removeAboveOrEqual_board _ _, rfl, fun hin => ⟨hin.1, remove_inStep _ hin.2 _⟩⟩
  | removeAll =>
    simp only [Action.run, pure_ok] at h
    subst h
    exact ⟨removeAll_board _ _, rfl,
      fun hin => ⟨remove_inStep _ hin.1 _, remove_inStep _ hin.2 _⟩⟩

theorem runAll_ok (actions : List Action) (alarms next : PriceAlarms)
    (h : runAll actions alarms = .ok next) :
    next.board = effects actions alarms.board ∧ next.inDelivery = alarms.inDelivery ∧
      (alarms.InStep → next.InStep) := by
  induction actions generalizing alarms with
  | nil =>
    simp only [runAll, pure_ok] at h
    subst h
    exact ⟨rfl, rfl, id⟩
  | cons action actions ih =>
    simp only [runAll, bind_ok] at h
    obtain ⟨mid, hmid, h⟩ := h
    obtain ⟨hb, hq, hi⟩ := action_run_ok action alarms mid hmid
    obtain ⟨hb', hq', hi'⟩ := ih mid h
    exact ⟨by rw [hb', hb, effects], hq'.trans hq, fun hin => hi' (hi hin)⟩

theorem effects_other (actions : List Action) (board : Board) (s : Addr)
    (h : ∀ action ∈ actions, action.subscriber ≠ s) : effects actions board s = board s := by
  induction actions generalizing board with
  | nil => rfl
  | cons action actions ih =>
    rw [effects, ih _ (fun a ha => h a (List.mem_cons_of_mem _ ha))]
    exact Function.update_of_ne (h action List.mem_cons_self).symm _ _

/-- A batch takes each of its subscribers out once, with what it holds before the batch. -/
theorem outAll_ok (subscribers : List Addr) (alarms out : PriceAlarms)
    (h : outAll subscribers alarms = .ok out) :
    subscribers.Nodup ∧ (∀ s ∈ subscribers, (alarms.board s).below ≠ none) ∧
      (∀ s, out.board s = if s ∈ subscribers then Holding.none else alarms.board s) ∧
      out.inDelivery.map awaitedAs =
        alarms.inDelivery.map awaitedAs ++ subscribers.map (fun s => (s, alarms.board s)) ∧
      (alarms.InStep → out.InStep) := by
  induction subscribers generalizing alarms with
  | nil =>
    simp only [outAll, pure_ok] at h
    subst h
    simp
  | cons s subscribers ih =>
    simp only [outAll, bind_ok] at h
    obtain ⟨mid, hmid, h⟩ := h
    obtain ⟨below, hbelow, hboard, hqueue, hin⟩ := outForDelivery_ok alarms mid s hmid
    obtain ⟨hnodup, hheld, hrest, hq, hin'⟩ := ih mid h
    have hne : ∀ s' ∈ subscribers, s' ≠ s := by
      rintro s' hs' rfl
      apply hheld s' hs'
      rw [hboard, Function.update_self]
      rfl
    have hother : ∀ s' ∈ subscribers, mid.board s' = alarms.board s' := by
      intro s' hs'
      rw [hboard, Function.update_of_ne (hne s' hs')]
    refine ⟨List.nodup_cons.2 ⟨fun hs => hne s hs rfl, hnodup⟩, ?_, ?_, ?_,
      fun h0 => hin' (hin h0)⟩
    · intro s' hs'
      rcases List.mem_cons.1 hs' with rfl | hs'
      · rw [hbelow]
        simp
      · rw [← hother s' hs']
        exact hheld s' hs'
    · intro s'
      rw [hrest, hboard]
      by_cases hs' : s' = s
      · subst hs'
        simp
      · simp [hs']
    · have htail : subscribers.map (fun s' => (s', mid.board s')) =
          subscribers.map (fun s' => (s', alarms.board s')) :=
        List.map_congr_left (fun s' hs' => by rw [hother s' hs'])
      have hhead : awaitedAs ⟨s, below, (alarms.board s).above⟩ = (s, alarms.board s) := by
        rw [awaitedAs, ← hbelow]
      rw [hq, hqueue, htail, List.map_append, List.append_assoc, List.map_singleton, hhead]
      rfl

theorem front_away (w : World) (hw : Sound w) (s : Addr) (held : Holding)
    (rest : List (Addr × Holding)) (h : w.awaited = (s, held) :: rest) :
    w.alarms.board s = Holding.none ∧ s ∉ rest.map Prod.fst := by
  constructor
  · apply hw.away
    simp [Awaited, h]
  · have hnodup := hw.distinct
    rw [h, List.map_cons, List.nodup_cons] at hnodup
    exact hnodup.1

theorem queue_front (w : World) (hw : Sound w) (s : Addr) (held : Holding)
    (rest : List (Addr × Holding)) (h : w.awaited = (s, held) :: rest)
    (alarm : AlarmWithSubscriber) (queue : List AlarmWithSubscriber)
    (hq : w.alarms.inDelivery = alarm :: queue) :
    awaitedAs alarm = (s, held) ∧ queue.map awaitedAs = rest := by
  have hqueue := hw.queue
  rw [hq, h, List.map_cons, List.cons.injEq] at hqueue
  exact hqueue

/-- What an event does to everyone's alarms and to who is awaited. -/
def Event.Effect (w w' : World) : Event → Prop
  | .act action => w'.alarms.board = action.effect w.alarms.board
  | .round subscribers => subscribers.Nodup ∧ w.awaited = [] ∧
      w'.awaited = subscribers.map (fun s => (s, w.alarms.board s)) ∧
      ∀ s, w'.alarms.board s = if s ∈ subscribers then Holding.none else w.alarms.board s
  | .delivered actions => ∃ s held, w.awaited = (s, held) :: w'.awaited ∧
      w.alarms.board s = Holding.none ∧ w'.alarms.board = effects actions w.alarms.board ∧
      ∀ s', (∀ action ∈ actions, action.subscriber ≠ s') →
        w'.alarms.board s' = w.alarms.board s'
  | .failed => ∃ s held, w.awaited = (s, held) :: w'.awaited ∧
      w'.alarms.board = Function.update w.alarms.board s held

theorem start_sound (w : World) (h : Start w) : Sound w := by
  subst h
  exact ⟨⟨empty_inStep, empty_inStep⟩, rfl, List.nodup_nil, fun s hs => by simp [Awaited] at hs⟩

theorem no_delivery (w : World) (hw : Sound w) (h : w.alarms.ensureNoInDelivery = .ok ()) :
    w.awaited = [] := by
  have hq := hw.queue
  rw [PriceAlarms.ensureNoInDelivery, ensure_ok] at h
  rw [← hq, h, List.map_nil]

theorem step_effect (allowed : Action → Prop) (w w' : World) (e : Event) (hw : Sound w)
    (h : Step allowed w e w') : e.Effect w w' := by
  cases h with
  | act action alarms ha hout hrun => exact (action_run_ok _ _ _ hrun).1
  | round subscribers alarms hnone hout =>
    obtain ⟨hnodup, -, hboard, -, -⟩ := outAll_ok _ _ _ hout
    exact ⟨hnodup, no_delivery w hw hnone, rfl, hboard⟩
  | delivered s held rest actions during alarms hawaited ha hrun hreply =>
    obtain ⟨_, _, hboard, _⟩ := lastDelivered_ok _ _ hreply
    have heffects := hboard.trans (runAll_ok _ _ _ hrun).1
    refine ⟨s, held, hawaited, (front_away w hw s held rest hawaited).1, heffects, ?_⟩
    intro s' hs'
    rw [heffects]
    exact effects_other _ _ _ hs'
  | failed s held rest alarms hawaited hreply =>
    obtain ⟨alarm, hq, hboard, -⟩ := lastFailed_ok _ _ hreply
    obtain ⟨hfront, -⟩ := queue_front w hw s held rest hawaited alarm _ hq
    refine ⟨s, held, hawaited, ?_⟩
    rw [hboard]
    obtain ⟨hs, hheld⟩ := Prod.mk.inj hfront
    have haway := (front_away w hw s held rest hawaited).1
    rw [hs, haway, ← hheld]
    congr 2
    cases alarm.above with
    | none => rfl
    | some above => rfl

theorem step_sound (allowed : Action → Prop) (w : World) (e : Event) (w' : World)
    (h : Step allowed w e w') (hw : Sound w) : Sound w' := by
  have heffect := step_effect allowed w w' e hw h
  cases h with
  | act action alarms ha hout hrun =>
    obtain ⟨hboard, hq, hin⟩ := action_run_ok _ _ _ hrun
    refine ⟨hin hw.inStep, by rw [hq]; exact hw.queue, hw.distinct, ?_⟩
    intro s hs
    have hne : s ≠ action.subscriber := by
      rintro rfl
      exact hout hs
    rw [hboard, Action.effect, Function.update_of_ne hne]
    exact hw.away s hs
  | round subscribers alarms hnone hout =>
    obtain ⟨hnodup, -, hboard, hqueue, hin⟩ := outAll_ok _ _ _ hout
    have hkeys : (subscribers.map fun s => (s, w.alarms.board s)).map Prod.fst = subscribers := by
      simp [Function.comp_def]
    refine ⟨hin hw.inStep, ?_, by rw [hkeys]; exact hnodup, ?_⟩
    · rw [hqueue, hw.queue, no_delivery w hw hnone]
      rfl
    · intro s hs
      rw [Awaited, hkeys] at hs
      rw [hboard, if_pos hs]
  | delivered s held rest actions during alarms hawaited ha hrun hreply =>
    obtain ⟨hboard, hq, hin⟩ := runAll_ok _ _ _ hrun
    obtain ⟨alarm, hqueue, hboard', hin'⟩ := lastDelivered_ok _ _ hreply
    obtain ⟨-, hrest⟩ := queue_front w hw s held rest hawaited alarm _ (hq ▸ hqueue)
    have hdistinct := hw.distinct
    rw [hawaited, List.map_cons, List.nodup_cons] at hdistinct
    refine ⟨hin' (hin hw.inStep), hrest, hdistinct.2, ?_⟩
    intro s' hs'
    rw [hboard', hboard, effects_other]
    · apply hw.away
      rw [Awaited, hawaited]
      exact List.mem_cons_of_mem _ hs'
    · intro action haction he
      exact (ha action haction).2 (he ▸ hs')
  | failed s held rest alarms hawaited hreply =>
    obtain ⟨alarm, hqueue, -, hin⟩ := lastFailed_ok _ _ hreply
    obtain ⟨-, hrest⟩ := queue_front w hw s held rest hawaited alarm _ hqueue
    have hdistinct := hw.distinct
    rw [hawaited, List.map_cons, List.nodup_cons] at hdistinct
    refine ⟨hin hw.inStep, hrest, hdistinct.2, ?_⟩
    intro s' hs'
    obtain ⟨s'', held', haw, hboard⟩ := heffect
    rw [hawaited, List.cons.injEq] at haw
    obtain ⟨hfst, -⟩ := Prod.mk.inj haw.1
    have hne : s' ≠ s := by
      rintro rfl
      exact hdistinct.1 hs'
    rw [hboard, ← hfst, Function.update_of_ne hne]
    apply hw.away
    rw [Awaited, hawaited]
    exact List.mem_cons_of_mem _ hs'

theorem reachable_sound (allowed : Action → Prop) (w : World)
    (h : Reachable (Step allowed) Start w) : Sound w :=
  reachable_induction Start Sound start_sound (step_sound allowed) w h

def AtMostOne (alarms : PriceAlarms) : Prop :=
  (alarms.alarmsBelow.index.map Prod.snd).Nodup ∧
    (alarms.alarmsAboveOrEqual.index.map Prod.snd).Nodup

def Indexes (alarms : PriceAlarms) : Prop :=
  (∀ n s, (n, s) ∈ alarms.alarmsBelow.index ↔ (alarms.board s).below = some n) ∧
    ∀ n s, (n, s) ∈ alarms.alarmsAboveOrEqual.index ↔ (alarms.board s).above = some n

theorem reply_goes_through (w : World) (hw : Sound w) (h : w.awaited ≠ []) :
    (∃ alarms, w.alarms.lastDelivered = .ok alarms) ∧ ∃ alarms, w.alarms.lastFailed = .ok alarms := by
  have hq := hw.queue
  rcases hd : w.alarms.inDelivery with _ | ⟨alarm, queue⟩
  · rw [hd] at hq
    exact absurd hq.symm h
  · constructor
    · simp [PriceAlarms.lastDelivered, PriceAlarms.popFrontInDelivery, hd]
    · rcases ha : alarm.above with _ | above
      · simp [PriceAlarms.lastFailed, PriceAlarms.popFrontInDelivery, hd, ha]
      · simp [PriceAlarms.lastFailed, PriceAlarms.popFrontInDelivery, hd, ha]

/-- The store delivers without loss or duplication, whatever the order of its operations. -/
theorem alarms_without_loss (allowed : Action → Prop) (w : World)
    (h : Reachable (Step allowed) Start w) :
    AtMostOne w.alarms ∧ Indexes w.alarms ∧
    w.alarms.inDelivery.map awaitedAs = w.awaited ∧
    (w.awaited ≠ [] → (∃ alarms, w.alarms.lastDelivered = .ok alarms) ∧
      ∃ alarms, w.alarms.lastFailed = .ok alarms) ∧
    ∀ e w', Step allowed w e w' → e.Effect w w' := by
  have hw := reachable_sound allowed w h
  refine ⟨⟨?_, ?_⟩, ⟨hw.inStep.1.2, hw.inStep.2.2⟩, hw.queue, reply_goes_through w hw, ?_⟩
  · exact index_keys_nodup _ hw.inStep.1
  · exact index_keys_nodup _ hw.inStep.2
  · intro e w' hs
    exact step_effect allowed w w' e hw hs

def sampleBelow : NormalizedPrice := ⟨1, 10 ^ 18 / 20⟩
def sampleAbove : NormalizedPrice := ⟨1, 10 ^ 18 / 30⟩

def sampleAdded : PriceAlarms where
  alarmsBelow := IndexedMap.empty.save 7 sampleBelow
  alarmsAboveOrEqual := IndexedMap.empty.save 7 sampleAbove
  inDelivery := []

def sampleOut : PriceAlarms where
  alarmsBelow := sampleAdded.alarmsBelow.replace 7 none (some sampleBelow)
  alarmsAboveOrEqual := sampleAdded.alarmsAboveOrEqual.replace 7 none (some sampleAbove)
  inDelivery := [⟨7, sampleBelow, some sampleAbove⟩]

theorem sample_reachable :
    Reachable (Step fun _ => True) Start ⟨sampleOut, [(7, ⟨some sampleBelow, some sampleAbove⟩)]⟩ := by
  have hadd : Step (fun _ => True) ⟨PriceAlarms.empty, []⟩
      (.act ⟨7, .addAlarm 1 ⟨1, 20⟩ (some ⟨1, 30⟩)⟩) ⟨sampleAdded, []⟩ :=
    Step.act _ _ _ trivial (by simp [Awaited]) rfl
  have hout : Step (fun _ => True) ⟨sampleAdded, []⟩ (.round [7])
      ⟨sampleOut, [(7, sampleAdded.board 7)]⟩ := Step.round _ _ _ rfl rfl
  exact ⟨_, _, rfl, Run.next _ _ _ _ _ (Run.next _ _ _ _ _ (Run.start _) hadd) hout⟩

theorem alarms_without_loss_restored :
    Reachable (Step fun _ => True) Start
      ⟨sampleOut, [(7, ⟨some sampleBelow, some sampleAbove⟩)]⟩ ∧
    ∃ restored, sampleOut.lastFailed = .ok restored ∧
      restored.board 7 = ⟨some sampleBelow, some sampleAbove⟩ := by
  obtain ⟨-, -, -, hreply, heffect⟩ := alarms_without_loss (fun _ => True) _ sample_reachable
  obtain ⟨-, restored, hrestored⟩ := hreply (by simp)
  obtain ⟨s, held, hw, hboard⟩ :=
    heffect .failed ⟨restored, []⟩ (Step.failed _ _ _ _ _ rfl hrestored)
  simp only [List.cons.injEq, Prod.mk.injEq] at hw
  obtain ⟨⟨rfl, rfl⟩, -⟩ := hw
  refine ⟨sample_reachable, restored, hrestored, ?_⟩
  simp only at hboard
  rw [hboard, Function.update_self]

end Nolus.AlarmsDelivery
