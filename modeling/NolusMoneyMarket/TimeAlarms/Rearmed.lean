import NolusMoneyMarket.TimeAlarms.Delivery

/-! # Alarms armed again

An active alarm stays as long as its subscriber neither adds another one nor is
taken out. Once the time is past the second after it, whatever is armed comes
behind it, and each dispatch takes as many alarms ahead of it as there is room
for. Hence no alarm waits forever. -/

set_option autoImplicit false

namespace Nolus.TimeAlarmsRearmed
open Nolus.Fallible Nolus.IndexedMaps Nolus.Runs Nolus.TimeAlarming
open Nolus.TimeAlarmsDelivery

variable {isContract : Addr → Bool}

def Adds (s : Addr) (e : Event) : Prop := ∃ now time, e = .add now s time

def Takes (s : Addr) (e : Event) : Prop :=
  ∃ now maxCount subscribers, e = .dispatch now maxCount subscribers ∧ s ∈ subscribers

def room : Event → ℕ
  | .dispatch _ maxCount _ => maxCount
  | _ => 0

def rooms (events : List Event) : ℕ := (events.map room).sum

def Waits (w : World) (s : Addr) (a : ℕ) : Prop :=
  w.alarms.active s = some a ∧ s ∉ w.alarms.inDelivery

def waiting (w : World) (s : Addr) (a : ℕ) : ℕ := (ahead w.alarms.alarms.index (a, s)).length

theorem mem_index (w : World) (hw : Sound w) (t : ℕ) (s : Addr) :
    (t, s) ∈ w.alarms.alarms.index ↔ w.alarms.active s = some t := hw.indexed.1.2 t s

theorem add_active (w w' : World) (now : ℕ) (s : Addr) (time : ℕ)
    (h : Step isContract w (.add now s time) w') :
    now ≤ time ∧ w'.alarms.inDelivery = w.alarms.inDelivery ∧
      w'.alarms.active = Function.update w.alarms.active s (some (asSeconds time)) := by
  cases h with
  | add _ _ _ alarms hnow hadd =>
    obtain ⟨hpast, rfl⟩ := Alarms.tryAdd_ok _ _ _ _ _ _ hadd
    exact ⟨hpast, rfl, Alarms.active_addInternal _ _ _⟩

theorem delivered_active (w w' : World) (now : ℕ)
    (h : Step isContract w (.delivered now) w') :
    w'.alarms.active = w.alarms.active ∧ ∀ s ∈ w'.alarms.inDelivery, s ∈ w.alarms.inDelivery := by
  cases h with
  | delivered _ s n rest alarms hnow hawaited hreply =>
    obtain ⟨subscriber, hq, hsame⟩ := Alarms.lastDelivered_ok _ _ hreply
    constructor
    · unfold Alarms.active
      rw [hsame]
    · intro u hu
      rw [hq]
      exact List.mem_cons_of_mem _ hu

theorem step_waits (w : World) (e : Event) (w' : World) (s : Addr) (a : ℕ) (hw : Sound w)
    (h : Step isContract w e w') (hwaits : Waits w s a) (hadds : ¬ Adds s e) :
    Takes s e ∨ Waits w' s a := by
  obtain ⟨hactive, hout⟩ := hwaits
  cases e with
  | add now u time =>
    obtain ⟨-, hqueue, hadded⟩ := add_active w w' now u time h
    have hu : s ≠ u := by
      rintro rfl
      exact hadds ⟨now, time, rfl⟩
    right
    constructor
    · rwa [hadded, Function.update_of_ne hu]
    · rwa [hqueue]
  | dispatch now maxCount subscribers =>
    obtain ⟨-, -, -, -, hqueue, hleft⟩ := dispatch_effect w w' now maxCount subscribers hw h
    by_cases hs : s ∈ subscribers
    · exact .inl ⟨now, maxCount, subscribers, rfl, hs⟩
    · right
      constructor
      · rwa [hleft, if_neg hs]
      · rwa [hqueue]
  | delivered now =>
    obtain ⟨hsame, hqueue⟩ := delivered_active w w' now h
    right
    constructor
    · rwa [hsame]
    · exact fun hin => hout (hqueue s hin)
  | failed now =>
    obtain ⟨u, hq, -, -, hrearmed⟩ := failed_effect w w' now hw h
    rw [hq, List.mem_cons, not_or] at hout
    right
    constructor
    · rwa [hrearmed, Function.update_of_ne hout.1]
    · exact hout.2

theorem armed_behind (w w' : World) (u s : Addr) (t a : ℕ) (hw : Sound w) (hw' : Sound w')
    (hlater : a < t) (h : w'.alarms.active = Function.update w.alarms.active u (some t)) :
    waiting w' s a ≤ waiting w s a := by
  apply ahead_length_le _ _ _ hw'.indexed.1.1
  rintro ⟨b, v⟩ hin
  obtain ⟨hin, -, hbefore⟩ := (mem_ahead _ _ _).1 hin
  rw [mem_index w' hw', h] at hin
  by_cases hv : v = u
  · rw [hv, Function.update_self, Option.some.injEq] at hin
    have hle : b ≤ a := by
      rcases hbefore with hlt | ⟨heq, -⟩
      · exact hlt.le
      · exact heq.le
    omega
  · rw [Function.update_of_ne hv] at hin
    exact (mem_index w hw _ _).2 hin

theorem asSeconds_mono (t u : ℕ) (h : t ≤ u) : asSeconds t ≤ asSeconds u :=
  Nat.div_le_div_right h

theorem dispatch_shrinks (w w' : World) (now maxCount : ℕ) (subscribers : List Addr) (s : Addr)
    (a : ℕ) (hw : Sound w) (hw' : Sound w')
    (h : Step isContract w (.dispatch now maxCount subscribers) w') (hwaits : Waits w s a)
    (hlater : a < asSeconds now) (hout : s ∉ subscribers) :
    waiting w' s a + maxCount ≤ waiting w s a := by
  obtain ⟨-, hsubscribers, -, -, -, hactive⟩ :=
    dispatch_effect w w' now maxCount subscribers hw h
  rw [Alarms.alarmsSelection, ← List.map_take] at hsubscribers
  have he : (a, s) ∈ w.alarms.range (asSeconds now, ⊥) :=
    (Alarms.mem_range _ hw.indexed _ _ _).2 ⟨hwaits.1, hlater⟩
  have hnot : (a, s) ∉ (w.alarms.range (asSeconds now, ⊥)).take maxCount := by
    intro hin
    apply hout
    rw [hsubscribers]
    exact List.mem_map_of_mem hin
  obtain ⟨hlen, htaken⟩ := first_ahead _ hw.indexed.2 _ maxCount (a, s) he hnot
  change ((w.alarms.range (asSeconds now, ⊥)).take maxCount).length = maxCount at hlen
  have hleft : ∀ x ∈ w'.alarms.alarms.index, x ∈ w.alarms.alarms.index ∧ x.2 ∉ subscribers := by
    rintro ⟨t, u⟩ hin
    rw [mem_index w' hw', hactive] at hin
    split_ifs at hin with hu
    exact ⟨(mem_index w hw t u).2 hin, hu⟩
  have hdisjoint : (ahead w'.alarms.alarms.index (a, s) ++
      (w.alarms.range (asSeconds now, ⊥)).take maxCount).Nodup := by
    rw [List.nodup_append']
    refine ⟨hw'.indexed.1.1.filter _, (hw.indexed.1.1.filter _).sublist (List.take_sublist _ _),
      ?_⟩
    intro x hx hx'
    apply (hleft x ((mem_ahead _ _ _).1 hx).1).2
    rw [hsubscribers]
    exact List.mem_map_of_mem hx'
  have hahead : ahead w'.alarms.alarms.index (a, s) ++
      (w.alarms.range (asSeconds now, ⊥)).take maxCount ⊆ ahead w.alarms.alarms.index (a, s) := by
    intro x hx
    rcases List.mem_append.1 hx with hx | hx
    · obtain ⟨hin, hbefore⟩ := (mem_ahead _ _ _).1 hx
      exact (mem_ahead _ _ _).2 ⟨(hleft x hin).1, hbefore⟩
    · exact htaken x hx
  have hcount := (List.subperm_of_subset hdisjoint hahead).length_le
  rw [List.length_append, hlen] at hcount
  exact hcount

theorem step_shrinks (w : World) (e : Event) (w' : World) (s : Addr) (a : ℕ) (hw : Sound w)
    (h : Step isContract w e w') (hwaits : Waits w s a) (hlater : a + 1 < asSeconds e.now)
    (htakes : ¬ Takes s e) : waiting w' s a + room e ≤ waiting w s a := by
  have hw' := step_sound w e w' h hw
  cases e with
  | add now u time =>
    obtain ⟨hpast, -, hadded⟩ := add_active w w' now u time h
    have hmono := asSeconds_mono now time hpast
    exact armed_behind w w' u s _ a hw hw' (lt_of_lt_of_le (Nat.lt_of_succ_lt hlater) hmono) hadded
  | dispatch now maxCount subscribers =>
    apply dispatch_shrinks w w' now maxCount subscribers s a hw hw' h hwaits
    · exact Nat.lt_of_succ_lt hlater
    · exact fun hs => htakes ⟨now, maxCount, subscribers, rfl, hs⟩
  | delivered now =>
    obtain ⟨hsame, -⟩ := delivered_active w w' now h
    apply ahead_length_le _ _ _ hw'.indexed.1.1
    rintro ⟨b, v⟩ hin
    rw [mem_ahead, mem_index w' hw', hsame] at hin
    exact (mem_index w hw _ _).2 hin.1
  | failed now =>
    obtain ⟨u, -, -, -, hrearmed⟩ := failed_effect w w' now hw h
    exact armed_behind w w' u s _ a hw hw' (Nat.lt_sub_of_add_lt hlater) hrearmed

theorem run_waits (w w' : World) (s : Addr) (a : ℕ) (events : List Event) (hw : Sound w)
    (h : Run (Step isContract) w events w') (hwaits : Waits w s a)
    (hadds : ∀ e ∈ events, ¬ Adds s e) : (∃ e ∈ events, Takes s e) ∨ Waits w' s a := by
  induction h with
  | start => exact .inr hwaits
  | next w₁ w₂ events e hrun hstep ih =>
    have hw₁ := run_preserves Sound step_sound _ _ _ hrun hw
    rcases ih fun e' he' => hadds e' (List.mem_append_left _ he') with ⟨e', he', ht⟩ | h₁
    · exact .inl ⟨e', List.mem_append_left _ he', ht⟩
    · have hlast : e ∈ events ++ [e] := List.mem_append_right _ List.mem_cons_self
      rcases step_waits w₁ e w₂ s a hw₁ hstep h₁ (hadds e hlast) with ht | h₂
      · exact .inl ⟨e, hlast, ht⟩
      · exact .inr h₂

theorem run_shrinks (w w' : World) (s : Addr) (a : ℕ) (events : List Event) (hw : Sound w)
    (h : Run (Step isContract) w events w') (hwaits : Waits w s a)
    (hadds : ∀ e ∈ events, ¬ Adds s e) (hlater : ∀ e ∈ events, a + 1 < asSeconds e.now) :
    (∃ e ∈ events, Takes s e) ∨ waiting w' s a + rooms events ≤ waiting w s a := by
  induction h with
  | start => exact .inr le_rfl
  | next w₁ w₂ events e hrun hstep ih =>
    have hw₁ := run_preserves Sound step_sound _ _ _ hrun hw
    have hlast : e ∈ events ++ [e] := List.mem_append_right _ List.mem_cons_self
    have hearlier : ∀ e' ∈ events, e' ∈ events ++ [e] := fun _ => List.mem_append_left _
    by_cases htaken : ∃ e' ∈ events, Takes s e'
    · obtain ⟨e', he', ht⟩ := htaken
      exact .inl ⟨e', hearlier e' he', ht⟩
    · have h₁ := (run_waits _ _ s a events hw hrun hwaits
        fun e' he' => hadds e' (hearlier e' he')).resolve_left htaken
      by_cases ht : Takes s e
      · exact .inl ⟨e, hlast, ht⟩
      · right
        have hbefore := (ih (fun e' he' => hadds e' (hearlier e' he'))
          fun e' he' => hlater e' (hearlier e' he')).resolve_left htaken
        have hstep' := step_shrinks w₁ e w₂ s a hw₁ hstep h₁ (hlater e hlast) ht
        simp only [rooms, List.map_append, List.sum_append, List.map_cons, List.map_nil,
          List.sum_cons, List.sum_nil] at hbefore ⊢
        omega

/-! ## What the subscribers can rely on -/

/-- At most one alarm of anyone is active, and it is the one added or armed again last. -/
structure OneActive (w : World) : Prop where
  once : (w.alarms.alarms.index.map Prod.snd).Nodup
  indexed : ∀ t s, (t, s) ∈ w.alarms.alarms.index ↔ w.alarms.active s = some t
  latest : ∀ s t, w.alarms.active s = some t → w.armed s = some t

/-- Exactly the alarms before the current second, in the order of their times. -/
def SelectsDue (alarms : Alarms) (ctime : ℕ) : Prop :=
  ∃ entries : List (ℕ × Addr), alarms.alarmsSelection ctime = entries.map Prod.snd ∧
    (entries.Pairwise fun a b => a.1 ≤ b.1) ∧ (entries.map Prod.snd).Nodup ∧
    ∀ t s, (t, s) ∈ entries ↔ alarms.active s = some t ∧ t < asSeconds ctime

/-- Unless it adds another alarm, the subscriber is within each later selection until it is
taken out, which happens as soon as the dispatches in later seconds have had room for as many
alarms as there are. -/
def SelectedLater (isContract : Addr → Bool) (w : World) (now : ℕ) (s : Addr) : Prop :=
  ∀ before after w₁ w₂, Run (Step isContract) w before w₁ → Run (Step isContract) w₁ after w₂ →
    (∀ e ∈ before ++ after, ¬ Adds s e) →
    ((∃ e ∈ before, Takes s e) ∨ ∀ ctime, now ≤ ctime → s ∈ w₁.alarms.alarmsSelection ctime) ∧
    ((∀ e ∈ after, asSeconds now < asSeconds e.now) →
      w₁.alarms.alarms.index.length ≤ rooms after → ∃ e ∈ before ++ after, Takes s e)

theorem sound_oneActive (w : World) (hw : Sound w) : OneActive w :=
  ⟨index_keys_nodup _ hw.indexed.1, mem_index w hw, hw.latest⟩

theorem sound_selectsDue (w : World) (hw : Sound w) (ctime : ℕ) : SelectsDue w.alarms ctime :=
  ⟨_, rfl, Alarms.range_in_time_order _ hw.indexed _, Alarms.range_keys_nodup _ hw.indexed _,
    fun t s => Alarms.mem_range _ hw.indexed _ t s⟩

theorem waiting_lt (w : World) (hw : Sound w) (s : Addr) (a : ℕ) (h : Waits w s a) :
    waiting w s a < w.alarms.alarms.index.length := by
  apply List.length_filter_lt_length_iff_exists.2
  exact ⟨(a, s), (mem_index w hw a s).2 h.1, by simp⟩

theorem waits_selected (isContract : Addr → Bool) (w : World) (now : ℕ) (s : Addr) (hw : Sound w)
    (hone : 1 ≤ asSeconds now) (h : Waits w s (asSeconds now - 1)) :
    SelectedLater isContract w now s := by
  intro before after w₁ w₂ hbefore hafter hadds
  have hw₁ := run_preserves Sound step_sound _ _ _ hbefore hw
  have hwaits := run_waits w w₁ s _ before hw hbefore h
    fun e he => hadds e (List.mem_append_left _ he)
  constructor
  · rcases hwaits with htaken | h₁
    · exact .inl htaken
    · right
      intro ctime hlater
      have hmono := asSeconds_mono now ctime hlater
      exact (Alarms.mem_alarmsSelection _ hw₁.indexed _ _).2 ⟨_, h₁.1, by omega⟩
  · intro hlater hroom
    rcases hwaits with ⟨e, he, ht⟩ | h₁
    · exact ⟨e, List.mem_append_left _ he, ht⟩
    · have hpast : ∀ e ∈ after, asSeconds now - 1 + 1 < asSeconds e.now := by
        intro e he
        rw [Nat.sub_add_cancel hone]
        exact hlater e he
      rcases run_shrinks w₁ w₂ s _ after hw₁ hafter h₁
        (fun e he => hadds e (List.mem_append_right _ he)) hpast with ⟨e, he, ht⟩ | hshrinks
      · exact ⟨e, List.mem_append_right _ he, ht⟩
      · have hahead := waiting_lt w₁ hw₁ s _ h₁
        omega

/-! ## What goes through -/

def PastFirst (w : World) : Prop := w.alarms.inDelivery ≠ [] → 1 ≤ asSeconds w.now

theorem step_pastFirst (w : World) (e : Event) (w' : World) (hw : Sound w)
    (h : Step isContract w e w') (hp : PastFirst w) : PastFirst w' := by
  intro hout
  cases e with
  | dispatch now maxCount subscribers =>
    obtain ⟨-, hsubscribers, -, -, hqueue, -⟩ :=
      dispatch_effect w w' now maxCount subscribers hw h
    obtain ⟨s, hs⟩ := List.exists_mem_of_ne_nil _ hout
    rw [hqueue, hsubscribers] at hs
    obtain ⟨t, -, ht⟩ :=
      (Alarms.mem_alarmsSelection _ hw.indexed _ _).1 (List.mem_of_mem_take hs)
    cases h
    exact Nat.one_le_of_lt ht
  | add now s time =>
    obtain ⟨-, hqueue, -⟩ := add_active w w' now s time h
    rw [hqueue] at hout
    cases h with
    | add _ _ _ alarms hnow hadd => exact (hp hout).trans (asSeconds_mono _ _ hnow)
  | delivered now =>
    obtain ⟨s, hs⟩ := List.exists_mem_of_ne_nil _ hout
    have hin := (delivered_active w w' now h).2 s hs
    cases h with
    | delivered _ _ _ _ _ hnow _ _ =>
      exact (hp (List.ne_nil_of_mem hin)).trans (asSeconds_mono _ _ hnow)
  | failed now =>
    obtain ⟨-, -, -, hone, -⟩ := failed_effect w w' now hw h
    cases h
    exact hone

theorem reachable_pastFirst (w : World) (h : Reachable (Step isContract) Start w) :
    PastFirst w := by
  have hkept : Sound w ∧ PastFirst w := by
    refine reachable_induction Start (fun w => Sound w ∧ PastFirst w) ?_ ?_ w h
    · intro w hstart
      refine ⟨start_sound w hstart, fun hout => ?_⟩
      rw [hstart] at hout
      exact absurd rfl hout
    · intro w e w' hstep hw
      exact ⟨step_sound w e w' hstep hw.1, step_pastFirst w e w' hw.1 hstep hw.2⟩
  exact hkept.2

def Serves (isContract : Addr → Bool) (w : World) : Prop :=
  ∀ now, w.now ≤ now →
    (∀ s time, now ≤ time → isContract s = true → ∃ w', Step isContract w (.add now s time) w') ∧
    (w.awaited = [] → ∀ maxCount, ∃ subscribers w',
      Step isContract w (.dispatch now maxCount subscribers) w')

def Replies (isContract : Addr → Bool) (w : World) : Prop :=
  ∀ now, w.now ≤ now → w.awaited ≠ [] →
    (∃ w', Step isContract w (.delivered now) w') ∧ ∃ w', Step isContract w (.failed now) w'

theorem sound_serves (isContract : Addr → Bool) (w : World) (hw : Sound w) :
    Serves isContract w := by
  intro now hnow
  constructor
  · intro s time htime hs
    have hadd : w.alarms.tryAdd isContract now s time = .ok (w.alarms.add s time) := by
      rw [Alarms.tryAdd, if_neg (by omega), hs]
      rfl
    exact ⟨_, Step.add w now s time _ hnow hadd⟩
  · intro hnone maxCount
    have hqueue := hw.queue
    rw [hnone] at hqueue
    have hnotify : w.alarms.tryNotify now maxCount =
        .ok ((w.alarms.alarmsSelection now).take maxCount,
          w.alarms.outAll ((w.alarms.alarmsSelection now).take maxCount)) := by
      rw [Alarms.tryNotify, Alarms.ensureNoInDelivery, hqueue]
      rfl
    exact ⟨_, _, Step.dispatch w now maxCount _ _ hnow hnotify⟩

theorem sound_replies (isContract : Addr → Bool) (w : World) (hw : Sound w) (hp : PastFirst w) :
    Replies isContract w := by
  intro now hnow hsome
  obtain ⟨⟨s, n⟩, rest, hawaited⟩ := List.exists_cons_of_ne_nil hsome
  have hqueue := hw.queue
  rw [hawaited, List.map_cons] at hqueue
  have hone : 1 ≤ asSeconds now := by
    apply (hp _).trans (asSeconds_mono _ _ hnow)
    rw [hqueue]
    exact List.cons_ne_nil _ _
  constructor
  · have hreply : w.alarms.lastDelivered =
        .ok { w.alarms with inDelivery := rest.map Prod.fst } := by
      rw [Alarms.lastDelivered, hqueue]
      rfl
    exact ⟨_, Step.delivered w now s n rest _ hnow hawaited hreply⟩
  · have hreply : w.alarms.lastFailed now =
        .ok (Alarms.addInternal { w.alarms with inDelivery := rest.map Prod.fst } s
          (asSeconds now - 1)) := by
      rw [Alarms.lastFailed, hqueue, nativeSub, if_pos hone]
      rfl
    exact ⟨_, Step.failed w now s n rest _ hnow hawaited hreply⟩

/-- Time alarms are neither lost, nor doubled, nor fired before their time. -/
structure Delivers (isContract : Addr → Bool) (w : World) : Prop where
  one : OneActive w
  counted : ∀ s, w.delivered s ≤ w.added s
  owed : ∀ s, w.delivered s < w.added s → w.alarms.active s ≠ none ∨ s ∈ w.alarms.inDelivery
  selects : ∀ ctime, SelectsDue w.alarms ctime
  batch : ∀ now maxCount subscribers w',
    Step isContract w (.dispatch now maxCount subscribers) w' →
    subscribers = (w.alarms.alarmsSelection now).take maxCount ∧
      w'.alarms.inDelivery = subscribers
  anew : ∀ now w', Step isContract w (.delivered now) w' →
    ∃ s, w.alarms.inDelivery = s :: w'.alarms.inDelivery ∧ w.delivered s < w'.delivered s
  rearmed : ∀ now w', Step isContract w (.failed now) w' →
    ∃ s, w.alarms.inDelivery = s :: w'.alarms.inDelivery ∧
      w'.alarms.active s = some (asSeconds now - 1) ∧ SelectedLater isContract w' now s
  serves : Serves isContract w
  replies : Replies isContract w

theorem delivered_anew (w w' : World) (now : ℕ) (hw : Sound w)
    (h : Step isContract w (.delivered now) w') :
    ∃ s, w.alarms.inDelivery = s :: w'.alarms.inDelivery ∧ w.delivered s < w'.delivered s := by
  cases h with
  | delivered _ s n rest alarms hnow hawaited hreply =>
    obtain ⟨subscriber, hq, -⟩ := Alarms.lastDelivered_ok _ _ hreply
    obtain ⟨rfl, -, -⟩ := queue_front w hw _ _ _ _ _ hawaited hq
    obtain ⟨hlt, -⟩ := hw.taken subscriber n (by rw [hawaited]; exact List.mem_cons_self)
    exact ⟨subscriber, hq, by simpa using hlt⟩

theorem time_alarms_delivered (isContract : Addr → Bool) (w : World)
    (h : Reachable (Step isContract) Start w) : Delivers isContract w := by
  have hw := reachable_sound w h
  constructor
  · exact sound_oneActive w hw
  · exact hw.within
  · exact fun s => (hw.owed s).1
  · exact sound_selectsDue w hw
  · intro now maxCount subscribers w' hdispatch
    obtain ⟨-, hsubscribers, -, -, hqueue, -⟩ :=
      dispatch_effect w w' now maxCount subscribers hw hdispatch
    exact ⟨hsubscribers, hqueue⟩
  · exact fun now w' => delivered_anew w w' now hw
  · intro now w' hfailed
    have hw' := step_sound w _ w' hfailed hw
    obtain ⟨s, hq, hout, hone, hactive⟩ := failed_effect w w' now hw hfailed
    have hrearmed : w'.alarms.active s = some (asSeconds now - 1) := by
      rw [hactive, Function.update_self]
    exact ⟨s, hq, hrearmed, waits_selected isContract w' now s hw' hone ⟨hrearmed, hout⟩⟩
  · exact sound_serves isContract w hw
  · exact sound_replies isContract w hw (reachable_pastFirst w h)

def started : World := ⟨Alarms.empty, 0, [], fun _ => 0, fun _ => 0, fun _ => none⟩

def subscribed : World :=
  { started with
    alarms := Alarms.empty.add 7 (5 * nanosInSecond)
    added := Function.update (fun _ => 0) 7 1
    armed := Function.update (fun _ => none) 7 (some 5) }

def dispatched : World :=
  { subscribed with
    alarms := subscribed.alarms.outAll [7]
    now := 6 * nanosInSecond
    awaited := [(7, 1)] }

theorem dispatched_reachable : Reachable (Step fun _ => true) Start dispatched := by
  have hadd : Step (fun _ => true) started (.add 0 7 (5 * nanosInSecond)) subscribed :=
    .add started 0 7 (5 * nanosInSecond) _ (Nat.zero_le 0) rfl
  have hdispatch : Step (fun _ => true) subscribed (.dispatch (6 * nanosInSecond) 3 [7])
      dispatched := .dispatch subscribed (6 * nanosInSecond) 3 [7] _ (Nat.zero_le _) rfl
  exact ⟨started, _, rfl, Run.next _ _ _ _ _ (run_one _ _ _ hadd) hdispatch⟩

/-- The delivery fails in the second 7: the alarm is armed for the second before, and selected from
then on. -/
theorem time_alarms_delivered_failed :
    Delivers (fun _ => true) dispatched ∧
    ∃ w', Step (fun _ => true) dispatched (.failed (7 * nanosInSecond)) w' ∧
      w'.alarms.active 7 = some 6 ∧
      ∀ ctime, 7 * nanosInSecond ≤ ctime → 7 ∈ w'.alarms.alarmsSelection ctime := by
  have hdelivers := time_alarms_delivered (fun _ => true) dispatched dispatched_reachable
  obtain ⟨-, w', hfailed⟩ := hdelivers.replies (7 * nanosInSecond) (by decide) (by simp [dispatched])
  obtain ⟨s, hqueue, hactive, hselected⟩ := hdelivers.rearmed _ w' hfailed
  obtain rfl : 7 = s := (List.cons.inj hqueue).1
  obtain ⟨hin, -⟩ := hselected [] [] w' w' (.start _) (.start _) (by simp)
  exact ⟨hdelivers, w', hfailed, hactive, hin.resolve_left (by simp)⟩

end Nolus.TimeAlarmsRearmed
