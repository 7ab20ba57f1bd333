import NolusMoneyMarket.Base.Runs
import NolusMoneyMarket.TimeAlarms.Alarms

/-! # Delivery of time alarms

The alarms among their subscribers, over block times that never decrease. The
environment counts the alarms a subscriber has added, and remembers that count
of everyone awaited. The replies come in the order of the batch. What a failed
delivery has done is rolled back, an alarm added during a successful one stays. -/

set_option autoImplicit false

namespace Nolus.TimeAlarmsDelivery
open Nolus.Fallible Nolus.IndexedMaps Nolus.Runs Nolus.TimeAlarming

structure World where
  alarms : Alarms
  now : ℕ
  /-- Who is awaited, and how many alarms it had added when taken out. -/
  awaited : List (Addr × ℕ)
  added : Addr → ℕ
  /-- The count of the alarm delivered last. -/
  delivered : Addr → ℕ
  /-- The alarm added or armed again last. -/
  armed : Addr → Option ℕ

inductive Event
  | add (now : ℕ) (subscriber : Addr) (time : ℕ)
  | dispatch (now maxCount : ℕ) (subscribers : List Addr)
  | delivered (now : ℕ)
  | failed (now : ℕ)
deriving DecidableEq, Repr

def Event.now : Event → ℕ
  | .add now _ _ => now
  | .dispatch now _ _ => now
  | .delivered now => now
  | .failed now => now

inductive Step (isContract : Addr → Bool) : World → Event → World → Prop
  | add (w : World) (now : ℕ) (s : Addr) (time : ℕ) (alarms : Alarms) (hnow : w.now ≤ now)
      (hadd : w.alarms.tryAdd isContract now s time = .ok alarms) :
      Step isContract w (.add now s time)
        { w with
          alarms := alarms
          now := now
          added := Function.update w.added s (w.added s + 1)
          armed := Function.update w.armed s (some (asSeconds time)) }
  | dispatch (w : World) (now maxCount : ℕ) (subscribers : List Addr) (alarms : Alarms)
      (hnow : w.now ≤ now)
      (hnotify : w.alarms.tryNotify now maxCount = .ok (subscribers, alarms)) :
      Step isContract w (.dispatch now maxCount subscribers)
        { w with
          alarms := alarms
          now := now
          awaited := subscribers.map fun s => (s, w.added s) }
  | delivered (w : World) (now : ℕ) (s : Addr) (n : ℕ) (rest : List (Addr × ℕ)) (alarms : Alarms)
      (hnow : w.now ≤ now) (hw : w.awaited = (s, n) :: rest)
      (hreply : w.alarms.lastDelivered = .ok alarms) :
      Step isContract w (.delivered now)
        { w with
          alarms := alarms
          now := now
          awaited := rest
          delivered := Function.update w.delivered s n }
  | failed (w : World) (now : ℕ) (s : Addr) (n : ℕ) (rest : List (Addr × ℕ)) (alarms : Alarms)
      (hnow : w.now ≤ now) (hw : w.awaited = (s, n) :: rest)
      (hreply : w.alarms.lastFailed now = .ok alarms) :
      Step isContract w (.failed now)
        { w with
          alarms := alarms
          now := now
          awaited := rest
          armed := Function.update w.armed s (some (asSeconds now - 1)) }

def Start (w : World) : Prop :=
  w = ⟨Alarms.empty, w.now, [], fun _ => 0, fun _ => 0, fun _ => none⟩

/-- The queue is who is awaited, and an alarm is owed to whoever is active or awaited. -/
structure Sound (w : World) : Prop where
  indexed : w.alarms.Indexed
  latest : ∀ s t, w.alarms.active s = some t → w.armed s = some t
  queue : w.alarms.inDelivery = w.awaited.map Prod.fst
  distinct : w.alarms.inDelivery.Nodup
  within : ∀ s, w.delivered s ≤ w.added s
  owed : ∀ s, w.delivered s < w.added s ↔
    w.alarms.active s ≠ none ∨ s ∈ w.alarms.inDelivery
  taken : ∀ s n, (s, n) ∈ w.awaited →
    w.delivered s < n ∧ n ≤ w.added s ∧ (w.alarms.active s = none ↔ n = w.added s)

theorem start_sound (w : World) (h : Start w) : Sound w := by
  rw [h]
  constructor
  · exact Alarms.empty_indexed
  · intro s t ht
    cases ht
  · rfl
  · exact List.nodup_nil
  · intro s
    exact le_rfl
  · intro s
    simp [Alarms.active, Alarms.empty, IndexedMap.empty, IndexedMap.lookup]
  · intro s n hn
    cases hn

variable {isContract : Addr → Bool}

theorem queue_front (w : World) (hw : Sound w) (s subscriber : Addr) (n : ℕ)
    (rest : List (Addr × ℕ)) (queue : List Addr) (h : w.awaited = (s, n) :: rest)
    (hq : w.alarms.inDelivery = subscriber :: queue) :
    subscriber = s ∧ queue = rest.map Prod.fst ∧ s ∉ queue := by
  have hqueue := hw.queue
  have hdistinct := hw.distinct
  rw [hq, h, List.map_cons, List.cons.injEq] at hqueue
  obtain ⟨rfl, rfl⟩ := hqueue
  rw [hq, List.nodup_cons] at hdistinct
  exact ⟨rfl, rfl, hdistinct.1⟩

theorem add_sound (w w' : World) (now : ℕ) (s : Addr) (time : ℕ) (hw : Sound w)
    (h : Step isContract w (.add now s time) w') : Sound w' := by
  cases h with
  | add _ _ _ alarms hnow hadd =>
    obtain ⟨-, rfl⟩ := Alarms.tryAdd_ok _ _ _ _ _ _ hadd
    have hactive := Alarms.active_addInternal w.alarms s (asSeconds time)
    refine ⟨Alarms.save_indexed _ _ _ hw.indexed, ?_, hw.queue, hw.distinct, ?_, ?_, ?_⟩
    · intro u t hu
      simp only [hactive] at hu ⊢
      by_cases hs : u = s
      · subst hs
        simpa using hu
      · simp only [Function.update_of_ne hs] at hu ⊢
        exact hw.latest u t hu
    · intro u
      simp only
      by_cases hs : u = s
      · subst hs
        simp [Nat.le_succ_of_le (hw.within u)]
      · simpa [Function.update_of_ne hs] using hw.within u
    · intro u
      simp only [hactive]
      by_cases hs : u = s
      · subst hs
        simp [Nat.lt_succ_of_le (hw.within u)]
      · simpa [Function.update_of_ne hs, Alarms.addInternal] using hw.owed u
    · intro u n hu
      obtain ⟨h1, h2, h3⟩ := hw.taken u n hu
      simp only [hactive]
      by_cases hs : u = s
      · subst hs
        simp only [Function.update_self]
        exact ⟨h1, by omega, by simp; omega⟩
      · simpa [Function.update_of_ne hs] using ⟨h1, h2, h3⟩

theorem dispatch_effect (w w' : World) (now maxCount : ℕ) (subscribers : List Addr) (hw : Sound w)
    (h : Step isContract w (.dispatch now maxCount subscribers) w') :
    w.alarms.inDelivery = [] ∧
      subscribers = (w.alarms.alarmsSelection now).take maxCount ∧ subscribers.Nodup ∧
      (∀ s ∈ subscribers, w.alarms.active s ≠ none) ∧ w'.alarms.inDelivery = subscribers ∧
      ∀ s, w'.alarms.active s = if s ∈ subscribers then none else w.alarms.active s := by
  cases h with
  | dispatch _ _ _ alarms hnow hnotify =>
    obtain ⟨hnone, hsubscribers, rfl⟩ := Alarms.tryNotify_ok _ _ _ _ _ hnotify
    refine ⟨hnone, hsubscribers, ?_, ?_, ?_, Alarms.active_outAll _ _⟩
    · rw [hsubscribers]
      exact (Alarms.range_keys_nodup _ hw.indexed _).sublist (List.take_sublist _ _)
    · intro s hs
      rw [hsubscribers] at hs
      obtain ⟨t, ht, -⟩ := (Alarms.mem_alarmsSelection _ hw.indexed _ _).1 (List.mem_of_mem_take hs)
      simp [ht]
    · rw [Alarms.inDelivery_outAll, hnone, List.nil_append]

theorem dispatch_sound (w w' : World) (now maxCount : ℕ) (subscribers : List Addr) (hw : Sound w)
    (h : Step isContract w (.dispatch now maxCount subscribers) w') : Sound w' := by
  obtain ⟨hnone, -, hnodup, hheld, hqueue, hactive⟩ := dispatch_effect w w' now maxCount _ hw h
  cases h with
  | dispatch _ _ _ alarms hnow hnotify =>
    obtain ⟨-, -, rfl⟩ := Alarms.tryNotify_ok _ _ _ _ _ hnotify
    refine ⟨Alarms.outAll_indexed _ _ hw.indexed, ?_, ?_, by rw [hqueue]; exact hnodup, hw.within,
      ?_, ?_⟩
    · intro s t hs
      rw [hactive] at hs
      split_ifs at hs
      exact hw.latest s t hs
    · rw [hqueue]
      simp [Function.comp_def]
    · intro s
      have howed := hw.owed s
      rw [hnone] at howed
      rw [hactive, hqueue]
      split_ifs with hs
      · simp [hs, howed, hheld s hs]
      · simpa [hs] using howed
    · intro s n hn
      obtain ⟨s', hs, heq⟩ := List.mem_map.1 hn
      obtain ⟨rfl, rfl⟩ := Prod.mk.inj heq
      refine ⟨(hw.owed s').2 (.inl (hheld s' hs)), le_rfl, ?_⟩
      rw [hactive, if_pos hs]
      simp

theorem delivered_sound (w w' : World) (now : ℕ) (hw : Sound w)
    (h : Step isContract w (.delivered now) w') : Sound w' := by
  cases h with
  | delivered _ s n rest alarms hnow hawaited hreply =>
    obtain ⟨subscriber, hq, hsame⟩ := Alarms.lastDelivered_ok _ _ hreply
    obtain ⟨rfl, hrest, hout⟩ := queue_front w hw _ _ _ _ _ hawaited hq
    have hactive : alarms.active = w.alarms.active := by
      unfold Alarms.active
      rw [hsame]
    have hdistinct := hw.distinct
    rw [hq, List.nodup_cons] at hdistinct
    obtain ⟨h1, h2, h3⟩ := hw.taken subscriber n (by rw [hawaited]; exact List.mem_cons_self)
    have hindexed : alarms.Indexed := by
      unfold Alarms.Indexed
      rw [hsame]
      exact hw.indexed
    refine ⟨hindexed, ?_, hrest, hdistinct.2, ?_, ?_, ?_⟩
    · simp only [hactive]
      exact hw.latest
    · intro u
      simp only
      by_cases hs : u = subscriber
      · subst hs
        simpa using h2
      · simpa [Function.update_of_ne hs] using hw.within u
    · intro u
      have howed := hw.owed u
      rw [hq, List.mem_cons] at howed
      simp only [hactive]
      by_cases hs : u = subscriber
      · subst hs
        simp only [Function.update_self, hout, or_false]
        rw [Ne, h3]
        omega
      · simpa [Function.update_of_ne hs, hs] using howed
    · intro u m hm
      have hu : u ≠ subscriber := by
        rintro rfl
        apply hout
        rw [hrest]
        exact List.mem_map_of_mem hm
      simp only [hactive, Function.update_of_ne hu]
      exact hw.taken u m (by rw [hawaited]; exact List.mem_cons_of_mem _ hm)

theorem failed_effect (w w' : World) (now : ℕ) (hw : Sound w)
    (h : Step isContract w (.failed now) w') :
    ∃ s, w.alarms.inDelivery = s :: w'.alarms.inDelivery ∧ s ∉ w'.alarms.inDelivery ∧
      1 ≤ asSeconds now ∧
      w'.alarms.active = Function.update w.alarms.active s (some (asSeconds now - 1)) := by
  cases h with
  | failed _ s n rest alarms hnow hawaited hreply =>
    obtain ⟨subscriber, queue, hq, hone, rfl⟩ := Alarms.lastFailed_ok _ _ _ hreply
    obtain ⟨rfl, -, hout⟩ := queue_front w hw _ _ _ _ _ hawaited hq
    exact ⟨subscriber, hq, hout, hone, Alarms.active_addInternal _ _ _⟩

theorem failed_sound (w w' : World) (now : ℕ) (hw : Sound w)
    (h : Step isContract w (.failed now) w') : Sound w' := by
  obtain ⟨s, hq, hout, -, hactive⟩ := failed_effect w w' now hw h
  cases h with
  | failed _ s' n rest alarms hnow hawaited hreply =>
    obtain ⟨subscriber, queue, hq', -, rfl⟩ := Alarms.lastFailed_ok _ _ _ hreply
    obtain ⟨rfl, hrest, -⟩ := queue_front w hw _ _ _ _ _ hawaited hq
    have hdistinct := hw.distinct
    rw [hq, List.nodup_cons] at hdistinct
    have hindexed : ({ w.alarms with inDelivery := queue } : Alarms).Indexed := hw.indexed
    refine ⟨Alarms.save_indexed _ _ _ hindexed, ?_, hrest, hdistinct.2, hw.within, ?_, ?_⟩
    · intro u t hu
      rw [hactive] at hu
      by_cases hs : u = s
      · subst hs
        simpa using hu
      · simp only [Function.update_of_ne hs] at hu ⊢
        exact hw.latest u t hu
    · intro u
      have howed := hw.owed u
      rw [hq, List.mem_cons] at howed
      rw [hactive]
      by_cases hs : u = s
      · subst hs
        simpa using howed
      · simpa [Function.update_of_ne hs, hs] using howed
    · intro u m hm
      have hu : u ≠ s := by
        rintro rfl
        apply hout
        rw [hrest]
        exact List.mem_map_of_mem hm
      rw [hactive, Function.update_of_ne hu]
      exact hw.taken u m (by rw [hawaited]; exact List.mem_cons_of_mem _ hm)

theorem step_sound (w : World) (e : Event) (w' : World) (h : Step isContract w e w')
    (hw : Sound w) : Sound w' := by
  cases e with
  | add now s time => exact add_sound w w' now s time hw h
  | dispatch now maxCount subscribers => exact dispatch_sound w w' now maxCount _ hw h
  | delivered now => exact delivered_sound w w' now hw h
  | failed now => exact failed_sound w w' now hw h

theorem reachable_sound (w : World) (h : Reachable (Step isContract) Start w) : Sound w :=
  reachable_induction Start Sound start_sound step_sound w h

end Nolus.TimeAlarmsDelivery
