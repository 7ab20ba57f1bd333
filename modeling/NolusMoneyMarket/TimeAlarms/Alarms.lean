import Mathlib.Order.WithBot
import NolusMoneyMarket.Base.Fallible
import NolusMoneyMarket.Base.IndexOrder

/-! # Time alarms

A subscriber has an alarm for a time, kept in whole seconds and indexed by
them. The alarms before the current second are selected in the order of the
index. A subscriber taken out is queued until the reply to its delivery, and a
failed one is armed again for the second before. -/

set_option autoImplicit false

namespace Nolus.TimeAlarming
open Nolus.Fallible Nolus.IndexedMaps

abbrev Addr : Type := ℕ

inductive AlarmError
  | emptyAlarmsInDeliveryQueue (cause : String)
  | nonEmptyAlarmsInDeliveryQueue (cause : String)
deriving DecidableEq, Repr

inductive ContractError
  | invalidAlarm (time : ℕ)
  | platform (contract : Addr)
  | alarmError (cause : AlarmError)
deriving DecidableEq, Repr

def nanosInSecond : ℕ := 10 ^ 9

def asSeconds (from_ : ℕ) : ℕ := from_ / nanosInSecond

structure Alarms where
  alarms : IndexedMap Addr ℕ
  inDelivery : List Addr

namespace Alarms

def empty : Alarms := ⟨IndexedMap.empty, []⟩

def UpTo (bound : ℕ × WithBot Addr) (e : ℕ × Addr) : Prop :=
  e.1 < bound.1 ∨ (e.1 = bound.1 ∧ (e.2 : WithBot Addr) ≤ bound.2)

instance (bound : ℕ × WithBot Addr) (e : ℕ × Addr) : Decidable (UpTo bound e) :=
  inferInstanceAs (Decidable (_ ∨ _))

def range (self : Alarms) (bound : ℕ × WithBot Addr) : List (ℕ × Addr) :=
  self.alarms.index.filter fun e => UpTo bound e

/-- The bound is the address before any other one, the empty one. -/
def alarmsSelection (self : Alarms) (ctime : ℕ) : List Addr :=
  (self.range (asSeconds ctime, ⊥)).map Prod.snd

def addInternal (self : Alarms) (subscriber : Addr) (time : ℕ) : Alarms :=
  { self with alarms := self.alarms.save subscriber time }

def add (self : Alarms) (subscriber : Addr) (time : ℕ) : Alarms :=
  self.addInternal subscriber (asSeconds time)

def ensureNoInDelivery (self : Alarms) : Outcome AlarmError Unit :=
  ensure (self.inDelivery = []) (.error (.nonEmptyAlarmsInDeliveryQueue "Assertion requested"))

def outForDelivery (self : Alarms) (subscriber : Addr) : Alarms :=
  ⟨self.alarms.remove subscriber, self.inDelivery ++ [subscriber]⟩

def lastDelivered (self : Alarms) : Outcome AlarmError Alarms :=
  match self.inDelivery with
  | [] => failing (.emptyAlarmsInDeliveryQueue "Received success reply status")
  | _ :: rest => pure { self with inDelivery := rest }

/-- Minus one second, to ensure it can be run within the same block. -/
def lastFailed (self : Alarms) (now : ℕ) : Outcome AlarmError Alarms :=
  match self.inDelivery with
  | [] => failing (.emptyAlarmsInDeliveryQueue "Received failure reply status")
  | subscriber :: rest => do
    let time ← nativeSub (asSeconds now) 1
    pure (addInternal { self with inDelivery := rest } subscriber time)

/-! ## The contract -/

def tryAdd (self : Alarms) (isContract : Addr → Bool) (blockTime : ℕ) (subscriber : Addr)
    (time : ℕ) : Outcome ContractError Alarms :=
  if time < blockTime then failing (.invalidAlarm time)
  else do
    ensure (isContract subscriber) (.error (.platform subscriber))
    pure (self.add subscriber time)

def outAll (self : Alarms) (subscribers : List Addr) : Alarms :=
  subscribers.foldl outForDelivery self

def tryNotify (self : Alarms) (ctime maxCount : ℕ) :
    Outcome ContractError (List Addr × Alarms) := do
  mapError .alarmError self.ensureNoInDelivery
  let subscribers := (self.alarmsSelection ctime).take maxCount
  pure (subscribers, self.outAll subscribers)

/-! ## What the operations do -/

def active (self : Alarms) (subscriber : Addr) : Option ℕ := self.alarms.lookup subscriber

/-- The index keeps the active alarms, and keeps them in order. -/
def Indexed (self : Alarms) : Prop := self.alarms.InStep ∧ self.alarms.Ordered

theorem empty_indexed : empty.Indexed := ⟨empty_inStep, empty_ordered⟩

theorem save_indexed (self : Alarms) (subscriber : Addr) (time : ℕ) (h : self.Indexed) :
    (self.addInternal subscriber time).Indexed :=
  ⟨save_inStep _ h.1 _ _, replace_ordered _ h.2 _ _ _⟩

theorem active_addInternal (self : Alarms) (subscriber : Addr) (time : ℕ) :
    (self.addInternal subscriber time).active =
      Function.update self.active subscriber (some time) := lookup_save _ _ _

theorem active_outForDelivery (self : Alarms) (subscriber : Addr) :
    (self.outForDelivery subscriber).active = Function.update self.active subscriber none :=
  lookup_remove _ _

theorem active_outAll (self : Alarms) (subscribers : List Addr) (s : Addr) :
    (self.outAll subscribers).active s =
      if s ∈ subscribers then none else self.active s := by
  induction subscribers generalizing self with
  | nil => rfl
  | cons subscriber subscribers ih =>
    rw [outAll, List.foldl_cons]
    change (outAll _ _).active s = _
    rw [ih, active_outForDelivery]
    by_cases hs : s = subscriber
    · subst hs
      simp
    · simp [hs]

theorem inDelivery_outAll (self : Alarms) (subscribers : List Addr) :
    (self.outAll subscribers).inDelivery = self.inDelivery ++ subscribers := by
  induction subscribers generalizing self with
  | nil => simp [outAll]
  | cons subscriber subscribers ih =>
    rw [outAll, List.foldl_cons]
    change (outAll _ _).inDelivery = _
    rw [ih]
    simp [outForDelivery]

theorem outAll_indexed (self : Alarms) (subscribers : List Addr) (h : self.Indexed) :
    (self.outAll subscribers).Indexed := by
  induction subscribers generalizing self with
  | nil => exact h
  | cons subscriber subscribers ih =>
    exact ih _ ⟨remove_inStep _ h.1 _, replace_ordered _ h.2 _ _ _⟩

theorem upTo_bot (seconds : ℕ) (e : ℕ × Addr) : UpTo (seconds, ⊥) e ↔ e.1 < seconds := by
  simp [UpTo]

theorem mem_range (self : Alarms) (h : self.Indexed) (seconds t : ℕ) (s : Addr) :
    (t, s) ∈ self.range (seconds, ⊥) ↔ self.active s = some t ∧ t < seconds := by
  rw [range, List.mem_filter, h.1.2, decide_eq_true_eq, upTo_bot]
  rfl

theorem range_keys_nodup (self : Alarms) (h : self.Indexed) (bound : ℕ × WithBot Addr) :
    ((self.range bound).map Prod.snd).Nodup :=
  (index_keys_nodup _ h.1).sublist (List.filter_sublist.map _)

theorem range_in_time_order (self : Alarms) (h : self.Indexed) (bound : ℕ × WithBot Addr) :
    (self.range bound).Pairwise fun a b => a.1 ≤ b.1 := by
  apply (h.2.filter _).imp
  rintro a b (hlt | ⟨heq, -⟩)
  · exact hlt.le
  · exact heq.le

theorem mem_alarmsSelection (self : Alarms) (h : self.Indexed) (ctime : ℕ) (s : Addr) :
    s ∈ self.alarmsSelection ctime ↔ ∃ t, self.active s = some t ∧ t < asSeconds ctime := by
  rw [alarmsSelection, List.mem_map]
  constructor
  · rintro ⟨⟨t, _⟩, hin, rfl⟩
    exact ⟨t, (mem_range self h _ _ _).1 hin⟩
  · rintro ⟨t, ht⟩
    exact ⟨(t, s), (mem_range self h _ _ _).2 ht, rfl⟩

theorem tryAdd_ok (self next : Alarms) (isContract : Addr → Bool) (blockTime : ℕ)
    (subscriber : Addr) (time : ℕ)
    (h : self.tryAdd isContract blockTime subscriber time = .ok next) :
    blockTime ≤ time ∧ next = self.addInternal subscriber (asSeconds time) := by
  unfold tryAdd at h
  split_ifs at h with hpast
  · exact absurd h (failing_ok _ _)
  · simp only [bind_ok, ensure_ok, pure_ok] at h
    obtain ⟨_, -, rfl⟩ := h
    exact ⟨not_lt.1 hpast, rfl⟩

theorem tryNotify_ok (self next : Alarms) (ctime maxCount : ℕ) (subscribers : List Addr)
    (h : self.tryNotify ctime maxCount = .ok (subscribers, next)) :
    self.inDelivery = [] ∧ subscribers = (self.alarmsSelection ctime).take maxCount ∧
      next = self.outAll subscribers := by
  simp only [tryNotify, ensureNoInDelivery, bind_ok, mapError_ok, ensure_ok, pure_ok,
    Prod.mk.injEq] at h
  obtain ⟨_, hnone, rfl, rfl⟩ := h
  exact ⟨hnone, rfl, rfl⟩

theorem lastDelivered_ok (self next : Alarms) (h : self.lastDelivered = .ok next) :
    ∃ subscriber, self.inDelivery = subscriber :: next.inDelivery ∧
      next.alarms = self.alarms := by
  unfold lastDelivered at h
  split at h
  · exact absurd h (failing_ok _ _)
  · next subscriber rest hq =>
    obtain rfl := (pure_ok _ _).1 h
    exact ⟨subscriber, hq, rfl⟩

theorem lastFailed_ok (self next : Alarms) (now : ℕ) (h : self.lastFailed now = .ok next) :
    ∃ subscriber rest, self.inDelivery = subscriber :: rest ∧ 1 ≤ asSeconds now ∧
      next = addInternal { self with inDelivery := rest } subscriber (asSeconds now - 1) := by
  unfold lastFailed at h
  split at h
  · exact absurd h (failing_ok _ _)
  · next subscriber rest hq =>
    simp only [bind_ok, nativeSub_ok, pure_ok] at h
    obtain ⟨_, ⟨hone, rfl⟩, rfl⟩ := h
    exact ⟨subscriber, rest, hq, hone, rfl⟩

end Alarms

end Nolus.TimeAlarming
