import NolusMoneyMarket.Base.Runs

/-! # Deliveries repeated until one succeeds

A client stores what it has received and delivers it by a message to itself. A
delivery that fails is rolled back and replied, the reply sets an alarm up, and
the alarm is repeated until its delivery succeeds. The events may come in any
order; what is stored is applied in the order of storing and once each, to what
its handler makes of it, and the last one stored has an attempt ahead until it
is applied. -/

set_option autoImplicit false

namespace Nolus.Redelivery
open Nolus.Runs

variable {S D E C : Type}

/-- What a client that accepts an event does: it goes on or is done, with a message sent to itself
or not, and an alarm set up or not. -/
structure Taken (S : Type) where
  next : Option S
  forwards : Bool
  alarms : Bool

structure Client (S D E C : Type) where
  delivery : S → Option D
  /-- What the handler of a delivery makes of it. -/
  apply : E → D → Option (Taken S)
  onInner : E → S → Option (Taken S)
  onAlarm : E → S → Option (Taken S)
  onReply : E → S → Option (Taken S)
  onCall : E → S → C → Option (Taken S)

/-- An attempt that has succeeded: when, for which delivery, and what the client has done then. -/
structure Attempt (S D E : Type) where
  env : E
  delivery : D
  taken : Taken S

/-- A client with what is ahead of it: its message to itself, the reply of a failed one, its alarm.
What has been stored and the attempts that have succeeded are kept for the statements only. -/
structure World (S D E : Type) where
  state : Option S
  inner : Bool
  reply : Bool
  alarm : Bool
  stored : List D
  applied : List (Attempt S D E)

variable (client : Client S D E C)

def current (state : Option S) : Option D := state.bind client.delivery

/-- An attempt or a call may be refused for what the client has sent out with it. -/
inductive Event (E C : Type)
  | inner (env : E) (refused : Bool)
  | reply (env : E)
  | alarm (env : E) (refused : Bool)
  | call (env : E) (call : C) (refused : Bool)

def World.taken (w : World S D E) (t : Taken S) : World S D E where
  state := t.next
  inner := w.inner || t.forwards
  reply := w.reply
  alarm := w.alarm || t.alarms
  stored := w.stored ++ if t.forwards then (current client t.next).toList else []
  applied := w.applied

def World.attempted (w : World S D E) (s : S) (env : E) (t : Taken S) : World S D E :=
  { w with applied := w.applied ++ (client.delivery s).toList.map fun d => ⟨env, d, t⟩ }

def accepted (refused : Bool) (t : Option (Taken S)) : Option (Taken S) :=
  if refused then none else t

/-- A failed reply leaves no world: it rolls back the transaction that has stored what was received. -/
def World.happens (w : World S D E) (s : S) : Event E C → Option (World S D E)
  | .inner env refused =>
    if w.inner then
      match accepted refused (client.onInner env s) with
      | some t => some (({ w with inner := false }.attempted client s env t).taken client t)
      | none => some { w with inner := false, reply := true }
    else none
  | .reply env =>
    if w.reply then
      match client.onReply env s with
      | some t => some (({ w with reply := false } : World S D E).taken client t)
      | none => none
    else none
  | .alarm env refused =>
    if w.alarm then
      match accepted refused (client.onAlarm env s) with
      | some t => some (({ w with alarm := false }.attempted client s env t).taken client t)
      | none => some w
    else none
  | .call env call refused =>
    match accepted refused (client.onCall env s call) with
    | some t => some (w.taken client t)
    | none => some w

def World.step (w : World S D E) (event : Event E C) : Option (World S D E) :=
  w.state.bind fun s => w.happens client s event

def Step (w : World S D E) (event : Event E C) (w' : World S D E) : Prop :=
  w.step client event = some w'

/-- A client that leads to a delivery only with a message to itself. While it has one it takes no
calls, and a reply leaves it as it is with an alarm set up. -/
structure Reliable : Prop where
  forwarded : ∀ env s t d, (client.onInner env s = some t ∨ client.onAlarm env s = some t ∨
      (∃ call, client.onCall env s call = some t) ∨
      (client.delivery s = none ∧ client.onReply env s = some t)) →
    current client t.next = some d → t.forwards = true
  uncalled : ∀ env s d call, client.delivery s = some d → client.onCall env s call = none
  replied : ∀ env s d t, client.delivery s = some d → client.onReply env s = some t →
    t = ⟨some s, false, true⟩
  applies : ∀ env s d t, client.delivery s = some d →
    (client.onInner env s = some t ∨ client.onAlarm env s = some t) → client.apply env d = some t

def World.Pending (w : World S D E) : Prop := w.inner = true ∨ w.reply = true ∨ w.alarm = true

def Attempt.Applies (a : Attempt S D E) : Prop := client.apply a.env a.delivery = some a.taken

def World.deliveries (w : World S D E) : List D := w.applied.map Attempt.delivery

/-- Everything stored has been applied, but for a delivery that is still stored and has an attempt
ahead. -/
structure Delivered (w : World S D E) : Prop where
  stored : w.stored = w.deliveries ++ (current client w.state).toList
  pending : ∀ d, current client w.state = some d → w.Pending
  applied : ∀ a ∈ w.applied, a.Applies client

def JustStored (d : D) (w : World S D E) : Prop :=
  current client w.state = some d ∧ w.inner = true ∧ w.stored = [d] ∧ w.applied = []

variable {client}

theorem accepted_some (refused : Bool) (x : Option (Taken S)) (t : Taken S)
    (h : accepted refused x = some t) : x = some t := by
  cases refused with
  | true => cases h
  | false => exact h

theorem taken_delivered (w : World S D E) (t : Taken S) (hs : w.stored = w.deliveries)
    (ha : ∀ a ∈ w.applied, a.Applies client)
    (hf : ∀ d, current client t.next = some d → t.forwards = true) :
    Delivered client (w.taken client t) := by
  refine ⟨?_, ?_, ha⟩
  · change w.stored ++ _ = w.deliveries ++ (current client t.next).toList
    rw [hs]
    cases hc : current client t.next with
    | none => simp
    | some d => rw [if_pos (hf d hc)]
  · intro d hd
    left
    simp [World.taken, hf d hd]

/-- An attempt that succeeds applies what has been stored last. -/
theorem attempted_delivered (hc : Reliable client) (w : World S D E) (env : E) (s : S) (t : Taken S)
    (hstored : w.stored = w.deliveries ++ (client.delivery s).toList)
    (ha : ∀ a ∈ w.applied, a.Applies client)
    (ht : client.onInner env s = some t ∨ client.onAlarm env s = some t) :
    Delivered client ((w.attempted client s env t).taken client t) := by
  apply taken_delivered
  · change w.stored = (w.applied ++ _).map Attempt.delivery
    rw [List.map_append, hstored]
    cases client.delivery s <;> rfl
  · intro a hin
    rcases List.mem_append.1 hin with hin | hin
    · exact ha a hin
    · obtain ⟨d, hd, rfl⟩ := List.mem_map.1 hin
      exact hc.applies env s d t (Option.mem_toList.1 hd) ht
  · intro d
    exact hc.forwarded env s t d (ht.imp_right .inl)

/-- A reply finds the delivery still stored and sets an alarm up for it. -/
theorem replied_delivered (hc : Reliable client) (w : World S D E) (env : E) (s : S) (t : Taken S)
    (hstored : w.stored = w.deliveries ++ (client.delivery s).toList)
    (ha : ∀ a ∈ w.applied, a.Applies client) (ht : client.onReply env s = some t) :
    Delivered client (({ w with reply := false } : World S D E).taken client t) := by
  cases hd : client.delivery s with
  | none =>
    rw [hd] at hstored
    exact taken_delivered _ t (hstored.trans (List.append_nil _)) ha
      fun d => hc.forwarded env s t d (.inr (.inr (.inr ⟨hd, ht⟩)))
  | some d =>
    obtain rfl := hc.replied env s d t hd ht
    refine ⟨?_, ?_, ha⟩
    · simpa [World.taken, World.deliveries, current] using hstored
    · intro _ _
      right
      right
      simp [World.taken]

theorem called_delivered (hc : Reliable client) (w : World S D E) (env : E) (s : S) (call : C)
    (t : Taken S) (hstored : w.stored = w.deliveries ++ (client.delivery s).toList)
    (ha : ∀ a ∈ w.applied, a.Applies client) (ht : client.onCall env s call = some t) :
    Delivered client (w.taken client t) := by
  cases hd : client.delivery s with
  | none =>
    rw [hd] at hstored
    exact taken_delivered _ t (hstored.trans (List.append_nil _)) ha
      fun d => hc.forwarded env s t d (.inr (.inr (.inl ⟨call, ht⟩)))
  | some d =>
    rw [hc.uncalled env s d call hd] at ht
    cases ht

inductive Happens (client : Client S D E C) (w : World S D E) (s : S) : Event E C → World S D E → Prop
  | inner (env : E) (refused : Bool) (t : Taken S) : client.onInner env s = some t →
      Happens client w s (.inner env refused)
        (({ w with inner := false }.attempted client s env t).taken client t)
  | innerFailed (env : E) (refused : Bool) :
      Happens client w s (.inner env refused) { w with inner := false, reply := true }
  | reply (env : E) (t : Taken S) : client.onReply env s = some t →
      Happens client w s (.reply env) (({ w with reply := false } : World S D E).taken client t)
  | alarm (env : E) (refused : Bool) (t : Taken S) : client.onAlarm env s = some t →
      Happens client w s (.alarm env refused)
        (({ w with alarm := false }.attempted client s env t).taken client t)
  | alarmFailed (env : E) (refused : Bool) : Happens client w s (.alarm env refused) w
  | call (env : E) (call : C) (refused : Bool) (t : Taken S) : client.onCall env s call = some t →
      Happens client w s (.call env call refused) (w.taken client t)
  | callFailed (env : E) (call : C) (refused : Bool) :
      Happens client w s (.call env call refused) w

theorem happens_cases (w w' : World S D E) (s : S) (event : Event E C)
    (h : w.happens client s event = some w') : Happens client w s event w' := by
  cases event with
  | inner env refused =>
    simp only [World.happens] at h
    split_ifs at h
    split at h
    · next t ht =>
      cases h
      exact .inner env refused t (accepted_some _ _ _ ht)
    · cases h
      exact .innerFailed env refused
  | reply env =>
    simp only [World.happens] at h
    split_ifs at h
    split at h
    · next t ht =>
      cases h
      exact .reply env t ht
    · cases h
  | alarm env refused =>
    simp only [World.happens] at h
    split_ifs at h
    split at h
    · next t ht =>
      cases h
      exact .alarm env refused t (accepted_some _ _ _ ht)
    · cases h
      exact .alarmFailed env refused
  | call env call refused =>
    simp only [World.happens] at h
    split at h
    · next t ht =>
      cases h
      exact .call env call refused t (accepted_some _ _ _ ht)
    · cases h
      exact .callFailed env call refused

theorem happens_delivered (hc : Reliable client) (w w' : World S D E) (s : S) (event : Event E C)
    (hstate : w.state = some s) (hw : Delivered client w)
    (h : w.happens client s event = some w') : Delivered client w' := by
  have hcurrent : current client w.state = client.delivery s := by
    rw [hstate]
    rfl
  have hstored := hw.stored
  rw [hcurrent] at hstored
  cases happens_cases w w' s event h with
  | inner env _ t ht =>
    exact attempted_delivered hc { w with inner := false } env s t hstored hw.applied (.inl ht)
  | innerFailed _ _ => exact ⟨hw.stored, fun _ _ => .inr (.inl rfl), hw.applied⟩
  | reply env t ht => exact replied_delivered hc w env s t hstored hw.applied ht
  | alarm env _ t ht =>
    exact attempted_delivered hc { w with alarm := false } env s t hstored hw.applied (.inr ht)
  | alarmFailed _ _ => exact hw
  | call env call _ t ht => exact called_delivered hc w env s call t hstored hw.applied ht
  | callFailed _ _ _ => exact hw

theorem happens_grows (w w' : World S D E) (s : S) (event : Event E C)
    (h : w.happens client s event = some w') :
    w.stored <+: w'.stored ∧ w.applied <+: w'.applied := by
  cases happens_cases w w' s event h with
  | inner _ _ _ _ => exact ⟨List.prefix_append _ _, List.prefix_append _ _⟩
  | innerFailed _ _ => exact ⟨List.prefix_rfl, List.prefix_rfl⟩
  | reply _ _ _ => exact ⟨List.prefix_append _ _, List.prefix_rfl⟩
  | alarm _ _ _ _ => exact ⟨List.prefix_append _ _, List.prefix_append _ _⟩
  | alarmFailed _ _ => exact ⟨List.prefix_rfl, List.prefix_rfl⟩
  | call _ _ _ _ _ => exact ⟨List.prefix_append _ _, List.prefix_rfl⟩
  | callFailed _ _ _ => exact ⟨List.prefix_rfl, List.prefix_rfl⟩

def Kept (client : Client S D E C) (d : D) (w : World S D E) : Prop :=
  Delivered client w ∧ [d] <+: w.stored

theorem step_kept (hc : Reliable client) (d : D) (w : World S D E) (event : Event E C)
    (w' : World S D E) (h : Step client w event w') (hw : Kept client d w) : Kept client d w' := by
  obtain ⟨hdelivered, hprefix⟩ := hw
  obtain ⟨s, hstate, h⟩ := Option.bind_eq_some_iff.1 h
  exact ⟨happens_delivered hc w w' s event hstate hdelivered h,
    hprefix.trans (happens_grows w w' s event h).1⟩

/-- Not applied yet, the delivery is still stored and has an attempt ahead. -/
def Waiting (client : Client S D E C) (d : D) (w : World S D E) : Prop :=
  w.applied = [] ∧ w.stored = [d] ∧ current client w.state = some d ∧ w.Pending

/-- Applied once, to what its handler makes of it. All that is applied past it has been stored past
it. -/
def AppliedOnce (client : Client S D E C) (d : D) (w : World S D E) : Prop :=
  (∀ a ∈ w.applied, a.Applies client) ∧ ∃ first later rest, w.applied = first :: later ∧
    first.delivery = d ∧ w.stored = d :: rest ∧ later.map Attempt.delivery <+: rest

theorem delivered_once (hc : Reliable client) (d : D) (w : World S D E)
    (h : Reachable (Step client) (JustStored client d) w) :
    Waiting client d w ∨ AppliedOnce client d w := by
  have hkept : Kept client d w := by
    refine reachable_induction (JustStored client d) (Kept client d) ?_ (step_kept hc d) w h
    intro w ⟨hcurrent, hinner, hstored, happlied⟩
    refine ⟨⟨?_, fun _ _ => .inl hinner, ?_⟩, by rw [hstored]⟩
    · rw [hstored, World.deliveries, happlied, hcurrent]
      rfl
    · rw [happlied]
      exact fun _ hin => absurd hin List.not_mem_nil
  obtain ⟨⟨hstored, hpending, happlies⟩, rest, hrest⟩ := hkept
  cases happlied : w.applied with
  | nil =>
    rw [← hrest, World.deliveries, happlied] at hstored
    cases hcurrent : current client w.state with
    | none =>
      rw [hcurrent] at hstored
      cases hstored
    | some d' =>
      rw [hcurrent] at hstored
      obtain ⟨rfl, rfl⟩ := List.cons.inj hstored
      exact .inl ⟨happlied, hrest.symm, hcurrent, hpending _ hcurrent⟩
  | cons first later =>
    rw [← hrest, World.deliveries, happlied] at hstored
    obtain ⟨rfl, rfl⟩ := List.cons.inj hstored
    exact .inr ⟨happlies, first, later, _, happlied, rfl, hrest.symm, List.prefix_append _ _⟩

end Nolus.Redelivery
