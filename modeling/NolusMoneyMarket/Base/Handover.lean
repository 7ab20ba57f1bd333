import NolusMoneyMarket.Base.Runs

/-! # Clients that three mechanisms keep going

A client goes on with the answer to a request, with a message it has sent to
itself, or with an alarm. Each state relies on one of them. A message to itself
that fails is replied, and a reply that fails rolls the client back to where it
has been before the message. An alarm whose handling fails is repeated, whereas
an answer comes but once. Hence a client whose steps arm the mechanism of the
state they lead to goes on for ever, unless it fails on an answer or on a reply. -/

set_option autoImplicit false

namespace Nolus.Handover
open Nolus.Runs

variable {S ρ ι E C : Type}

inductive Mechanism (ρ : Type)
  | answer (request : ρ)
  | delivery
  | alarm

structure Taken (S ρ : Type) where
  next : S
  submitted : List ρ
  forwards : Bool
  alarms : Bool

structure Client (S ρ ι E C : Type) where
  answers : ι → ρ → Prop
  onAnswer : E → S → ι → Option (Taken S ρ)
  onInner : E → S → Option (Taken S ρ)
  onReply : E → S → Option (Taken S ρ)
  onAlarm : E → S → Option (Taken S ρ)
  onCall : E → S → C → Option (Taken S ρ)

/-- A message of the client to itself, or the reply of a failed one, with the state it was sent in. -/
inductive SelfCall (S : Type)
  | inner (before : S)
  | reply (before : S)
deriving DecidableEq, Repr

structure World (S ρ : Type) where
  state : S
  unanswered : List ρ
  selfCall : Option (SelfCall S)
  alarm : Bool
deriving DecidableEq, Repr

inductive Event (ρ ι E C : Type)
  | answer (env : E) (request : ρ) (input : ι)
  | inner (env : E)
  | reply (env : E)
  | alarm (env : E)
  | call (env : E) (call : C)

def World.taken (w : World S ρ) (t : Taken S ρ) : World S ρ where
  state := t.next
  unanswered := w.unanswered ++ t.submitted
  selfCall := if t.forwards then some (.inner w.state) else w.selfCall
  alarm := w.alarm || t.alarms

def World.tried (w otherwise : World S ρ) : Option (Taken S ρ) → World S ρ
  | some t => w.taken t
  | none => otherwise

inductive Step (c : Client S ρ ι E C) (w : World S ρ) : Event ρ ι E C → World S ρ → Prop
  | answer (env : E) (request : ρ) (before after : List ρ) (input : ι) :
      w.unanswered = before ++ request :: after → c.answers input request →
      Step c w (.answer env request input)
        ({ w with unanswered := before ++ after }.tried { w with unanswered := before ++ after }
          (c.onAnswer env w.state input))
  | inner (env : E) (before : S) : w.selfCall = some (.inner before) →
      Step c w (.inner env)
        ({ w with selfCall := none }.tried { w with selfCall := some (.reply before) }
          (c.onInner env w.state))
  | reply (env : E) (before : S) : w.selfCall = some (.reply before) →
      Step c w (.reply env)
        ({ w with selfCall := none }.tried { w with state := before, selfCall := none }
          (c.onReply env w.state))
  | alarm (env : E) : w.alarm = true →
      Step c w (.alarm env) ({ w with alarm := false }.tried w (c.onAlarm env w.state))
  | call (env : E) (call : C) : Step c w (.call env call) (w.tried w (c.onCall env w.state call))

/-- Nothing is left that could make the client go on. -/
def Stuck (w : World S ρ) : Prop :=
  w.unanswered = [] ∧ w.selfCall = none ∧ w.alarm = false

/-- The mechanism is armed, and it alone. -/
def Tended (w : World S ρ) : Mechanism ρ → Prop
  | .answer request => w.unanswered = [request] ∧ w.selfCall = none ∧ w.alarm = false
  | .delivery => w.unanswered = [] ∧
      (w.selfCall ≠ none ∧ w.alarm = false ∨ w.selfCall = none ∧ w.alarm = true)
  | .alarm => w.unanswered = [] ∧ w.selfCall = none ∧ w.alarm = true

def Arms (t : Taken S ρ) : Mechanism ρ → Prop
  | .answer request => t.submitted = [request] ∧ t.forwards = false ∧ t.alarms = false
  | .delivery => t.submitted = [] ∧
      (t.forwards = true ∧ t.alarms = false ∨ t.forwards = false ∧ t.alarms = true)
  | .alarm => t.submitted = [] ∧ t.forwards = false ∧ t.alarms = true

def Heeded (answered : E → S → ρ → ι → Prop) (replied : E → S → Prop) (s : S) :
    Event ρ ι E C → Prop
  | .answer env request input => answered env s request input
  | .reply env => replied env s
  | _ => True

/-- A client that arms the mechanism of each state it goes on to. Calls are taken where there is an
alarm only, and the answers and the replies it does not fail on are told beforehand. -/
structure HandsOver (c : Client S ρ ι E C) (mechanism : S → Mechanism ρ)
    (answered : E → S → ρ → ι → Prop) (replied : E → S → Prop) : Prop where
  answer : ∀ env s input t, c.onAnswer env s input = some t → Arms t (mechanism t.next)
  inner : ∀ env s t, c.onInner env s = some t → Arms t (mechanism t.next)
  reply : ∀ env s t, c.onReply env s = some t → Arms t (mechanism t.next)
  alarm : ∀ env s t, c.onAlarm env s = some t → Arms t (mechanism t.next)
  call : ∀ env s call t, c.onCall env s call = some t →
    mechanism s = .alarm ∧ mechanism t.next = .alarm ∧ Arms t .alarm
  heedsAnswer : ∀ env s request input, mechanism s = .answer request → c.answers input request →
    (answered env s request input ↔ ∃ t, c.onAnswer env s input = some t)
  heedsReply : ∀ env s, mechanism s = .delivery →
    (replied env s ↔ ∃ t, c.onReply env s = some t)

theorem stuck_taken (w : World S ρ) (t : Taken S ρ) (m : Mechanism ρ) (hw : Stuck w)
    (ht : Arms t m) : Tended (w.taken t) m := by
  obtain ⟨hu, hc, ha⟩ := hw
  cases m with
  | answer request =>
    obtain ⟨hs, hf, hal⟩ := ht
    simp [Tended, World.taken, hu, hc, ha, hs, hf, hal]
  | delivery =>
    obtain ⟨hs, ⟨hf, hal⟩ | ⟨hf, hal⟩⟩ := ht
    · simp [Tended, World.taken, hu, ha, hs, hf, hal]
    · simp [Tended, World.taken, hu, hc, ha, hs, hf, hal]
  | alarm =>
    obtain ⟨hs, hf, hal⟩ := ht
    simp [Tended, World.taken, hu, hc, ha, hs, hf, hal]

variable {c : Client S ρ ι E C} {mechanism : S → Mechanism ρ} {answered : E → S → ρ → ι → Prop}
  {replied : E → S → Prop}

theorem answer_tended (w : World S ρ) (request : ρ) (before after : List ρ)
    (hw : Tended w (mechanism w.state)) (hu : w.unanswered = before ++ request :: after) :
    mechanism w.state = .answer request ∧ Stuck { w with unanswered := before ++ after } := by
  cases hm : mechanism w.state with
  | answer other =>
    rw [hm] at hw
    obtain ⟨hone, hc, ha⟩ := hw
    rw [hone] at hu
    cases before with
    | nil =>
      obtain ⟨rfl, rfl⟩ := List.cons.inj hu
      exact ⟨rfl, rfl, hc, ha⟩
    | cons b before => simp at hu
  | delivery =>
    rw [hm] at hw
    rw [hw.1] at hu
    simp at hu
  | alarm =>
    rw [hm] at hw
    rw [hw.1] at hu
    simp at hu

theorem selfCall_tended (w : World S ρ) (call : SelfCall S) (hw : Tended w (mechanism w.state))
    (hc : w.selfCall = some call) :
    mechanism w.state = .delivery ∧ w.alarm = false ∧ Stuck { w with selfCall := none } := by
  cases hm : mechanism w.state with
  | answer request =>
    rw [hm] at hw
    rw [hw.2.1] at hc
    cases hc
  | delivery =>
    rw [hm] at hw
    rcases hw.2 with ⟨-, ha⟩ | ⟨hnone, -⟩
    · exact ⟨rfl, ha, hw.1, rfl, ha⟩
    · rw [hnone] at hc
      cases hc
  | alarm =>
    rw [hm] at hw
    rw [hw.2.1] at hc
    cases hc

theorem alarm_tended (w : World S ρ) (hw : Tended w (mechanism w.state)) (ha : w.alarm = true) :
    Stuck { w with alarm := false } := by
  cases hm : mechanism w.state with
  | answer request =>
    rw [hm] at hw
    rw [hw.2.2] at ha
    cases ha
  | delivery =>
    rw [hm] at hw
    rcases hw.2 with ⟨-, hnone⟩ | ⟨hc, -⟩
    · rw [hnone] at ha
      cases ha
    · exact ⟨hw.1, hc, rfl⟩
  | alarm =>
    rw [hm] at hw
    exact ⟨hw.1, hw.2.1, rfl⟩

theorem call_tended (w : World S ρ) (t : Taken S ρ) (hw : Tended w .alarm) (ht : Arms t .alarm) :
    Tended (w.taken t) .alarm := by
  obtain ⟨hu, hc, ha⟩ := hw
  obtain ⟨hs, hf, hal⟩ := ht
  simp [Tended, World.taken, hu, hc, ha, hs, hf]

/-- The step of a client that does not fail on an answer or a reply, and of one that does. -/
theorem tended_step (h : HandsOver c mechanism answered replied) (w : World S ρ)
    (e : Event ρ ι E C) (w' : World S ρ) (hw : Tended w (mechanism w.state))
    (hs : Step c w e w') :
    (Heeded answered replied w.state e → Tended w' (mechanism w'.state)) ∧
      (¬ Heeded answered replied w.state e → Stuck w') := by
  cases hs with
  | answer env request before after input hu ha =>
    obtain ⟨hm, hstuck⟩ := answer_tended w request before after hw hu
    have hiff := h.heedsAnswer env w.state request input hm ha
    constructor
    · intro hheeded
      obtain ⟨t, ht⟩ := hiff.1 hheeded
      rw [ht]
      exact stuck_taken _ t _ hstuck (h.answer env w.state input t ht)
    · intro hunheeded
      cases ht : c.onAnswer env w.state input with
      | some t => exact absurd (hiff.2 ⟨t, ht⟩) hunheeded
      | none => exact hstuck
  | inner env before hc =>
    obtain ⟨hm, ha, hstuck⟩ := selfCall_tended w _ hw hc
    refine ⟨fun _ => ?_, fun hunheeded => absurd trivial hunheeded⟩
    cases ht : c.onInner env w.state with
    | some t => exact stuck_taken _ t _ hstuck (h.inner env w.state t ht)
    | none =>
      change Tended { w with selfCall := some (.reply before) } (mechanism w.state)
      rw [hm]
      exact ⟨hstuck.1, .inl ⟨nofun, ha⟩⟩
  | reply env before hc =>
    obtain ⟨hm, ha, hstuck⟩ := selfCall_tended w _ hw hc
    have hiff := h.heedsReply env w.state hm
    constructor
    · intro hheeded
      obtain ⟨t, ht⟩ := hiff.1 hheeded
      rw [ht]
      exact stuck_taken _ t _ hstuck (h.reply env w.state t ht)
    · intro hunheeded
      cases ht : c.onReply env w.state with
      | some t => exact absurd (hiff.2 ⟨t, ht⟩) hunheeded
      | none => exact hstuck
  | alarm env ha =>
    refine ⟨fun _ => ?_, fun hunheeded => absurd trivial hunheeded⟩
    cases ht : c.onAlarm env w.state with
    | some t => exact stuck_taken _ t _ (alarm_tended w hw ha) (h.alarm env w.state t ht)
    | none => exact hw
  | call env call =>
    refine ⟨fun _ => ?_, fun hunheeded => absurd trivial hunheeded⟩
    cases ht : c.onCall env w.state call with
    | some t =>
      obtain ⟨hm, hnext, harms⟩ := h.call env w.state call t ht
      change Tended (w.taken t) (mechanism t.next)
      rw [hm] at hw
      rw [hnext]
      exact call_tended w t hw harms
    | none => exact hw

def HeededStep (c : Client S ρ ι E C) (answered : E → S → ρ → ι → Prop) (replied : E → S → Prop)
    (w : World S ρ) (e : Event ρ ι E C) (w' : World S ρ) : Prop :=
  Step c w e w' ∧ Heeded answered replied w.state e

theorem reachable_tended (h : HandsOver c mechanism answered replied) (init : World S ρ → Prop)
    (hinit : ∀ w, init w → Tended w (mechanism w.state)) (w : World S ρ)
    (hw : Reachable (HeededStep c answered replied) init w) : Tended w (mechanism w.state) :=
  reachable_induction init (fun w => Tended w (mechanism w.state)) hinit
    (fun w e w' hs ht => (tended_step h w e w' ht hs.1).1 hs.2) w hw

end Nolus.Handover
