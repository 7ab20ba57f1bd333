import NolusMoneyMarket.Base.Runs

/-! # Clients with one request under way

A client submits requests to a network that answers each of them at most once.
Besides answers it takes prompts, which nobody has to wait for. A disciplined
client submits one request at a time, on entering the state that awaits its
answer, and refuses every prompt there. Some prompts may force it nevertheless;
a run in which these come only when nothing is unanswered is an orderly one. -/

set_option autoImplicit false

namespace Nolus.Requests
open Nolus.Runs

variable {σ ι ρ : Type}

inductive Taken (σ ρ : Type)
  | rejected
  | moved (next : σ) (submitted : List ρ)
  | done
deriving DecidableEq, Repr

def Taken.submitted : Taken σ ρ → List ρ
  | .moved _ submitted => submitted
  | _ => []

structure Client (σ ι ρ : Type) where
  takes : σ → ι → Taken σ ρ → Prop
  prompts : ι → Prop
  answers : ι → ρ → Prop
  executes : ι → Bool

/-- An unanswered request is kept together with the state that issued it. -/
structure World (σ ρ : Type) where
  client : Option σ
  unanswered : List (σ × ρ)
  executed : List ρ
deriving DecidableEq, Repr

structure Event (σ ι ρ : Type) where
  input : ι
  answered : Option (σ × ρ)
  submitted : List ρ

def World.taken (w : World σ ρ) : Taken σ ρ → World σ ρ
  | .rejected => w
  | .moved next submitted =>
    { w with client := some next, unanswered := w.unanswered ++ submitted.map (next, ·) }
  | .done => { w with client := none }

def World.answered (w : World σ ρ) (left : List (σ × ρ)) (request : ρ) (executes : Bool) :
    World σ ρ :=
  { w with unanswered := left
           executed := if executes then w.executed ++ [request] else w.executed }

inductive Step (c : Client σ ι ρ) (w : World σ ρ) : Event σ ι ρ → World σ ρ → Prop
  | answer (s : σ) (issued : σ × ρ) (before after : List (σ × ρ)) (input : ι) (t : Taken σ ρ) :
      w.client = some s → w.unanswered = before ++ issued :: after →
      c.answers input issued.2 → c.takes s input t →
      Step c w ⟨input, some issued, t.submitted⟩
        ((w.answered (before ++ after) issued.2 (c.executes input)).taken t)
  | prompt (s : σ) (input : ι) (t : Taken σ ρ) :
      w.client = some s → c.prompts input → c.takes s input t →
      Step c w ⟨input, none, t.submitted⟩ (w.taken t)

def Heeded (forces : σ → ι → Prop) (w : World σ ρ) (e : Event σ ι ρ) : Prop :=
  ∀ s, w.client = some s → forces s e.input → w.unanswered = []

def OrderlyStep (c : Client σ ι ρ) (forces : σ → ι → Prop) (w : World σ ρ) (e : Event σ ι ρ)
    (w' : World σ ρ) : Prop :=
  Step c w e w' ∧ Heeded forces w e

structure Disciplined (c : Client σ ι ρ) (awaits : σ → Option ρ) (forces : σ → ι → Prop) :
    Prop where
  submits : ∀ s input next submitted, c.takes s input (.moved next submitted) →
    submitted = [] ∨ ∃ request, submitted = [request] ∧ awaits next = some request
  waits : ∀ s input request t, awaits s = some request → c.prompts input →
    c.takes s input t → t = .rejected ∨ forces s input

def Begun (awaits : σ → Option ρ) (w : World σ ρ) : Prop :=
  ∃ s request, awaits s = some request ∧ w = ⟨some s, [(s, request)], []⟩

def Orderly (awaits : σ → Option ρ) (w : World σ ρ) : Prop :=
  w.unanswered = [] ∨
    ∃ s request, w.client = some s ∧ w.unanswered = [(s, request)] ∧ awaits s = some request

/-- What is submitted comes after the answer to all that was submitted before it,
and every answer reaches the state that issued the request. -/
def InTurn (w : World σ ρ) (e : Event σ ι ρ) : Prop :=
  (e.submitted ≠ [] → ∀ issued ∈ w.unanswered, e.answered = some issued) ∧
    e.submitted.length ≤ 1 ∧ ∀ issued, e.answered = some issued → w.client = some issued.1

theorem begun_orderly (awaits : σ → Option ρ) (w : World σ ρ) (h : Begun awaits w) :
    Orderly awaits w := by
  obtain ⟨s, request, ha, rfl⟩ := h
  exact .inr ⟨s, request, rfl, rfl, ha⟩

theorem orderly_answered (awaits : σ → Option ρ) (w : World σ ρ) (issued : σ × ρ)
    (before after : List (σ × ρ)) (h : Orderly awaits w)
    (hu : w.unanswered = before ++ issued :: after) :
    before ++ after = [] ∧ w.client = some issued.1 ∧ awaits issued.1 = some issued.2 := by
  rcases h with h | ⟨s, request, hs, hr, ha⟩
  · rw [h] at hu
    simp at hu
  · rw [hr] at hu
    cases before with
    | nil =>
      simp only [List.nil_append, List.cons.injEq] at hu
      obtain ⟨rfl, rfl⟩ := hu
      exact ⟨rfl, hs, ha⟩
    | cons b before => simp at hu

section Discipline

variable {c : Client σ ι ρ} {awaits : σ → Option ρ} {forces : σ → ι → Prop}

theorem submitted_one (hd : Disciplined c awaits forces) (s : σ) (input : ι) (t : Taken σ ρ)
    (h : c.takes s input t) : t.submitted.length ≤ 1 := by
  cases t with
  | rejected => exact Nat.zero_le _
  | done => exact Nat.zero_le _
  | moved next submitted =>
    rcases hd.submits s input next submitted h with rfl | ⟨request, rfl, _⟩
    · exact Nat.zero_le _
    · exact Nat.le_refl _

theorem taken_orderly (hd : Disciplined c awaits forces) (w : World σ ρ) (s : σ) (input : ι)
    (t : Taken σ ρ) (hu : w.unanswered = []) (h : c.takes s input t) :
    Orderly awaits (w.taken t) := by
  cases t with
  | rejected => exact .inl hu
  | done => exact .inl hu
  | moved next submitted =>
    rcases hd.submits s input next submitted h with rfl | ⟨request, rfl, ha⟩
    · exact .inl (by simpa [World.taken] using hu)
    · exact .inr ⟨next, request, rfl, by simp [World.taken, hu], ha⟩

theorem prompt_free (hd : Disciplined c awaits forces) (w : World σ ρ) (s : σ) (input : ι)
    (t : Taken σ ρ) (ho : Orderly awaits w) (hs : w.client = some s) (hp : c.prompts input)
    (ht : c.takes s input t) (hh : forces s input → w.unanswered = []) :
    t = .rejected ∨ w.unanswered = [] := by
  rcases ho with h | ⟨s', request, hs', _, ha⟩
  · exact .inr h
  · rw [hs'] at hs
    cases hs
    rcases hd.waits s input request t ha hp ht with h | h
    · exact .inl h
    · exact .inr (hh h)

theorem orderly_step (hd : Disciplined c awaits forces) (w : World σ ρ) (e : Event σ ι ρ)
    (w' : World σ ρ) (hs : OrderlyStep c forces w e w') (ho : Orderly awaits w) :
    Orderly awaits w' ∧ InTurn w e := by
  obtain ⟨hs, hh⟩ := hs
  cases hs with
  | answer s issued before after input t hc hu ha ht =>
    obtain ⟨hnil, hissuer, _⟩ := orderly_answered awaits w issued before after ho hu
    constructor
    · exact taken_orderly hd _ s input t hnil ht
    · refine ⟨fun _ other hother => ?_, submitted_one hd s input t ht, fun other hother => ?_⟩
      · obtain ⟨rfl, rfl⟩ := List.append_eq_nil_iff.1 hnil
        rw [hu] at hother
        simpa [eq_comm] using hother
      · cases hother
        exact hissuer
  | prompt s input t hc hp ht =>
    rcases prompt_free hd w s input t ho hc hp ht (hh s hc) with rfl | hu
    · refine ⟨ho, fun hne => absurd rfl hne, Nat.zero_le _, fun _ h => ?_⟩
      cases h
    · refine ⟨taken_orderly hd w s input t hu ht, fun _ other hother => ?_,
        submitted_one hd s input t ht, fun _ h => ?_⟩
      · rw [hu] at hother
        cases hother
      · cases h

theorem reachable_orderly (hd : Disciplined c awaits forces) (w : World σ ρ)
    (h : Reachable (OrderlyStep c forces) (Begun awaits) w) : Orderly awaits w :=
  reachable_induction _ _ (begun_orderly awaits)
    (fun w e w' hs ho => (orderly_step hd w e w' hs ho).1) w h

end Discipline

/-- A request of a stage is awaited at the height of the stage, and its execution
takes the client above that height for good. -/
structure Climbs {κ : Type} (c : Client σ ι ρ) (awaits : σ → Option ρ) (stage : ρ → Option κ)
    (rank : σ → ℕ) (height : κ → ℕ) : Prop where
  awaited : ∀ s request k, awaits s = some request → stage request = some k → rank s = height k
  moves : ∀ s input next submitted, c.takes s input (.moved next submitted) → rank s ≤ rank next
  executing : ∀ s input request k t, awaits s = some request → stage request = some k →
    c.answers input request → c.executes input → c.takes s input t →
    t = .done ∨ ∃ next submitted, t = .moved next submitted ∧ rank s < rank next

section Counting

variable {κ : Type} {c : Client σ ι ρ} {awaits : σ → Option ρ} {forces : σ → ι → Prop}
  {stage : ρ → Option κ} {rank : σ → ℕ} {height : κ → ℕ}

def Surpassed (stage : ρ → Option κ) (rank : σ → ℕ) (height : κ → ℕ) (w : World σ ρ) : Prop :=
  ∀ request ∈ w.executed, ∀ k, stage request = some k → ∀ s, w.client = some s →
    height k < rank s

theorem taken_executed (w : World σ ρ) (t : Taken σ ρ) : (w.taken t).executed = w.executed := by
  cases t <;> rfl

theorem taken_surpassed (hc : Climbs c awaits stage rank height) (w : World σ ρ) (s : σ)
    (input : ι) (t : Taken σ ρ) (hs : w.client = some s) (ht : c.takes s input t)
    (h : Surpassed stage rank height w) : Surpassed stage rank height (w.taken t) := by
  intro request hr k hk s' hs'
  cases t with
  | rejected => exact h request hr k hk s' hs'
  | done => cases hs'
  | moved further submitted =>
    cases hs'
    have hlt := h request hr k hk s hs
    have hle := hc.moves s input s' submitted ht
    omega

theorem executed_surpassed (hc : Climbs c awaits stage rank height) (w : World σ ρ) (s : σ)
    (request : ρ) (left : List (σ × ρ)) (input : ι) (t : Taken σ ρ) (hs : w.client = some s)
    (ha : awaits s = some request) (hans : c.answers input request) (hex : c.executes input)
    (ht : c.takes s input t) (h : Surpassed stage rank height w) :
    Surpassed stage rank height ((w.answered left request true).taken t) := by
  intro other hother k hk s' hs'
  rw [taken_executed] at hother
  rcases List.mem_append.1 hother with hold | hnew
  · exact taken_surpassed hc w s input t hs ht h other (by rwa [taken_executed]) k hk s'
      (by cases t <;> exact hs')
  · obtain rfl := List.mem_singleton.1 hnew
    rcases hc.executing s input other k t ha hk hans hex ht with rfl | ⟨further, sub, rfl, hlt⟩
    · cases hs'
    · cases hs'
      rwa [← hc.awaited s other k ha hk]

def ofStage [DecidableEq κ] (stage : ρ → Option κ) (k : κ) (requests : List ρ) : ℕ :=
  requests.countP (fun request => stage request = some k)

theorem ofStage_append [DecidableEq κ] (k : κ) (requests more : List ρ) :
    ofStage stage k (requests ++ more) = ofStage stage k requests + ofStage stage k more :=
  List.countP_append

theorem ofStage_one [DecidableEq κ] (k : κ) (request : ρ) : ofStage stage k [request] ≤ 1 :=
  List.countP_le_length

theorem ofStage_other [DecidableEq κ] (k : κ) (request : ρ) (h : stage request ≠ some k) :
    ofStage stage k [request] = 0 := by
  simp [ofStage, h]

theorem awaited_fresh [DecidableEq κ] (hc : Climbs c awaits stage rank height) (w : World σ ρ)
    (s : σ) (request : ρ) (k : κ) (hs : w.client = some s) (ha : awaits s = some request)
    (hk : stage request = some k) (h : Surpassed stage rank height w) :
    ofStage stage k w.executed = 0 := by
  rw [ofStage, List.countP_eq_zero]
  intro other hother hsame
  have hlt := h other hother k (by simpa using hsame) s hs
  have heq := hc.awaited s request k ha hk
  omega

theorem awaited_once [DecidableEq κ] (hc : Climbs c awaits stage rank height) (w : World σ ρ)
    (s : σ) (request : ρ) (k : κ) (hs : w.client = some s) (ha : awaits s = some request)
    (h : Surpassed stage rank height w) (hn : ofStage stage k w.executed ≤ 1) :
    ofStage stage k w.executed + ofStage stage k [request] ≤ 1 := by
  by_cases hk : stage request = some k
  · rw [awaited_fresh hc w s request k hs ha hk h, Nat.zero_add]
    exact ofStage_one k request
  · rwa [ofStage_other k request hk]

theorem once_step [DecidableEq κ] (hc : Climbs c awaits stage rank height) (w : World σ ρ)
    (e : Event σ ι ρ) (w' : World σ ρ) (hs : Step c w e w') (ho : Orderly awaits w)
    (h : Surpassed stage rank height w) (hn : ∀ k, ofStage stage k w.executed ≤ 1) :
    Surpassed stage rank height w' ∧ ∀ k, ofStage stage k w'.executed ≤ 1 := by
  cases hs with
  | prompt s input t hcl hp ht =>
    rw [taken_executed]
    exact ⟨taken_surpassed hc w s input t hcl ht h, hn⟩
  | answer s issued before after input t hcl hu hans ht =>
    obtain ⟨_, hissuer, ha⟩ := orderly_answered awaits w issued before after ho hu
    obtain rfl : s = issued.1 := Option.some.inj (hcl.symm.trans hissuer)
    rw [taken_executed]
    cases hex : c.executes input with
    | false => exact ⟨taken_surpassed hc _ issued.1 input t hcl ht h, hn⟩
    | true =>
      refine ⟨executed_surpassed hc w issued.1 issued.2 _ input t hcl ha hans hex ht h,
        fun k => ?_⟩
      change ofStage stage k (w.executed ++ [issued.2]) ≤ 1
      rw [ofStage_append]
      exact awaited_once hc w issued.1 issued.2 k hcl ha h (hn k)

/-- In an orderly run at most one request of a stage is executed or under way. -/
theorem reachable_once [DecidableEq κ] (hd : Disciplined c awaits forces)
    (hc : Climbs c awaits stage rank height) (w : World σ ρ)
    (hr : Reachable (OrderlyStep c forces) (Begun awaits) w) (k : κ) :
    ofStage stage k w.executed + ofStage stage k (w.unanswered.map Prod.snd) ≤ 1 := by
  have hinv : Orderly awaits w ∧ Surpassed stage rank height w ∧
      ∀ k, ofStage stage k w.executed ≤ 1 := by
    apply reachable_induction _ _ _ _ w hr
    · rintro w ⟨s, r, ha, rfl⟩
      exact ⟨.inr ⟨s, r, rfl, rfl, ha⟩, fun _ h => absurd h (by simp), fun _ => Nat.zero_le _⟩
    · rintro w e w' hs ⟨ho, hsur, hn⟩
      exact ⟨(orderly_step hd w e w' hs ho).1, once_step hc w e w' hs.1 ho hsur hn⟩
  obtain ⟨ho, hsur, hn⟩ := hinv
  rcases ho with hu | ⟨s, r, hs, hu, ha⟩
  · rw [hu]
    exact hn k
  · rw [hu]
    exact awaited_once hc w s r k hs ha hsur (hn k)

end Counting

end Nolus.Requests
