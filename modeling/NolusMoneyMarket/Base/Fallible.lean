import Mathlib.Tactic

/-! # Fallible computations

A computation either returns a value, or panics (which aborts and rolls back
the surrounding transaction), or reports an error of the component it belongs
to. Machine integers are natural numbers; each arithmetic operator states the
width it checks, so the two directions of leaving the range stay apart. -/

set_option autoImplicit false

namespace Nolus.Fallible

inductive Panic
  | overflow (message : String)
  | underflow (message : String)
  | divisionByZero
  | assertion (message : String)
deriving DecidableEq, Repr

inductive Fault (ε : Type)
  | panic (cause : Panic)
  | error (reason : ε)
deriving DecidableEq, Repr

abbrev Outcome (ε α : Type) := Except (Fault ε) α

variable {ε α β : Type}

def panicking (cause : Panic) : Outcome ε α := .error (.panic cause)

def failing (reason : ε) : Outcome ε α := .error (.error reason)

def ensure (c : Prop) [Decidable c] (f : Fault ε) : Outcome ε Unit :=
  if c then .ok () else .error f

def expect (o : Option α) (cause : Panic) : Outcome ε α :=
  match o with
  | some a => .ok a
  | none => panicking cause

def okOr (o : Option α) (reason : ε) : Outcome ε α :=
  match o with
  | some a => .ok a
  | none => failing reason

def mapError {ε' : Type} (f : ε → ε') : Outcome ε α → Outcome ε' α
  | .ok a => .ok a
  | .error (.panic cause) => .error (.panic cause)
  | .error (.error reason) => .error (.error (f reason))

@[simp] theorem bind_ok (x : Outcome ε α) (f : α → Outcome ε β) (b : β) :
    (x >>= f) = .ok b ↔ ∃ a, x = .ok a ∧ f a = .ok b := by
  cases x with
  | error e => simp [bind, Except.bind]
  | ok a => simp [bind, Except.bind]

theorem then_ok (x : Outcome ε Unit) (f : Unit → Outcome ε β) (b : β) :
    (x >>= f) = .ok b ↔ x = .ok () ∧ f () = .ok b := by
  rw [bind_ok]
  exact ⟨fun h => h.elim fun _ h => h, fun h => ⟨(), h⟩⟩

@[simp] theorem bind_error (x : Outcome ε α) (f : α → Outcome ε β) (e : Fault ε) :
    (x >>= f) = .error e ↔ x = .error e ∨ ∃ a, x = .ok a ∧ f a = .error e := by
  cases x with
  | error e' => simp [bind, Except.bind]
  | ok a => simp [bind, Except.bind]

@[simp] theorem pure_ok (a b : α) : (pure a : Outcome ε α) = .ok b ↔ a = b := by
  simp [pure, Except.pure]

@[simp] theorem pure_error (a : α) (e : Fault ε) : (pure a : Outcome ε α) ≠ .error e := by
  simp [pure, Except.pure]

@[simp] theorem panicking_ok (p : Panic) (a : α) : (panicking p : Outcome ε α) ≠ .ok a := by
  simp [panicking]

@[simp] theorem failing_ok (r : ε) (a : α) : (failing r : Outcome ε α) ≠ .ok a := by
  simp [failing]

@[simp] theorem ensure_ok (c : Prop) [Decidable c] (f : Fault ε) (u : Unit) :
    ensure c f = .ok u ↔ c := by
  by_cases h : c <;> simp [ensure, h]

@[simp] theorem expect_ok (o : Option α) (p : Panic) (a : α) :
    (expect o p : Outcome ε α) = .ok a ↔ o = some a := by
  cases o <;> simp [expect]

@[simp] theorem okOr_ok (o : Option α) (r : ε) (a : α) :
    okOr o r = .ok a ↔ o = some a := by
  cases o <;> simp [okOr]

@[simp] theorem mapError_ok {ε' : Type} (f : ε → ε') (x : Outcome ε α) (a : α) :
    mapError f x = .ok a ↔ x = .ok a := by
  unfold mapError
  split <;> simp

theorem bind_swap (x y : Outcome ε α) (e : Outcome ε α) (f : α → α → Outcome ε β)
    (hx : (∃ v, x = .ok v) ∨ x = e) (hy : (∃ v, y = .ok v) ∨ y = e) :
    (do let v ← x; let w ← y; f v w) = (do let w ← y; let v ← x; f v w) := by
  rcases hx with ⟨v, rfl⟩ | rfl
  · cases y <;> rfl
  · cases x <;> cases y <;> simp_all [bind, Except.bind]

theorem mapM_ok (f : α → Outcome ε β) (l : List α) (out : List β) :
    l.mapM f = .ok out ↔ List.Forall₂ (fun a b => f a = .ok b) l out := by
  induction l generalizing out with
  | nil => cases out <;> simp [pure, Except.pure]
  | cons a l ih =>
    simp only [List.mapM_cons, bind_ok, pure_ok, List.forall₂_cons_left_iff, ← ih]
    exact ⟨fun ⟨b, hb, rest, hrest, h⟩ => ⟨b, rest, hb, hrest, h.symm⟩,
      fun ⟨b, rest, hb, hrest, h⟩ => ⟨b, hb, rest, hrest, h.symm⟩⟩

def FaultsIn (allowed : Fault ε → Prop) (x : Outcome ε α) : Prop :=
  ∀ e, x = .error e → allowed e

theorem faultsIn_ok (allowed : Fault ε → Prop) (a : α) :
    FaultsIn allowed (.ok a : Outcome ε α) := by
  simp [FaultsIn]

theorem faultsIn_pure (allowed : Fault ε → Prop) (a : α) :
    FaultsIn allowed (pure a : Outcome ε α) := by
  simp [FaultsIn]

theorem faultsIn_error (allowed : Fault ε → Prop) (e : Fault ε) (h : allowed e) :
    FaultsIn allowed (.error e : Outcome ε α) := by
  intro e' he
  cases he
  exact h

theorem faultsIn_mono (allowed wider : Fault ε → Prop) (x : Outcome ε α)
    (h : ∀ e, allowed e → wider e) (hx : FaultsIn allowed x) : FaultsIn wider x := by
  intro e he
  exact h e (hx e he)

theorem faultsIn_bind (allowed : Fault ε → Prop) (x : Outcome ε α) (f : α → Outcome ε β)
    (hx : FaultsIn allowed x) (hf : ∀ a, x = .ok a → FaultsIn allowed (f a)) :
    FaultsIn allowed (x >>= f) := by
  intro e he
  rcases (bind_error x f e).1 he with h | ⟨a, ha, h⟩
  · exact hx e h
  · exact hf a ha e h

theorem faultsIn_ensure (allowed : Fault ε → Prop) (c : Prop) [Decidable c] (f : Fault ε)
    (h : ¬ c → allowed f) : FaultsIn allowed (ensure c f) := by
  by_cases hc : c
  · simp [FaultsIn, ensure, hc]
  · simpa [FaultsIn, ensure, hc] using h hc

def ReturnsIn (allowed : α → Prop) (x : Outcome ε α) : Prop := ∀ a, x = .ok a → allowed a

theorem returnsIn_pure (allowed : α → Prop) (a : α) (h : allowed a) :
    ReturnsIn allowed (pure a : Outcome ε α) := by
  intro b hb
  rw [← (pure_ok a b).1 hb]
  exact h

theorem returnsIn_failing (allowed : α → Prop) (reason : ε) :
    ReturnsIn allowed (failing reason : Outcome ε α) := by
  intro a ha
  exact absurd ha (failing_ok _ _)

theorem returnsIn_panicking (allowed : α → Prop) (panic : Panic) :
    ReturnsIn allowed (panicking panic : Outcome ε α) := by
  intro a ha
  exact absurd ha (panicking_ok _ _)

theorem returnsIn_bind (allowed : β → Prop) (x : Outcome ε α) (f : α → Outcome ε β)
    (h : ∀ a, x = .ok a → ReturnsIn allowed (f a)) : ReturnsIn allowed (x >>= f) := by
  intro b hb
  obtain ⟨a, ha, hf⟩ := (bind_ok x f b).1 hb
  exact h a ha b hf

def nativeAdd (width a b : ℕ) : Outcome ε ℕ :=
  if a + b < 2 ^ width then .ok (a + b)
  else panicking (.overflow "attempt to add with overflow")

/-- Native subtraction, the only operator here that leaves the range downwards. -/
def nativeSub (a b : ℕ) : Outcome ε ℕ :=
  if b ≤ a then .ok (a - b) else panicking (.underflow "attempt to subtract with overflow")

def checkedAdd (width a b : ℕ) : Option ℕ := if a + b < 2 ^ width then some (a + b) else none

def checkedMul (width a b : ℕ) : Option ℕ := if a * b < 2 ^ width then some (a * b) else none

def checkedSub (a b : ℕ) : Option ℕ := if b ≤ a then some (a - b) else none

@[simp] theorem nativeAdd_ok (width a b c : ℕ) :
    (nativeAdd width a b : Outcome ε ℕ) = .ok c ↔ a + b < 2 ^ width ∧ a + b = c := by
  by_cases h : a + b < 2 ^ width <;> simp [nativeAdd, h]

@[simp] theorem nativeSub_ok (a b c : ℕ) :
    (nativeSub a b : Outcome ε ℕ) = .ok c ↔ b ≤ a ∧ a - b = c := by
  by_cases h : b ≤ a <;> simp [nativeSub, h]

@[simp] theorem checkedAdd_some (width a b c : ℕ) :
    checkedAdd width a b = some c ↔ a + b < 2 ^ width ∧ a + b = c := by
  by_cases h : a + b < 2 ^ width <;> simp [checkedAdd, h]

@[simp] theorem checkedMul_some (width a b c : ℕ) :
    checkedMul width a b = some c ↔ a * b < 2 ^ width ∧ a * b = c := by
  by_cases h : a * b < 2 ^ width <;> simp [checkedMul, h]

@[simp] theorem checkedSub_some (a b c : ℕ) :
    checkedSub a b = some c ↔ b ≤ a ∧ a - b = c := by
  by_cases h : b ≤ a <;> simp [checkedSub, h]

def Overflows (e : Fault ε) : Prop := ∃ message, e = .panic (.overflow message)

theorem faultsIn_okOr (allowed : Fault ε → Prop) (o : Option α) (r : ε)
    (h : allowed (.error r)) : FaultsIn allowed (okOr o r) := by
  cases o with
  | none => exact faultsIn_error _ _ h
  | some a => exact faultsIn_ok _ _

/-- The computation returns the value, unless an intermediate result overflows. -/
def Evaluates (x : Outcome ε α) (v : α) : Prop :=
  x = .ok v ∨ ∃ message, x = .error (.panic (.overflow message))

theorem evaluates_ok (x : Outcome ε α) (v w : α) (h : Evaluates x v) (hx : x = .ok w) :
    w = v := by
  rcases h with h | ⟨message, h⟩
  · rw [h] at hx
    exact (Except.ok.inj hx).symm
  · rw [h] at hx
    cases hx

theorem evaluates_faults (x : Outcome ε α) (v : α) (h : Evaluates x v) :
    FaultsIn Overflows x := by
  intro e he
  rcases h with h | ⟨message, h⟩
  · rw [h] at he
    cases he
  · rw [h] at he
    exact ⟨message, (Except.error.inj he).symm⟩

theorem evaluates_pure (v : α) : Evaluates (pure v : Outcome ε α) v := .inl rfl

theorem evaluates_pure_eq (v w : α) (h : v = w) : Evaluates (pure v : Outcome ε α) w := by
  rw [h]
  exact evaluates_pure w

theorem evaluates_overflow (v : α) (message : String) :
    Evaluates (panicking (.overflow message) : Outcome ε α) v := .inr ⟨message, rfl⟩

theorem evaluates_bind (x : Outcome ε α) (f : α → Outcome ε β) (a : α) (b : β)
    (hx : Evaluates x a) (hf : Evaluates (f a) b) : Evaluates (x >>= f) b := by
  rcases hx with h | ⟨message, h⟩
  · rw [h]
    exact hf
  · rw [h]
    exact .inr ⟨message, rfl⟩

theorem okOr_evaluates (v : α) (reason : ε) :
    Evaluates (okOr (some v) reason : Outcome ε α) v := .inl rfl

theorem nativeAdd_evaluates (width a b : ℕ) :
    Evaluates (nativeAdd width a b : Outcome ε ℕ) (a + b) := by
  unfold nativeAdd
  split_ifs
  · exact .inl rfl
  · exact evaluates_overflow _ _

theorem nativeSub_evaluates (a b : ℕ) (h : b ≤ a) :
    Evaluates (nativeSub a b : Outcome ε ℕ) (a - b) := by
  rw [nativeSub, if_pos h]
  exact .inl rfl

end Nolus.Fallible
