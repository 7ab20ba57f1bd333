import Mathlib.Tactic

/-! # Runs of a transition system

A run is a sequence of labelled steps. What every step preserves, every run
preserves; a bound that grows with the number of counted steps grows along the
run by their count. -/

set_option autoImplicit false

namespace Nolus.Runs

variable {σ ο : Type}

inductive Run (step : σ → ο → σ → Prop) : σ → List ο → σ → Prop
  | start (s : σ) : Run step s [] s
  | next (s s' s'' : σ) (ops : List ο) (op : ο) :
      Run step s ops s' → step s' op s'' → Run step s (ops ++ [op]) s''

def Reachable (step : σ → ο → σ → Prop) (init : σ → Prop) (s : σ) : Prop :=
  ∃ s₀ ops, init s₀ ∧ Run step s₀ ops s

variable {step : σ → ο → σ → Prop}

theorem run_preserves (P : σ → Prop) (hstep : ∀ s op s', step s op s' → P s → P s')
    (s s' : σ) (ops : List ο) (hr : Run step s ops s') (h : P s) : P s' := by
  induction hr with
  | start => exact h
  | next s₁ s₂ ops op _ hs ih => exact hstep _ _ _ hs ih

theorem run_preserves_counted (counts : ο → Bool) (P : ℕ → σ → Prop)
    (hstep : ∀ n s op s', step s op s' → P n s → P (n + if counts op then 1 else 0) s')
    (s s' : σ) (ops : List ο) (hr : Run step s ops s') (h : P 0 s) :
    P (ops.countP counts) s' := by
  induction hr with
  | start => simpa using h
  | next s₁ s₂ ops op _ hs ih =>
    have hn := hstep _ _ _ _ hs ih
    simpa [List.countP_append, List.countP_cons] using hn

theorem run_one (s s' : σ) (op : ο) (h : step s op s') : Run step s [op] s' :=
  Run.next s s s' [] op (Run.start s) h

theorem run_append (s s' s'' : σ) (ops rest : List ο) (h : Run step s ops s')
    (k : Run step s' rest s'') : Run step s (ops ++ rest) s'' := by
  induction k with
  | start => simpa using h
  | next s₁ s₂ rest op _ hs ih =>
    rw [← List.append_assoc]
    exact Run.next _ _ _ _ _ ih hs

theorem run_mono (wider : σ → ο → σ → Prop) (h : ∀ s op s', step s op s' → wider s op s')
    (s s' : σ) (ops : List ο) (hr : Run step s ops s') : Run wider s ops s' := by
  induction hr with
  | start => exact Run.start _
  | next s₁ s₂ ops op _ hs ih => exact Run.next _ _ _ _ _ ih (h _ _ _ hs)

theorem run_mono_on (P : ο → Prop) (wider : σ → ο → σ → Prop)
    (h : ∀ s op s', P op → step s op s' → wider s op s') (s s' : σ) (ops : List ο)
    (hops : ∀ op ∈ ops, P op) (hr : Run step s ops s') : Run wider s ops s' := by
  induction hr with
  | start => exact Run.start _
  | next s₁ s₂ ops op _ hs ih =>
    have hop := hops op (by simp)
    have hrest := ih fun op' hop' => hops op' (List.mem_append_left _ hop')
    exact Run.next _ _ _ _ _ hrest (h _ _ _ hop hs)

theorem run_noted {γ : Type} (note : γ → σ → ο → γ) (s s' : σ) (ops : List ο)
    (hr : Run step s ops s') (g : γ) :
    ∃ g', Run (fun a op b => step a.1 op b.1 ∧ b.2 = note a.2 a.1 op) (s, g) ops (s', g') := by
  induction hr with
  | start => exact ⟨g, Run.start _⟩
  | next s₁ s₂ ops op _ hs ih =>
    obtain ⟨g₁, hg⟩ := ih
    exact ⟨_, Run.next _ _ _ _ _ hg ⟨hs, rfl⟩⟩

theorem run_traced {α : Type} (holds : σ → α → Prop) (puts : σ → ο → α → Prop)
    (hstep : ∀ s op s' a, step s op s' → holds s' a → holds s a ∨ puts s op a) (s s' : σ)
    (ops : List ο) (hr : Run step s ops s') (a : α) (h : holds s' a) :
    holds s a ∨ ∃ before op after mid, ops = before ++ op :: after ∧ Run step s before mid ∧
      puts mid op a := by
  induction hr with
  | start => exact .inl h
  | next s₁ s₂ ops op hrun hs ih =>
    rcases hstep _ _ _ a hs h with hheld | hput
    · rcases ih hheld with hstart | ⟨before, op', after, mid, rfl, hbefore, hput⟩
      · exact .inl hstart
      · exact .inr ⟨before, op', after ++ [op], mid, by simp, hbefore, hput⟩
    · exact .inr ⟨ops, op, [], s₁, rfl, hrun, hput⟩

theorem run_foldlM (next : σ → ο → Option σ) (s s' : σ) (ops : List ο)
    (h : ops.foldlM next s = some s') : Run (fun s op s' => next s op = some s') s ops s' := by
  induction ops generalizing s with
  | nil =>
    cases h
    exact Run.start _
  | cons op ops ih =>
    rw [List.foldlM_cons] at h
    obtain ⟨s₁, hs, hrest⟩ := Option.bind_eq_some_iff.1 h
    exact run_append s s₁ s' [op] ops (run_one s s₁ op hs) (ih s₁ hrest)

theorem reachable_induction (init P : σ → Prop) (h0 : ∀ s, init s → P s)
    (hstep : ∀ s op s', step s op s' → P s → P s') (s : σ) (h : Reachable step init s) :
    P s := by
  obtain ⟨s₀, ops, hi, hr⟩ := h
  exact run_preserves P hstep s₀ s ops hr (h0 s₀ hi)

end Nolus.Runs
