import Mathlib.Tactic

/-! # Windows over a list in time

In a list ordered in time what comes after a point is a suffix, so to drop
items from the front while they are not past it is to filter all of them.
Periods of one length that follow each other, each without its start and with
its end, tell apart the items between the first start and the last end. A list
dropped this way to a horizon that only advances is as good as the whole one,
at the horizon and later. -/

set_option autoImplicit false

namespace Nolus.Windows

variable {α : Type} (time : α → ℕ)

def Ordered (items : List α) : Prop :=
  items.Pairwise fun earlier later => time earlier ≤ time later

instance (items : List α) : Decidable (Ordered time items) :=
  inferInstanceAs (Decidable (items.Pairwise _))

def since (start : ℕ) (items : List α) : List α := items.filter fun item => start < time item

def window (start span k : ℕ) (items : List α) : List α :=
  items.filter fun item => start + k * span < time item ∧ time item ≤ start + (k + 1) * span

def Within (start span k t : ℕ) : Prop := start + k * span < t ∧ t ≤ start + (k + 1) * span

theorem mem_window (start span k : ℕ) (items : List α) (item : α) :
    item ∈ window time start span k items ↔
      item ∈ items ∧ Within start span k (time item) := by
  simp [window, Within]

theorem ordered_since (start : ℕ) (items : List α) (h : Ordered time items) :
    Ordered time (since time start items) := h.filter _

theorem since_since (start later : ℕ) (items : List α) (h : start ≤ later) :
    since time later (since time start items) = since time later items := by
  simp only [since, List.filter_filter]
  apply List.filter_congr
  intro item _
  simp only [← Bool.decide_and, decide_eq_decide]
  omega

theorem since_all (start : ℕ) (items : List α) (h : ∀ item ∈ items, start < time item) :
    since time start items = items := by
  apply List.filter_eq_self.2
  simpa using h

theorem since_append (start : ℕ) (items more : List α) :
    since time start (items ++ more) = since time start items ++ since time start more :=
  List.filter_append _ _

/-- What is taken from the front up to a point is all that is not past it. -/
theorem takeWhile_ordered (point : ℕ) (items : List α) (h : Ordered time items) :
    items.takeWhile (fun item => time item ≤ point) =
      items.filter fun item => time item ≤ point := by
  induction items with
  | nil => rfl
  | cons first rest ih =>
    obtain ⟨hfirst, hrest⟩ := List.pairwise_cons.1 h
    by_cases hle : time first ≤ point
    · simp [hle, ih hrest]
    · have hlater : ∀ item ∈ rest, ¬ time item ≤ point := by
        intro item hitem
        have hge := hfirst item hitem
        omega
      simpa [hle] using hlater

/-- What is left past a point is all that comes after it. -/
theorem dropWhile_ordered (point : ℕ) (items : List α) (h : Ordered time items) :
    items.dropWhile (fun item => time item ≤ point) = since time point items := by
  induction items with
  | nil => rfl
  | cons first rest ih =>
    obtain ⟨hfirst, hrest⟩ := List.pairwise_cons.1 h
    by_cases hle : time first ≤ point
    · have hnot : ¬ point < time first := by omega
      simpa [since, hle, hnot] using ih hrest
    · have hall : since time point (first :: rest) = first :: rest := by
        apply since_all
        intro item hitem
        rcases List.mem_cons.1 hitem with rfl | hitem
        · omega
        · have hge := hfirst item hitem
          omega
      rw [hall]
      simp [hle]

/-! ## Windows of one span -/

theorem window_of_since (start span k : ℕ) (items : List α) :
    (since time (start + k * span) items).filter
        (fun item => time item ≤ start + (k + 1) * span) = window time start span k items := by
  simp only [since, window, List.filter_filter]
  apply List.filter_congr
  intro item _
  simp only [← Bool.decide_and, decide_eq_decide]
  omega

/-- A point between the first start and the last end is within a single window. -/
theorem within_unique (start span n t : ℕ) (hstart : start < t) (hend : t ≤ start + n * span) :
    ∃! k, k < n ∧ Within start span k t := by
  have hspan : 0 < span := by
    rcases Nat.eq_zero_or_pos span with h0 | hpos
    · rw [h0] at hend
      omega
    · exact hpos
  have hsucc : ∀ k, (k + 1) * span = k * span + span := fun k => Nat.succ_mul k span
  have hfloor := Nat.div_mul_le_self (t - start - 1) span
  have hceil := Nat.lt_div_mul_add (a := t - start - 1) hspan
  have hfirst : Within start span ((t - start - 1) / span) t := by
    have hs := hsucc ((t - start - 1) / span)
    constructor
    · omega
    · omega
  refine ⟨(t - start - 1) / span, ⟨?_, hfirst⟩, ?_⟩
  · apply (Nat.div_lt_iff_lt_mul hspan).2
    omega
  · rintro k ⟨-, hlow, hhigh⟩
    have hs := hsucc k
    exact ((Nat.div_eq_iff hspan).2 (by omega)).symm

/-! ## Dropping to a horizon -/

section Horizon

variable (horizon : ℕ → ℕ)

/-- The items kept when one is added: those past the horizon at its time, and itself. -/
def keep (kept : List α) (item : α) : List α :=
  kept.dropWhile (fun old => time old ≤ horizon (time item)) ++ [item]

/-- Kept are some of the items, and all of those past the horizon at a time. -/
structure Kept (t : ℕ) (whole kept : List α) : Prop where
  sublist : kept.Sublist whole
  agrees : ∀ start, horizon t ≤ start → since time start kept = since time start whole

theorem kept_step (t : ℕ) (whole kept : List α) (item : α) (hm : Monotone horizon)
    (hordered : Ordered time whole) (ht : t ≤ time item) (h : Kept time horizon t whole kept) :
    Kept time horizon (time item) (whole ++ [item]) (keep time horizon kept item) := by
  have hkept : Ordered time kept := hordered.sublist h.sublist
  constructor
  · exact ((List.dropWhile_sublist _).trans h.sublist).append_right [item]
  · intro start hstart
    rw [keep, dropWhile_ordered time _ _ hkept, since_append, since_append,
      since_since time _ _ _ hstart, h.agrees start ((hm ht).trans hstart)]

/-- Dropping to the horizon at every item added keeps all there is past the horizon later. -/
theorem kept_run (history : List α) (t : ℕ) (hm : Monotone horizon)
    (hordered : Ordered time history) (ht : ∀ item ∈ history, time item ≤ t) :
    Kept time horizon t history (history.foldl (keep time horizon) []) := by
  induction history using List.reverseRecOn generalizing t with
  | nil => exact ⟨List.Sublist.refl _, fun _ _ => rfl⟩
  | append_singleton history item ih =>
    obtain ⟨hbefore, -, hlast⟩ := List.pairwise_append.1 hordered
    have hprevious := ih (time item) hbefore fun old hold => hlast old hold item (by simp)
    have hkept := kept_step time horizon _ _ _ item hm hbefore (le_refl _) hprevious
    rw [List.foldl_append]
    refine ⟨hkept.sublist, fun start hstart => ?_⟩
    exact hkept.agrees start ((hm (ht item (by simp))).trans hstart)

end Horizon

end Nolus.Windows
