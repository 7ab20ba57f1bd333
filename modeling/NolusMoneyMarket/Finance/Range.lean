import NolusMoneyMarket.Base.Fallible

/-! # Right-open ranges

A right-open interval that may be left-unbound. An ascending one carries the
order of its ends; mapping it by an order-reversing function gives the
corresponding descending one, whose end is the lower bound of the values. -/

set_option autoImplicit false

namespace Nolus.Ranges
open Nolus.Fallible

variable {T R : Type} [LinearOrder T]

structure Ascending (T : Type) [LinearOrder T] where
  start : Option T
  finish : T
  invariant : ∀ s ∈ start, s ≤ finish

structure Descending (R : Type) where
  start : Option R
  finish : R
deriving DecidableEq, Repr

def clamp (value low high : T) : T := max low (min value high)

theorem clamp_le (value low high : T) (h : low ≤ high) : clamp value low high ≤ high :=
  max_le h (min_le_right _ _)

def Ascending.upTo (below : T) : Ascending T := ⟨none, below, by simp⟩

def Ascending.Contains (self : Ascending T) (t : T) : Prop :=
  (∀ s ∈ self.start, s ≤ t) ∧ t < self.finish

def Ascending.cutTo (self : Ascending T) (to_ : T) : Ascending T where
  start := some (clamp to_ (min (self.start.getD to_) self.finish) self.finish)
  finish := self.finish
  invariant := by
    intro s hs
    rw [Option.mem_some_iff] at hs
    rw [← hs]
    exact clamp_le _ _ _ (min_le_right _ _)

def Ascending.cutFrom (self : Ascending T) (from_ : T) : Ascending T where
  start := self.start
  finish := clamp from_ (min (self.start.getD from_) self.finish) self.finish
  invariant := by
    intro s hs
    rw [Option.mem_def.1 hs, Option.getD_some, min_eq_left (self.invariant s hs)]
    exact le_max_left _ _

def Ascending.map [LinearOrder R] (self : Ascending T) (f : T → R) (hf : Monotone f) : Ascending R where
  start := self.start.map f
  finish := f self.finish
  invariant := by
    intro s hs
    obtain ⟨t, ht, rfl⟩ := Option.mem_map.1 hs
    exact hf (self.invariant t ht)

def mapBound {ε : Type} (f : T → Outcome ε R) : Option T → Outcome ε (Option R)
  | none => pure none
  | some t => do
    let bound ← f t
    pure (some bound)

def Ascending.invert {ε : Type} (self : Ascending T) (f : T → Outcome ε R) :
    Outcome ε (Descending R) := do
  let start ← mapBound f self.start
  let finish ← f self.finish
  pure ⟨start, finish⟩

theorem invert_ok {ε : Type} (range : Ascending T) (f : T → Outcome ε R)
    (inverted : Descending R) (h : range.invert f = .ok inverted) :
    f range.finish = .ok inverted.finish ∧
      ∀ s ∈ range.start, ∃ b ∈ inverted.start, f s = .ok b := by
  simp only [Ascending.invert, bind_ok, pure_ok] at h
  obtain ⟨start, hstart, finish, hfinish, rfl⟩ := h
  refine ⟨hfinish, ?_⟩
  intro s hs
  rw [Option.mem_def.1 hs] at hstart
  simp only [mapBound, bind_ok, pure_ok] at hstart
  obtain ⟨b, hb, rfl⟩ := hstart
  exact ⟨b, rfl, hb⟩

theorem invert_inv {ε : Type} (range : Ascending T) (f : T → Outcome ε R)
    (inverted : Descending R) (h : range.invert f = .ok inverted) :
    f range.finish = .ok inverted.finish ∧
      ∀ b ∈ inverted.start, ∃ s ∈ range.start, f s = .ok b := by
  simp only [Ascending.invert, bind_ok, pure_ok] at h
  obtain ⟨start, hstart, finish, hfinish, rfl⟩ := h
  refine ⟨hfinish, ?_⟩
  intro b hb
  rw [Option.mem_def] at hb
  subst hb
  rcases hr : range.start with _ | s
  · rw [hr] at hstart
    simp [mapBound] at hstart
  · rw [hr] at hstart
    simp only [mapBound, bind_ok, pure_ok, Option.some.injEq] at hstart
    obtain ⟨_, hs, rfl⟩ := hstart
    exact ⟨s, rfl, hs⟩

theorem invert_fits {ε : Type} (range : Ascending T) (f : T → Outcome ε R)
    (h : ∀ t ≤ range.finish, ∃ b, f t = .ok b) : ∃ inverted, range.invert f = .ok inverted := by
  obtain ⟨finish, hfinish⟩ := h _ (le_refl _)
  rcases hs : range.start with _ | s
  · simp [Ascending.invert, hs, hfinish, mapBound]
  · obtain ⟨b, hb⟩ := h s (range.invariant s hs)
    simp [Ascending.invert, hs, hfinish, mapBound, hb]

theorem contains_cutTo (r : Ascending T) (to_ t : T) :
    (r.cutTo to_).Contains t ↔ r.Contains t ∧ to_ ≤ t := by
  rcases r with ⟨_ | s, e, hr⟩
  · simp only [Ascending.Contains, Ascending.cutTo, clamp, Option.getD_none, Option.mem_some_iff]
    grind
  · have hs : s ≤ e := hr s rfl
    simp only [Ascending.Contains, Ascending.cutTo, clamp, Option.getD_some, Option.mem_some_iff]
    grind

theorem contains_cutFrom (r : Ascending T) (from_ t : T) :
    (r.cutFrom from_).Contains t ↔ r.Contains t ∧ t < from_ := by
  rcases r with ⟨_ | s, e, hr⟩
  · simp only [Ascending.Contains, Ascending.cutFrom, clamp, Option.getD_none]
    grind
  · have hs : s ≤ e := hr s rfl
    simp only [Ascending.Contains, Ascending.cutFrom, clamp, Option.getD_some, Option.mem_some_iff]
    grind

theorem cutFrom_finish_le (r : Ascending T) (from_ : T) : (r.cutFrom from_).finish ≤ r.finish :=
  clamp_le _ _ _ (min_le_right _ _)

theorem cutTo_start_le (r : Ascending T) (to_ : T) (s : T) (h : s ∈ (r.cutTo to_).start) :
    s ≤ max (r.start.getD to_) to_ := by
  have hs : clamp to_ (min (r.start.getD to_) r.finish) r.finish = s := Option.mem_some_iff.1 h
  rw [← hs]
  exact max_le_max (min_le_left _ _) (min_le_left _ _)

theorem cutTo_start_image [LinearOrder R] (r : Ascending T) (to_ : T) (f : T → R) (hf : Monotone f)
    (d : R) (hstart : ∀ s ∈ r.start, f s ≤ d) (hto : f to_ ≤ d) :
    ∀ s ∈ (r.cutTo to_).start, f s ≤ d := by
  intro s hs
  have hle := cutTo_start_le r to_ s hs
  rcases hr : r.start with _ | t
  · rw [hr, Option.getD_none, max_self] at hle
    exact (hf hle).trans hto
  · rw [hr, Option.getD_some] at hle
    rcases le_max_iff.1 hle with h | h
    · exact (hf h).trans (hstart t hr)
    · exact (hf h).trans hto

theorem cutFrom_finish_image [LinearOrder R] (r : Ascending T) (from_ : T) (f : T → R)
    (hf : Monotone f) (d : R) (hfinish : d ≤ f r.finish) (hfrom : d ≤ f from_) :
    d ≤ f (r.cutFrom from_).finish := by
  have hle : min from_ r.finish ≤ (r.cutFrom from_).finish := le_max_right _ _
  rcases min_le_iff.1 hle with h | h
  · exact hfrom.trans (hf h)
  · exact hfinish.trans (hf h)

/-- Cutting below a value keeps the image of the range above the image of the value. -/
theorem map_cutTo [LinearOrder R] (r : Ascending T) (to_ : T) (f : T → R) (hf : Monotone f) (d : R)
    (h : ((r.cutTo to_).map f hf).Contains d) : (r.map f hf).Contains d ∧ f to_ ≤ d := by
  have hstart : f (clamp to_ (min (r.start.getD to_) r.finish) r.finish) ≤ d := h.1 _ rfl
  have hend : d < f r.finish := h.2
  have hlt : clamp to_ (min (r.start.getD to_) r.finish) r.finish < r.finish :=
    lt_of_not_ge (fun hge => absurd (lt_of_le_of_lt ((hf hge).trans hstart) hend) (lt_irrefl _))
  have hto : to_ ≤ clamp to_ (min (r.start.getD to_) r.finish) r.finish := by
    unfold clamp at hlt ⊢
    grind
  have hs : ∀ s ∈ r.start, s ≤ clamp to_ (min (r.start.getD to_) r.finish) r.finish := by
    intro s hs
    have hle := r.invariant s hs
    rw [Option.mem_def.1 hs, Option.getD_some, min_eq_left hle]
    exact le_max_left _ _
  constructor
  · constructor
    · intro v hv
      obtain ⟨s, hs', rfl⟩ := Option.mem_map.1 hv
      exact (hf (hs s hs')).trans hstart
    · exact hend
  · exact (hf hto).trans hstart

/-- Cutting from a value keeps the image of the range below the image of the value. -/
theorem map_cutFrom [LinearOrder R] (r : Ascending T) (from_ : T) (f : T → R) (hf : Monotone f) (d : R)
    (h : ((r.cutFrom from_).map f hf).Contains d) : (r.map f hf).Contains d ∧ d < f from_ := by
  have hstart : ∀ s ∈ r.start, f s ≤ d := fun s hs => h.1 _ (Option.mem_map_of_mem f hs)
  have hend : d < f (clamp from_ (min (r.start.getD from_) r.finish) r.finish) := h.2
  have hle : clamp from_ (min (r.start.getD from_) r.finish) r.finish ≤ r.finish :=
    cutFrom_finish_le r from_
  have hfrom : clamp from_ (min (r.start.getD from_) r.finish) r.finish ≤ from_ := by
    rcases hr : r.start with _ | s
    · simp [clamp]
    · have hinv := r.invariant s hr
      have hs : f s ≤ d := hstart s hr
      rw [hr, Option.getD_some, min_eq_left hinv] at hend
      have hne : clamp from_ s r.finish ≠ s := fun he => absurd (he ▸ hend) (not_lt.2 hs)
      rw [Option.getD_some, min_eq_left hinv]
      unfold clamp at hne ⊢
      grind
  constructor
  · constructor
    · intro v hv
      obtain ⟨s, hs, rfl⟩ := Option.mem_map.1 hv
      exact hstart s hs
    · exact lt_of_lt_of_le hend (hf hle)
  · exact lt_of_lt_of_le hend (hf hfrom)

end Nolus.Ranges
