import NolusMoneyMarket.Base.IndexedMap

/-! # The order of an index

An index iterates by the values and then by the keys. Those that come before a
value make a beginning of it, and the first few of them come before any other
one that is indexed. -/

set_option autoImplicit false

namespace Nolus.IndexedMaps

variable {κ α : Type} [LinearOrder κ] [LinearOrder α]

instance : Std.Total (Precedes : α × κ → α × κ → Prop) where
  total a b := by
    unfold Precedes
    rcases lt_trichotomy a.1 b.1 with h | h | h
    · exact .inl (.inl h)
    · rcases le_total a.2 b.2 with h' | h'
      · exact .inl (.inr ⟨h, h'⟩)
      · exact .inr (.inr ⟨h.symm, h'⟩)
    · exact .inr (.inl h)

instance : IsTrans (α × κ) Precedes where
  trans a b c hab hbc := by
    unfold Precedes at *
    rcases hab with h | ⟨h, h'⟩
    · rcases hbc with k | ⟨k, _⟩
      · exact .inl (h.trans k)
      · exact .inl (k ▸ h)
    · rcases hbc with k | ⟨k, k'⟩
      · exact .inl (h ▸ k)
      · exact .inr ⟨h.trans k, h'.trans k'⟩

namespace IndexedMap

def Ordered (self : IndexedMap κ α) : Prop := self.index.Pairwise Precedes

end IndexedMap

theorem indexed_ordered (e : α × κ) (index : List (α × κ)) (h : index.Pairwise Precedes) :
    (indexed e index).Pairwise Precedes := by
  unfold indexed
  split_ifs
  · exact h
  · exact h.orderedInsert e index

theorem replace_ordered (self : IndexedMap κ α) (h : self.Ordered) (k : κ)
    (data oldData : Option α) : (self.replace k data oldData).Ordered := by
  cases oldData with
  | none =>
    cases data with
    | none => exact h
    | some updated => exact indexed_ordered _ _ h
  | some old =>
    have hold : (self.index.erase (old, k)).Pairwise Precedes := h.sublist List.erase_sublist
    cases data with
    | none => exact hold
    | some updated => exact indexed_ordered _ _ hold

theorem empty_ordered : (IndexedMap.empty : IndexedMap κ α).Ordered := List.Pairwise.nil

def ahead (index : List (α × κ)) (e : α × κ) : List (α × κ) :=
  index.filter fun x => x ≠ e ∧ Precedes x e

theorem mem_ahead (index : List (α × κ)) (e x : α × κ) :
    x ∈ ahead index e ↔ x ∈ index ∧ x ≠ e ∧ Precedes x e := by
  simp [ahead]

theorem ahead_length_le (index index' : List (α × κ)) (e : α × κ) (hn : index'.Nodup)
    (h : ∀ x ∈ ahead index' e, x ∈ index) :
    (ahead index' e).length ≤ (ahead index e).length := by
  apply (List.subperm_of_subset (hn.filter _) _).length_le
  intro x hx
  exact (mem_ahead _ _ _).2 ⟨h x hx, ((mem_ahead _ _ _).1 hx).2⟩

/-- The first few of the entries within a bound are all ahead of any that is left. -/
theorem first_ahead (index : List (α × κ)) (hs : index.Pairwise Precedes)
    (within : α × κ → Bool) (few : ℕ) (e : α × κ) (he : e ∈ index.filter within)
    (hout : e ∉ (index.filter within).take few) :
    ((index.filter within).take few).length = few ∧
      ∀ x ∈ (index.filter within).take few, x ∈ ahead index e := by
  have hdrop : e ∈ (index.filter within).drop few := by
    rw [← List.take_append_drop few (index.filter within), List.mem_append] at he
    exact he.resolve_left hout
  have hlen := List.length_pos_of_mem hdrop
  rw [List.length_drop] at hlen
  constructor
  · rw [List.length_take]
    omega
  · intro x hx
    have hsorted := hs.filter within
    rw [← List.take_append_drop few (index.filter within), List.pairwise_append] at hsorted
    apply (mem_ahead _ _ _).2
    refine ⟨(List.mem_filter.1 (List.mem_of_mem_take hx)).1, ?_, hsorted.2.2 x hx e hdrop⟩
    rintro rfl
    exact hout hx

end Nolus.IndexedMaps
