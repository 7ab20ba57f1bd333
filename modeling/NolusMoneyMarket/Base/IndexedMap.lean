import NolusMoneyMarket.Base.KeyedStore

/-! # Indexed maps

A store with an index of its values. The index keeps a pair of a value and the
key it is stored under, in the order of the values and then of the keys, and
is written together with the store. A replacement trusts its caller about the
value it replaces, hence the two are in step only as long as it is told the
stored one. -/

set_option autoImplicit false

namespace Nolus.IndexedMaps
open Nolus.KeyedStore

variable {κ α : Type} [LinearOrder κ] [LinearOrder α]

structure IndexedMap (κ α : Type) where
  primary : Store κ α
  index : List (α × κ)

def Precedes (a b : α × κ) : Prop := a.1 < b.1 ∨ (a.1 = b.1 ∧ a.2 ≤ b.2)

instance (a b : α × κ) : Decidable (Precedes a b) :=
  inferInstanceAs (Decidable (a.1 < b.1 ∨ (a.1 = b.1 ∧ a.2 ≤ b.2)))

def indexed (e : α × κ) (index : List (α × κ)) : List (α × κ) :=
  if e ∈ index then index else index.orderedInsert Precedes e

namespace IndexedMap

def empty : IndexedMap κ α := ⟨∅, []⟩

def lookup (self : IndexedMap κ α) (k : κ) : Option α := self.primary.lookup k

def replace (self : IndexedMap κ α) (k : κ) (data oldData : Option α) : IndexedMap κ α :=
  let index := match oldData with
    | none => self.index
    | some old => self.index.erase (old, k)
  match data with
  | none => ⟨self.primary.erase k, index⟩
  | some updated => ⟨self.primary.insert k updated, indexed (updated, k) index⟩

def save (self : IndexedMap κ α) (k : κ) (data : α) : IndexedMap κ α :=
  self.replace k (some data) (self.lookup k)

def remove (self : IndexedMap κ α) (k : κ) : IndexedMap κ α :=
  self.replace k none (self.lookup k)

/-- The index keeps exactly what is stored, and keeps it once. -/
def InStep (self : IndexedMap κ α) : Prop :=
  self.index.Nodup ∧ ∀ v k, (v, k) ∈ self.index ↔ self.lookup k = some v

end IndexedMap

theorem mem_indexed (e e' : α × κ) (index : List (α × κ)) :
    e' ∈ indexed e index ↔ e' = e ∨ e' ∈ index := by
  unfold indexed
  split_ifs with h
  · constructor
    · exact .inr
    · rintro (rfl | h')
      · exact h
      · exact h'
  · exact List.mem_orderedInsert Precedes

theorem indexed_nodup (e : α × κ) (index : List (α × κ)) (h : index.Nodup) :
    (indexed e index).Nodup := by
  unfold indexed
  split_ifs with he
  · exact h
  · exact (List.perm_orderedInsert Precedes e index).nodup_iff.2 (List.nodup_cons.2 ⟨he, h⟩)

theorem lookup_replace (self : IndexedMap κ α) (k : κ) (data oldData : Option α) :
    (self.replace k data oldData).lookup = Function.update self.lookup k data := by
  funext k'
  by_cases hk : k' = k
  · subst hk
    cases data with
    | none => simp [IndexedMap.replace, IndexedMap.lookup]
    | some v => simp [IndexedMap.replace, IndexedMap.lookup]
  · cases data with
    | none => simp [IndexedMap.replace, IndexedMap.lookup, hk, AList.lookup_erase_ne hk]
    | some v => simp [IndexedMap.replace, IndexedMap.lookup, hk, AList.lookup_insert_ne hk]

theorem lookup_save (self : IndexedMap κ α) (k : κ) (data : α) :
    (self.save k data).lookup = Function.update self.lookup k (some data) :=
  lookup_replace _ _ _ _

theorem lookup_remove (self : IndexedMap κ α) (k : κ) :
    (self.remove k).lookup = Function.update self.lookup k none :=
  lookup_replace _ _ _ _

omit [LinearOrder α] in
theorem empty_inStep : (IndexedMap.empty : IndexedMap κ α).InStep := by
  simp [IndexedMap.InStep, IndexedMap.empty, IndexedMap.lookup]

/-- Taking the replaced value off the index leaves the entries of the other keys. -/
theorem mem_unindexed (self : IndexedMap κ α) (h : self.InStep) (k : κ) (e : α × κ) :
    e ∈ (match self.lookup k with
      | none => self.index
      | some old => self.index.erase (old, k)) ↔ e ∈ self.index ∧ e.2 ≠ k := by
  obtain ⟨v, k'⟩ := e
  rcases hk : self.lookup k with _ | old
  · constructor
    · intro hin
      refine ⟨hin, ?_⟩
      rintro rfl
      have hl := (h.2 v k').1 hin
      simp [hk] at hl
    · exact And.left
  · simp only
    rw [h.1.mem_erase_iff]
    constructor
    · rintro ⟨hne, hin⟩
      refine ⟨hin, ?_⟩
      rintro rfl
      have hl := (h.2 v k').1 hin
      rw [hk, Option.some.injEq] at hl
      exact hne (by rw [hl])
    · rintro ⟨hin, hne⟩
      exact ⟨fun he => hne (Prod.mk.inj he).2, hin⟩

theorem unindexed_nodup (self : IndexedMap κ α) (h : self.InStep) (k : κ) :
    (match self.lookup k with
      | none => self.index
      | some old => self.index.erase (old, k)).Nodup := by
  split
  · exact h.1
  · exact h.1.erase _

/-- A replacement of the stored value keeps the index in step. -/
theorem replace_inStep (self : IndexedMap κ α) (h : self.InStep) (k : κ) (data : Option α) :
    (self.replace k data (self.lookup k)).InStep := by
  have hmem := mem_unindexed self h k
  have hnodup := unindexed_nodup self h k
  constructor
  · cases data with
    | none => exact hnodup
    | some v => exact indexed_nodup _ _ hnodup
  · intro v' k'
    rw [lookup_replace]
    cases data with
    | none =>
      change (v', k') ∈ (match self.lookup k with
        | none => self.index
        | some old => self.index.erase (old, k)) ↔ _
      rw [hmem, h.2]
      by_cases hk : k' = k
      · simp [hk]
      · simp [hk]
    | some v =>
      change (v', k') ∈ indexed (v, k) (match self.lookup k with
        | none => self.index
        | some old => self.index.erase (old, k)) ↔ _
      rw [mem_indexed, hmem, h.2]
      by_cases hk : k' = k
      · simp [hk, eq_comm]
      · simp [hk]

theorem save_inStep (self : IndexedMap κ α) (h : self.InStep) (k : κ) (data : α) :
    (self.save k data).InStep := replace_inStep self h k _

theorem remove_inStep (self : IndexedMap κ α) (h : self.InStep) (k : κ) :
    (self.remove k).InStep := replace_inStep self h k _

omit [LinearOrder α] in
theorem index_keys_nodup (self : IndexedMap κ α) (h : self.InStep) :
    (self.index.map Prod.snd).Nodup := by
  apply List.Nodup.map_on _ h.1
  rintro ⟨v, k⟩ hx ⟨w, k'⟩ hy hk
  simp only at hk
  subst hk
  have hv := (h.2 v k).1 hx
  have hw := (h.2 w k).1 hy
  rw [hv, Option.some.injEq] at hw
  rw [hw]

end Nolus.IndexedMaps
