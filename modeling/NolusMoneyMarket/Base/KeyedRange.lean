import NolusMoneyMarket.Base.KeyedStore

/-! # Ranges of keyed storage

The records of a store in the ascending order of their keys, and those of them
from a key on. The key may be that of a record, which is then the first one. -/

set_option autoImplicit false

namespace Nolus.KeyedStore

variable {κ α : Type} [LinearOrder κ]

def records (s : Store κ α) : List (κ × α) :=
  (s.entries.map fun e => (e.1, e.2)).insertionSort fun a b => a.1 ≤ b.1

def range (s : Store κ α) (start : Option κ) : List (κ × α) :=
  match start with
  | none => records s
  | some bound => (records s).filter fun r => bound ≤ r.1

theorem records_perm (s : Store κ α) :
    (records s).Perm (s.entries.map fun e => (e.1, e.2)) :=
  List.perm_insertionSort (fun a b : κ × α => a.1 ≤ b.1) _

theorem records_empty_iff (s : Store κ α) : records s = [] ↔ s.entries = [] := by
  constructor
  · intro h
    have hperm := records_perm s
    rw [h, List.nil_perm, List.map_eq_nil_iff] at hperm
    exact hperm
  · intro h
    rw [records, h]
    rfl

theorem record_keys_nodup (s : Store κ α) : ((records s).map Prod.fst).Nodup := by
  rw [((records_perm s).map Prod.fst).nodup_iff, List.map_map]
  exact s.nodupKeys

theorem records_ascend (s : Store κ α) : (records s).Pairwise fun a b => a.1 < b.1 := by
  have hle : (records s).Pairwise fun a b => a.1 ≤ b.1 :=
    List.pairwise_insertionSort (fun a b : κ × α => a.1 ≤ b.1) _
  have hne := List.pairwise_map.1 (record_keys_nodup s)
  apply (hle.and hne).imp
  rintro a b ⟨h1, h2⟩
  exact lt_of_le_of_ne h1 h2

theorem mem_records (s : Store κ α) (k : κ) (v : α) :
    (k, v) ∈ records s ↔ s.lookup k = some v := by
  rw [(records_perm s).mem_iff, ← mem_entries s ⟨k, v⟩, List.mem_map]
  constructor
  · rintro ⟨e, he, heq⟩
    cases heq
    exact he
  · intro h
    exact ⟨⟨k, v⟩, h, rfl⟩

/-- What is found among the records has the least key of those that could be found. -/
theorem found_first (s : Store κ α) (p : κ × α → Bool) (found : κ × α)
    (h : (records s).find? p = some found) (k : κ) (v : α) (hk : s.lookup k = some v)
    (hp : p (k, v) = true) : found.1 ≤ k := by
  obtain ⟨-, before, after, heq, hbefore⟩ := List.find?_eq_some_iff_append.1 h
  have hascend := records_ascend s
  rw [heq] at hascend
  have hmem : (k, v) ∈ before ++ found :: after := by
    rw [← heq]
    exact (mem_records s k v).2 hk
  rcases List.mem_append.1 hmem with hearlier | hlater
  · have hnot := hbefore (k, v) hearlier
    rw [hp] at hnot
    cases hnot
  · rcases List.mem_cons.1 hlater with rfl | hlater
    · exact le_rfl
    · exact (List.rel_of_pairwise_cons (List.pairwise_append.1 hascend).2.1 hlater).le

theorem records_insert (s : Store κ α) (k : κ) (v : α) (h : k ∉ s) :
    (records (s.insert k v)).Perm ((k, v) :: records s) := by
  refine (records_perm _).trans (List.Perm.trans ?_ ((records_perm s).symm.cons _))
  rw [AList.entries_insert_of_notMem h]
  rfl

theorem records_erase (s : Store κ α) (k : κ) (v : α) (h : s.lookup k = some v) :
    (records s).Perm ((k, v) :: records (s.erase k)) := by
  have hk : k ∈ s.entries.keys := AList.lookup_isSome.1 (by simp [h])
  obtain ⟨w, l₁, l₂, _, he, hr⟩ := List.exists_of_kerase hk
  obtain rfl : v = w := by
    have hin : (⟨k, w⟩ : Sigma fun _ : κ => α) ∈ s.entries := by simp [he]
    simpa [h] using (mem_entries s ⟨k, w⟩).1 hin
  have hrest : (s.erase k).entries = l₁ ++ l₂ := hr
  refine (records_perm _).trans (List.Perm.trans ?_ ((records_perm (s.erase k)).symm.cons _))
  rw [he, hrest, List.map_append, List.map_append, List.map_cons]
  exact List.perm_middle

theorem mem_range (s : Store κ α) (start : Option κ) (k : κ) (v : α) :
    (k, v) ∈ range s start ↔ s.lookup k = some v ∧ ∀ bound ∈ start, bound ≤ k := by
  cases start with
  | none => simp [range, mem_records]
  | some bound => simp [range, mem_records]

theorem range_ascend (s : Store κ α) (start : Option κ) :
    (range s start).Pairwise fun a b => a.1 < b.1 := by
  cases start with
  | none => exact records_ascend s
  | some bound => exact (records_ascend s).filter _

/-- A range from the key of a record starts at that record. -/
theorem range_from (s : Store κ α) (before rest : List (κ × α)) (r : κ × α)
    (h : records s = before ++ r :: rest) : range s (some r.1) = r :: rest := by
  have hsorted := records_ascend s
  rw [h, List.pairwise_append] at hsorted
  obtain ⟨-, hrest, hbefore⟩ := hsorted
  simp only [range, h, List.filter_append]
  have hnone : before.filter (fun a => decide (r.1 ≤ a.1)) = [] := by
    rw [List.filter_eq_nil_iff]
    intro a ha
    simpa using hbefore a ha r List.mem_cons_self
  have hall : (r :: rest).filter (fun a => decide (r.1 ≤ a.1)) = r :: rest := by
    rw [List.filter_eq_self]
    intro a ha
    rcases List.mem_cons.1 ha with rfl | hin
    · simp
    · simpa using ((List.pairwise_cons.1 hrest).1 a hin).le
  rw [hnone, hall, List.nil_append]

end Nolus.KeyedStore
