import Mathlib.Data.List.AList
import Mathlib.Algebra.BigOperators.Group.List.Basic
import Mathlib.Algebra.Order.BigOperators.Group.List
import Mathlib.Tactic

/-! # Keyed storage

A storage map holds at most one value under a key. The map is an association
list that carries the distinctness of its keys; a quantity kept beside the map
is compared with the sum of a measure over all entries, which changes by the
measure of the entry written or removed. -/

set_option autoImplicit false

namespace Nolus.KeyedStore

abbrev Store (κ α : Type) := AList fun _ : κ => α

variable {κ α M : Type}

def sum [AddCommMonoid M] (f : α → M) (s : Store κ α) : M :=
  (s.entries.map fun e => f e.2).sum

theorem sum_empty [AddCommMonoid M] (f : α → M) : sum f (∅ : Store κ α) = 0 := by
  simp [sum]

theorem sum_zero (s : Store κ α) : sum (fun _ => 0) s = (0 : ℕ) := by
  simp [sum]

theorem sum_add [AddCommMonoid M] (f g : α → M) (s : Store κ α) :
    sum (fun v => f v + g v) s = sum f s + sum g s :=
  List.sum_map_add

theorem sum_mul [NonUnitalNonAssocSemiring M] (f : α → M) (s : Store κ α) (c : M) :
    sum (fun v => f v * c) s = sum f s * c :=
  List.sum_map_mul_right _ _ _

theorem sum_cast [AddCommMonoidWithOne M] (f : α → ℕ) (s : Store κ α) :
    ((sum f s : ℕ) : M) = sum (fun v => (f v : M)) s := by
  simp only [sum, Nat.cast_list_sum, List.map_map]
  rfl

variable [DecidableEq κ]

def All (P : α → Prop) (s : Store κ α) : Prop := ∀ k v, s.lookup k = some v → P v

theorem mem_entries (s : Store κ α) (e : Sigma fun _ : κ => α) :
    e ∈ s.entries ↔ s.lookup e.1 = some e.2 :=
  AList.mem_lookup_iff.symm

theorem sum_erase [AddCommMonoid M] (f : α → M) (s : Store κ α) (k : κ) (v : α)
    (h : s.lookup k = some v) : f v + sum f (s.erase k) = sum f s := by
  have hk : k ∈ s.entries.keys := by
    have hm : k ∈ s := AList.lookup_isSome.1 (by simp [h])
    exact hm
  obtain ⟨w, l₁, l₂, _, he, hr⟩ := List.exists_of_kerase hk
  have hw : w = v := by
    have hin : (⟨k, w⟩ : Sigma fun _ : κ => α) ∈ s.entries := by simp [he]
    have hl := (mem_entries s ⟨k, w⟩).1 hin
    simpa [h] using hl.symm
  subst hw
  have h1 : (s.erase k).entries = l₁ ++ l₂ := hr
  rw [sum, sum, h1, he]
  simp only [List.map_append, List.map_cons, List.sum_append, List.sum_cons]
  abel

theorem erase_absent (s : Store κ α) (k : κ) (h : s.lookup k = none) : s.erase k = s := by
  apply AList.ext
  exact List.kerase_of_notMem_keys (AList.lookup_eq_none.1 h)

theorem sum_insert [AddCommMonoid M] (f : α → M) (s : Store κ α) (k : κ) (v : α) :
    sum f (s.insert k v) = f v + sum f (s.erase k) := by
  rw [sum, AList.entries_insert]
  rfl

theorem sum_insert_new [AddCommMonoid M] (f : α → M) (s : Store κ α) (k : κ) (v : α)
    (h : s.lookup k = none) : sum f (s.insert k v) = f v + sum f s := by
  rw [sum_insert, erase_absent s k h]

theorem sum_replace [AddCommMonoid M] (f : α → M) (s : Store κ α) (k : κ) (v w : α)
    (h : s.lookup k = some v) : f v + sum f (s.insert k w) = f w + sum f s := by
  rw [sum_insert, ← sum_erase f s k v h]
  abel

theorem sum_write [AddCommMonoid M] (f : α → M) (s : Store κ α) (k : κ) (fallback v : α)
    (h : f fallback = 0) :
    f ((s.lookup k).getD fallback) + sum f (s.insert k v) = f v + sum f s := by
  cases hl : s.lookup k with
  | none =>
    rw [sum_insert_new _ _ _ _ hl, Option.getD_none, h, zero_add]
  | some w =>
    rw [Option.getD_some]
    exact sum_replace f s k w v hl

theorem le_sum (f : α → ℕ) (s : Store κ α) (k : κ) (v : α) (h : s.lookup k = some v) :
    f v ≤ sum f s := by
  rw [← sum_erase f s k v h]
  omega

theorem sum_le_sum [AddCommMonoid M] [PartialOrder M] [IsOrderedAddMonoid M] (f g : α → M)
    (s : Store κ α) (h : All (fun v => f v ≤ g v) s) : sum f s ≤ sum g s := by
  apply List.sum_le_sum
  intro e he
  exact h e.1 e.2 ((mem_entries s e).1 he)

theorem sum_congr [AddCommMonoid M] (f g : α → M) (s : Store κ α)
    (h : All (fun v => f v = g v) s) : sum f s = sum g s := by
  unfold sum
  congr 1
  apply List.map_congr_left
  intro e he
  exact h e.1 e.2 ((mem_entries s e).1 he)

theorem all_empty (P : α → Prop) : All P (∅ : Store κ α) := by
  intro k v h
  simp at h

theorem all_insert (P : α → Prop) (s : Store κ α) (k : κ) (v : α) (hs : All P s) (hv : P v) :
    All P (s.insert k v) := by
  intro k' v' h
  by_cases hk : k' = k
  · subst hk
    rw [AList.lookup_insert, Option.some.injEq] at h
    exact h ▸ hv
  · rw [AList.lookup_insert_ne hk] at h
    exact hs k' v' h

theorem all_erase (P : α → Prop) (s : Store κ α) (k : κ) (hs : All P s) :
    All P (s.erase k) := by
  intro k' v' h
  by_cases hk : k' = k
  · subst hk
    simp at h
  · rw [AList.lookup_erase_ne hk] at h
    exact hs k' v' h

end Nolus.KeyedStore
