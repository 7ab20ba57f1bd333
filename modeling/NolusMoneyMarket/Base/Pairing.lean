import NolusMoneyMarket.Base.Fallible
import NolusMoneyMarket.Base.KeyedRange

/-! # Pairing of stores by their keys

Every record of one store is paired with the one of the same key of another.
The first key the other store does not have is missing. When there is no such
key, the least one it has besides is unknown. The pairs are made in the order of
the keys, and when all keys are the same nothing is left out. -/

set_option autoImplicit false

namespace Nolus.KeyedStore
open Nolus.Fallible

variable {κ α β σ ε : Type} [LinearOrder κ]

def popFirst (s : Store κ α) : Option (κ × α) := (records s).head?

/-- What is left of the other store is kept beside the state. -/
def pairNext (missing : κ → ε) (f : σ → α → β → Outcome ε σ) (reached : σ × Store κ β)
    (record : κ × α) : Outcome ε (σ × Store κ β) := do
  let paired ← okOr (reached.2.lookup record.1) (missing record.1)
  let next ← f reached.1 record.2 paired
  pure (next, reached.2.erase record.1)

def forEachPair (missing unknown : κ → ε) (f : σ → α → β → Outcome ε σ) (s : Store κ α)
    (pairedWith : Store κ β) (state : σ) : Outcome ε σ := do
  let reached ← (records s).foldlM (pairNext missing f) (state, pairedWith)
  match popFirst reached.2 with
  | some (key, _) => failing (unknown key)
  | none => pure reached.1

def pairs (l : List (κ × α)) (m : Store κ β) : List (α × β) :=
  l.filterMap fun record => (m.lookup record.1).map fun paired => (record.2, paired)

def besides (l : List (κ × α)) (m : Store κ β) : Store κ β :=
  l.foldl (fun rest record => rest.erase record.1) m

theorem lookup_besides (l : List (κ × α)) (m : Store κ β) (k : κ) :
    (besides l m).lookup k = if k ∈ l.map Prod.fst then none else m.lookup k := by
  induction l generalizing m with
  | nil => simp [besides]
  | cons record l ih =>
    rw [besides, List.foldl_cons, ← besides, ih]
    by_cases hl : k ∈ l.map Prod.fst
    · simp only [hl, if_true, List.map_cons, List.mem_cons, or_true]
    · by_cases hk : k = record.1
      · subst hk
        simp [hl]
      · simp [hl, hk, AList.lookup_erase_ne hk]

theorem pairs_erase (l : List (κ × α)) (m : Store κ β) (k : κ) (h : k ∉ l.map Prod.fst) :
    pairs l (m.erase k) = pairs l m := by
  apply List.filterMap_congr
  intro record hrecord
  have hne : record.1 ≠ k := fun heq => h (heq ▸ List.mem_map_of_mem hrecord)
  rw [AList.lookup_erase_ne hne]

theorem find_erase (l : List (κ × α)) (m : Store κ β) (k : κ) (h : k ∉ l.map Prod.fst) :
    (l.find? fun record => ((m.erase k).lookup record.1).isNone) =
      l.find? fun record => (m.lookup record.1).isNone := by
  induction l with
  | nil => rfl
  | cons record l ih =>
    rw [List.map_cons, List.mem_cons, not_or] at h
    rw [List.find?_cons, List.find?_cons, AList.lookup_erase_ne (Ne.symm h.1), ih h.2]

variable (missing unknown : κ → ε) (f : σ → α → β → Outcome ε σ) (step : σ → α × β → σ)

/-- The loop stops at the first key that is missing. -/
theorem pair_loop (hf : ∀ state a b, f state a b = .ok (step state (a, b)))
    (l : List (κ × α)) (hnodup : (l.map Prod.fst).Nodup) (m : Store κ β) (state : σ) :
    l.foldlM (pairNext missing f) (state, m) =
    match l.find? fun record => (m.lookup record.1).isNone with
    | some record => (failing (missing record.1) : Outcome ε (σ × Store κ β))
    | none => .ok ((pairs l m).foldl step state, besides l m) := by
  induction l generalizing m state with
  | nil => rfl
  | cons record l ih =>
    obtain ⟨hnot, hrest⟩ := List.nodup_cons.1 hnodup
    rw [List.foldlM_cons, List.find?_cons, pairNext]
    cases hlookup : m.lookup record.1 with
    | none => rfl
    | some paired =>
      have hpairs : pairs (record :: l) m = (record.2, paired) :: pairs l m := by
        simp [pairs, hlookup]
      rw [hpairs, ← pairs_erase l m record.1 hnot, ← find_erase l m record.1 hnot]
      simp only [okOr, hf]
      exact ih hrest _ _

structure FirstMissing {α β : Type} (s : Store κ α) (m : Store κ β) (k : κ) : Prop where
  present : k ∈ s
  absent : k ∉ m
  least : ∀ other ∈ s, other ∉ m → k ≤ other

def SameKeys {α β : Type} (s : Store κ α) (m : Store κ β) : Prop := ∀ k, k ∈ s ↔ k ∈ m

theorem mem_record_keys (s : Store κ α) (k : κ) : k ∈ (records s).map Prod.fst ↔ k ∈ s := by
  rw [((records_perm s).map Prod.fst).mem_iff, List.map_map]
  exact Iff.rfl

theorem first_missing (s : Store κ α) (m : Store κ β) (record : κ × α)
    (h : (records s).find? (fun record => (m.lookup record.1).isNone) = some record) :
    FirstMissing s m record.1 := by
  have habsent := List.find?_some h
  rw [Option.isNone_iff_eq_none, AList.lookup_eq_none] at habsent
  obtain ⟨-, before, rest, hsplit, hbefore⟩ := List.find?_eq_some_iff_append.1 h
  have hsorted := records_ascend s
  rw [hsplit, List.pairwise_append] at hsorted
  refine ⟨(mem_record_keys s _).1 (List.mem_map_of_mem (List.mem_of_find?_eq_some h)), habsent, ?_⟩
  intro other hother hnot
  obtain ⟨r, hr, rfl⟩ := List.mem_map.1 ((mem_record_keys s other).2 hother)
  rw [hsplit] at hr
  rcases List.mem_append.1 hr with hin | hin
  · have hsome := hbefore r hin
    simp [AList.lookup_eq_none.2 hnot] at hsome
  · rcases List.mem_cons.1 hin with rfl | hlater
    · exact le_refl _
    · exact ((List.pairwise_cons.1 hsorted.2.1).1 r hlater).le

theorem none_missing (s : Store κ α) (m : Store κ β)
    (h : (records s).find? (fun record => (m.lookup record.1).isNone) = none) :
    ∀ k ∈ s, k ∈ m := by
  intro k hk
  obtain ⟨r, hr, rfl⟩ := List.mem_map.1 ((mem_record_keys s k).2 hk)
  have hsome := List.find?_eq_none.1 h r hr
  rwa [Option.isNone_iff_eq_none, AList.lookup_eq_none, not_not] at hsome

theorem mem_besides (s : Store κ α) (m : Store κ β) (k : κ) :
    k ∈ besides (records s) m ↔ k ∈ m ∧ k ∉ s := by
  rw [← not_iff_not, ← AList.lookup_eq_none, lookup_besides, ← mem_record_keys s]
  by_cases hk : k ∈ (records s).map Prod.fst <;> simp [hk, AList.lookup_eq_none]

theorem popFirst_least (s : Store κ α) (record : κ × α) (h : popFirst s = some record) :
    record.1 ∈ s ∧ ∀ k ∈ s, record.1 ≤ k := by
  obtain ⟨rest, hrest⟩ := List.head?_eq_some_iff.1 h
  have hsorted := records_ascend s
  rw [hrest] at hsorted
  refine ⟨(mem_record_keys s _).1 (by simp [hrest]), fun k hk => ?_⟩
  obtain ⟨r, hr, rfl⟩ := List.mem_map.1 ((mem_record_keys s k).2 hk)
  rw [hrest] at hr
  rcases List.mem_cons.1 hr with rfl | hlater
  · exact le_refl _
  · exact ((List.pairwise_cons.1 hsorted).1 r hlater).le

theorem popFirst_none (s : Store κ α) (h : popFirst s = none) (k : κ) : k ∉ s := by
  rw [← mem_record_keys, List.head?_eq_none_iff.1 h]
  simp

/-- The outcome of the pairing is that of the keys. -/
inductive Paired (s : Store κ α) (m : Store κ β) (state : σ) : Outcome ε σ → Prop
  | all (h : SameKeys s m) : Paired s m state (.ok ((pairs (records s) m).foldl step state))
  | missing (k : κ) (h : FirstMissing s m k) : Paired s m state (failing (missing k))
  | unknown (k : κ) (h : ∀ key ∈ s, key ∈ m) (hk : FirstMissing m s k) :
      Paired s m state (failing (unknown k))

theorem forEachPair_paired (hf : ∀ state a b, f state a b = .ok (step state (a, b)))
    (s : Store κ α) (m : Store κ β) (state : σ) :
    Paired missing unknown step s m state (forEachPair missing unknown f s m state) := by
  rw [forEachPair, pair_loop missing f step hf _ (record_keys_nodup s)]
  cases hfind : (records s).find? fun record => (m.lookup record.1).isNone with
  | some record => exact .missing record.1 (first_missing s m record hfind)
  | none =>
    have hall := none_missing s m hfind
    change Paired missing unknown step s m state (match popFirst (besides (records s) m) with
      | some (key, _) => failing (unknown key)
      | none => pure _)
    cases hpop : popFirst (besides (records s) m) with
    | some record =>
      obtain ⟨hmem, hleast⟩ := popFirst_least _ _ hpop
      obtain ⟨hpresent, habsent⟩ := (mem_besides s m _).1 hmem
      exact .unknown record.1 hall ⟨hpresent, habsent, fun other hother hnot =>
        hleast other ((mem_besides s m other).2 ⟨hother, hnot⟩)⟩
    | none =>
      refine .all fun k => ⟨hall k, fun hk => ?_⟩
      by_contra hnot
      exact popFirst_none _ hpop k ((mem_besides s m k).2 ⟨hk, hnot⟩)

theorem firstMissing_unique {α β : Type} (s : Store κ α) (m : Store κ β) (k l : κ)
    (hk : FirstMissing s m k) (hl : FirstMissing s m l) : k = l :=
  le_antisymm (hk.least l hl.present hl.absent) (hl.least k hk.present hk.absent)

/-- Which of the outcomes it is, and that there is no other. -/
theorem paired_exact (s : Store κ α) (m : Store κ β) (state : σ) (outcome : Outcome ε σ)
    (h : Paired missing unknown step s m state outcome) :
    (SameKeys s m → outcome = .ok ((pairs (records s) m).foldl step state)) ∧
    (∀ k, FirstMissing s m k → outcome = failing (missing k)) ∧
    (∀ k, (∀ key ∈ s, key ∈ m) → FirstMissing m s k → outcome = failing (unknown k)) ∧
    (SameKeys s m ∨ (∃ k, FirstMissing s m k) ∨
      (∀ key ∈ s, key ∈ m) ∧ ∃ k, FirstMissing m s k) := by
  cases h with
  | all hsame =>
    exact ⟨fun _ => rfl, fun k hk => absurd ((hsame k).1 hk.present) hk.absent,
      fun k _ hk => absurd ((hsame k).2 hk.present) hk.absent, .inl hsame⟩
  | missing k hk =>
    refine ⟨fun hsame => absurd ((hsame k).1 hk.present) hk.absent, fun l hl => ?_,
      fun l hall _ => absurd (hall k hk.present) hk.absent, .inr (.inl ⟨k, hk⟩)⟩
    rw [firstMissing_unique s m k l hk hl]
  | unknown k hall hk =>
    refine ⟨fun hsame => absurd ((hsame k).2 hk.present) hk.absent,
      fun l hl => absurd (hall l hl.present) hl.absent, fun l _ hl => ?_,
      .inr (.inr ⟨hall, k, hk⟩)⟩
    rw [firstMissing_unique m s k l hk hl]

end Nolus.KeyedStore
