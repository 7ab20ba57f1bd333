import Mathlib.Data.List.Sort
import Mathlib.Order.Monotone.Basic
import Mathlib.Tactic

/-! # Thresholds

Entries in a linear order with a monotone key. A sorted list of them without
two equal neighbours has no two equal keys at all, and the last entry before
the partition point of a bound is the one with the greatest key within it. -/

set_option autoImplicit false

namespace Nolus.Thresholds

variable {α κ : Type}

def partitionPoint (p : α → Bool) (l : List α) : ℕ := (l.takeWhile p).length

def equalNeighbours [DecidableEq κ] (key : α → κ) (l : List α) : Bool :=
  (l.zip (l.drop 1)).any fun pair => key pair.1 = key pair.2

theorem equalNeighbours_cons [DecidableEq κ] (key : α → κ) (a b : α) (l : List α) :
    equalNeighbours key (a :: b :: l) = (decide (key a = key b) || equalNeighbours key (b :: l)) :=
  rfl

theorem partitionPoint_map (p : κ → Bool) (key : α → κ) (l : List α) :
    partitionPoint p (l.map key) = partitionPoint (p ∘ key) l := by
  rw [partitionPoint, List.takeWhile_map, List.length_map]
  rfl

variable [LinearOrder κ]

def Increasing (key : α → κ) (l : List α) : Prop := l.Pairwise fun a b => key a < key b

structure Within (key : α → κ) (l : List α) (bound : κ) (a : α) : Prop where
  listed : a ∈ l
  within : key a ≤ bound
  greatest : ∀ b ∈ l, key b ≤ bound → key b ≤ key a

variable {key : α → κ}

theorem increasing_nodup (l : List α) (h : Increasing key l) : (l.map key).Nodup :=
  List.pairwise_map.2 (h.imp fun hlt => hlt.ne)

theorem increasing_unique (l : List α) (a b : α) (h : Increasing key l) (ha : a ∈ l) (hb : b ∈ l)
    (hkey : key a = key b) : a = b :=
  List.inj_on_of_nodup_map (increasing_nodup l h) ha hb hkey

theorem within_unique (l : List α) (bound : κ) (a b : α) (h : Increasing key l)
    (ha : Within key l bound a) (hb : Within key l bound b) : a = b :=
  increasing_unique l a b h ha.listed hb.listed
    (le_antisymm (hb.greatest a ha.listed ha.within) (ha.greatest b hb.listed hb.within))

theorem within_perm (l m : List α) (bound : κ) (a : α) (h : l.Perm m)
    (ha : Within key l bound a) : Within key m bound a :=
  ⟨h.mem_iff.1 ha.listed, ha.within, fun b hb => ha.greatest b (h.mem_iff.2 hb)⟩

/-- Whatever is listed past an entry beyond the bound is beyond it too. -/
theorem takeWhile_increasing (l : List α) (bound : κ) (h : Increasing key l) (a : α) :
    a ∈ l.takeWhile (fun b => key b ≤ bound) ↔ a ∈ l ∧ key a ≤ bound := by
  induction l with
  | nil => simp
  | cons b l ih =>
    obtain ⟨hfirst, hrest⟩ := List.pairwise_cons.1 h
    rw [List.takeWhile_cons]
    split_ifs with hb
    · have hbound : key b ≤ bound := by simpa using hb
      rw [List.mem_cons, List.mem_cons, ih hrest]
      constructor
      · rintro (rfl | ⟨hin, hle⟩)
        · exact ⟨.inl rfl, hbound⟩
        · exact ⟨.inr hin, hle⟩
      · rintro ⟨rfl | hin, hle⟩
        · exact .inl rfl
        · exact .inr ⟨hin, hle⟩
    · have hbeyond : bound < key b := by simpa using hb
      simp only [List.not_mem_nil, List.mem_cons, false_iff, not_and, not_le]
      rintro (rfl | hin)
      · exact hbeyond
      · exact hbeyond.trans (hfirst a hin)

theorem increasing_last (l : List α) (a : α) (h : Increasing key l) (ha : l.getLast? = some a) :
    ∀ b ∈ l, key b ≤ key a := by
  intro b hb
  obtain ⟨front, rfl⟩ := List.getLast?_eq_some_iff.1 ha
  rcases List.mem_append.1 hb with hin | hin
  · exact ((List.pairwise_append.1 h).2.2 b hin a (List.mem_singleton_self a)).le
  · rw [List.mem_singleton.1 hin]

/-- The last entry before the partition point, when the first one is within the bound. -/
theorem before_point (l : List α) (bound : κ) (first : α) (h : Increasing key l)
    (hfirst : first ∈ l) (hle : key first ≤ bound) :
    ∃ a, l[partitionPoint (fun b => key b ≤ bound) l - 1]? = some a ∧ Within key l bound a := by
  have hin := (takeWhile_increasing l bound h first).2 ⟨hfirst, hle⟩
  have hmembers := takeWhile_increasing l bound h
  have hprefix : l.takeWhile (fun b => key b ≤ bound) <+: l := List.takeWhile_prefix _
  rw [partitionPoint]
  generalize l.takeWhile (fun b => key b ≤ bound) = low at hin hmembers hprefix ⊢
  have hpos : 0 < low.length := List.length_pos_of_mem hin
  obtain ⟨rest, rfl⟩ := hprefix
  cases hlast : low.getLast? with
  | none =>
    rw [List.getLast?_eq_none_iff.1 hlast] at hpos
    exact absurd hpos (lt_irrefl _)
  | some a =>
    have ha := (hmembers a).1 (List.mem_of_getLast? hlast)
    refine ⟨a, ?_, ha.1, ha.2, ?_⟩
    · rw [List.getElem?_append_left (by omega), ← List.getLast?_eq_getElem?, hlast]
    · intro b hb hbound
      have hlow := (List.pairwise_append.1 h).1
      exact increasing_last low a hlow hlast b ((hmembers b).2 ⟨hb, hbound⟩)

variable [LinearOrder α]

theorem increasing_sorted (hkey : Monotone key) (l : List α) (h : Increasing key l) :
    l.Pairwise (· ≤ ·) := by
  apply h.imp
  intro a b hlt
  exact (hkey.reflect_lt hlt).le

/-- Sorted entries of no two equal neighbours. -/
theorem sorted_increasing_iff (hkey : Monotone key) (l : List α) (h : l.Pairwise (· ≤ ·)) :
    equalNeighbours key l = false ↔ Increasing key l := by
  induction l with
  | nil => simp [equalNeighbours, Increasing]
  | cons a l ih =>
    cases l with
    | nil => simp [equalNeighbours, Increasing]
    | cons b l =>
      obtain ⟨hfirst, hrest⟩ := List.pairwise_cons.1 h
      rw [equalNeighbours_cons, Bool.or_eq_false_iff, decide_eq_false_iff_not, ih hrest]
      constructor
      · rintro ⟨hne, hinc⟩
        have hlt : key a < key b :=
          lt_of_le_of_ne (hkey (hfirst b List.mem_cons_self)) hne
        refine List.pairwise_cons.2 ⟨?_, hinc⟩
        intro c hc
        rcases List.mem_cons.1 hc with rfl | hc
        · exact hlt
        · exact hlt.trans ((List.pairwise_cons.1 hinc).1 c hc)
      · intro hinc
        obtain ⟨hall, hinc'⟩ := List.pairwise_cons.1 hinc
        exact ⟨(hall b List.mem_cons_self).ne, hinc'⟩

theorem insertionSort_sorted (l : List α) : (l.insertionSort (· ≤ ·)).Pairwise (· ≤ ·) :=
  List.pairwise_insertionSort (· ≤ ·) l

theorem sort_increasing_iff (hkey : Monotone key) (l : List α) :
    equalNeighbours key (l.insertionSort (· ≤ ·)) = false ↔ (l.map key).Nodup := by
  have hperm := (List.perm_insertionSort (· ≤ ·) l).map key
  rw [sorted_increasing_iff hkey _ (insertionSort_sorted l)]
  constructor
  · intro h
    exact hperm.nodup_iff.1 (increasing_nodup _ h)
  · intro h
    have hnodup := List.pairwise_map.1 (hperm.nodup_iff.2 h)
    apply (hnodup.and (insertionSort_sorted l)).imp
    rintro a b ⟨hne, hle⟩
    exact lt_of_le_of_ne (hkey hle) hne

theorem sort_perm (l m : List α) (h : l.Perm m) :
    l.insertionSort (· ≤ ·) = m.insertionSort (· ≤ ·) :=
  (((List.perm_insertionSort _ l).trans h).trans (List.perm_insertionSort _ m).symm).eq_of_pairwise'
    (insertionSort_sorted l) (insertionSort_sorted m)

theorem sort_increasing (hkey : Monotone key) (l : List α) (h : Increasing key l) :
    l.insertionSort (· ≤ ·) = l :=
  (List.perm_insertionSort _ l).eq_of_pairwise' (insertionSort_sorted l)
    (increasing_sorted hkey l h)

end Nolus.Thresholds
