import Mathlib.Tactic

/-! # Iterators with two ends

An iterator with two ends takes the elements of a list one by one, each call from
the end it asks for. It need not keep the list: it is enough that each of its
states stands for the list of what is not taken yet. Whatever the order of the
calls, what the two ends gave and what is left make up the list. -/

set_option autoImplicit false

namespace Nolus.Ends

variable {α σ : Type}

inductive End
  | front
  | back
deriving DecidableEq, Repr

structure DoubleEnded (σ α : Type) where
  next : σ → Option α × σ
  nextBack : σ → Option α × σ

def DoubleEnded.call (it : DoubleEnded σ α) : End → σ → Option α × σ
  | .front, s => it.next s
  | .back, s => it.nextBack s

def DoubleEnded.run (it : DoubleEnded σ α) : List End → σ → List (End × Option α) × σ
  | [], s => ([], s)
  | e :: calls, s =>
    let rest := it.run calls (it.call e s).2
    ((e, (it.call e s).1) :: rest.1, rest.2)

def yielded (e : End) (trace : List (End × Option α)) : List α :=
  trace.filterMap fun given => if given.1 = e then given.2 else none

@[simp] theorem yielded_none (e d : End) (trace : List (End × Option α)) :
    yielded e ((d, none) :: trace) = yielded e trace := by
  simp [yielded]

@[simp] theorem yielded_same (e : End) (a : α) (trace : List (End × Option α)) :
    yielded e ((e, some a) :: trace) = a :: yielded e trace := by
  simp [yielded]

@[simp] theorem yielded_other (e d : End) (answer : Option α) (trace : List (End × Option α))
    (h : d ≠ e) : yielded e ((d, answer) :: trace) = yielded e trace := by
  simp [yielded, h]

def ofList (α : Type) : DoubleEnded (List α) α where
  next l := (l.head?, l.tail)
  nextBack l := (l.getLast?, l.dropLast)

/-- The states of an iterator stand for the lists of what they have not given yet. -/
structure Holds (it : DoubleEnded σ α) (held : σ → List α) : Prop where
  next : ∀ s, (it.next s).1 = (held s).head? ∧ held (it.next s).2 = (held s).tail
  nextBack : ∀ s, (it.nextBack s).1 = (held s).getLast? ∧
    held (it.nextBack s).2 = (held s).dropLast

/-- The iterator gives a list over the calls: each element once, the ones from the front in
their order and the ones from the back in the reverse of it, and nothing past the last one. -/
structure Gives (it : DoubleEnded σ α) (s : σ) (l : List α) (calls : List End) : Prop where
  answered : (it.run calls s).1.map Prod.fst = calls
  shared : ∃ left, left.length = l.length - calls.length ∧
    yielded .front (it.run calls s).1 ++ left ++ (yielded .back (it.run calls s).1).reverse = l
  exhausted : ∀ i e answer, (it.run calls s).1[i]? = some (e, answer) →
    (answer = none ↔ l.length ≤ i)

theorem call_holds (it : DoubleEnded σ α) (held : σ → List α) (h : Holds it held) (e : End)
    (s : σ) : (it.call e s).1 = ((ofList α).call e (held s)).1 ∧
      held (it.call e s).2 = ((ofList α).call e (held s)).2 := by
  cases e with
  | front => exact h.next s
  | back => exact h.nextBack s

/-- A run of an iterator is a run of the list that its state stands for. -/
theorem run_holds (it : DoubleEnded σ α) (held : σ → List α) (h : Holds it held)
    (calls : List End) (s : σ) : (it.run calls s).1 = ((ofList α).run calls (held s)).1 ∧
      held (it.run calls s).2 = ((ofList α).run calls (held s)).2 := by
  induction calls generalizing s with
  | nil => exact ⟨rfl, rfl⟩
  | cons e calls ih =>
    obtain ⟨hanswer, hheld⟩ := call_holds it held h e s
    obtain ⟨htrace, hlast⟩ := ih (it.call e s).2
    rw [hheld] at htrace hlast
    simp only [DoubleEnded.run]
    exact ⟨by rw [hanswer, htrace], hlast⟩

theorem run_calls (it : DoubleEnded σ α) (calls : List End) (s : σ) :
    (it.run calls s).1.map Prod.fst = calls := by
  induction calls generalizing s with
  | nil => rfl
  | cons e calls ih =>
    rw [DoubleEnded.run, List.map_cons, ih]

/-! ## Lists -/

theorem call_length (e : End) (l : List α) :
    ((ofList α).call e l).2.length = l.length - 1 := by
  cases e with
  | front => exact List.length_tail
  | back => exact List.length_dropLast

theorem call_none (e : End) (l : List α) : ((ofList α).call e l).1 = none ↔ l = [] := by
  cases e with
  | front => exact List.head?_eq_none_iff
  | back => exact List.getLast?_eq_none_iff

theorem list_left (calls : List End) (l : List α) :
    ((ofList α).run calls l).2.length = l.length - calls.length := by
  induction calls generalizing l with
  | nil => rfl
  | cons e calls ih =>
    rw [DoubleEnded.run, ih, call_length, List.length_cons]
    omega

theorem run_nil (e : End) (calls : List End) : (ofList α).run (e :: calls) [] =
    ((e, none) :: ((ofList α).run calls []).1, ((ofList α).run calls []).2) := by
  cases e <;> rfl

theorem run_front (calls : List End) (a : α) (l : List α) :
    (ofList α).run (.front :: calls) (a :: l) =
      ((.front, some a) :: ((ofList α).run calls l).1, ((ofList α).run calls l).2) := rfl

theorem run_back (calls : List End) (a : α) (l : List α) :
    (ofList α).run (.back :: calls) (l ++ [a]) =
      ((.back, some a) :: ((ofList α).run calls l).1, ((ofList α).run calls l).2) := by
  simp [DoubleEnded.run, DoubleEnded.call, ofList]

/-- Each call moves an element from its end of what is left to what that end gave. -/
theorem list_shared (calls : List End) (l : List α) :
    yielded .front ((ofList α).run calls l).1 ++ ((ofList α).run calls l).2 ++
      (yielded .back ((ofList α).run calls l).1).reverse = l := by
  induction calls generalizing l with
  | nil => simp [DoubleEnded.run, yielded]
  | cons e calls ih =>
    cases e with
    | front =>
      cases l with
      | nil => simpa [run_nil] using ih []
      | cons a l => simpa [run_front] using ih l
    | back =>
      rcases List.eq_nil_or_concat' l with rfl | ⟨l, a, rfl⟩
      · simpa [run_nil] using ih []
      · simp only [run_back, yielded_same, yielded_other _ _ _ _ (by decide : End.back ≠ .front),
          List.reverse_cons]
        rw [← List.append_assoc, ih l]

theorem list_exhausted (calls : List End) (l : List α) (i : ℕ) (e : End) (answer : Option α)
    (h : ((ofList α).run calls l).1[i]? = some (e, answer)) : answer = none ↔ l.length ≤ i := by
  induction calls generalizing l i with
  | nil => cases h
  | cons first calls ih =>
    rw [DoubleEnded.run] at h
    cases i with
    | zero =>
      obtain ⟨rfl, rfl⟩ := Prod.mk.inj (Option.some.inj h)
      rw [call_none, Nat.le_zero, List.length_eq_zero_iff]
    | succ i =>
      rw [ih _ i h, call_length]
      omega

theorem holds_gives (it : DoubleEnded σ α) (held : σ → List α) (h : Holds it held) (s : σ)
    (calls : List End) : Gives it s (held s) calls := by
  obtain ⟨htrace, _⟩ := run_holds it held h calls s
  constructor
  · exact run_calls it calls s
  · rw [htrace]
    exact ⟨_, list_left calls (held s), list_shared calls (held s)⟩
  · rw [htrace]
    exact list_exhausted calls (held s)

/-! ## One end only -/

theorem yielded_nothing (e : End) (trace : List (End × Option α))
    (h : ∀ given ∈ trace, given.1 ≠ e) : yielded e trace = [] := by
  rw [yielded, List.filterMap_eq_nil_iff]
  intro given hin
  rw [if_neg (h given hin)]

theorem answered_by (it : DoubleEnded σ α) (s : σ) (n : ℕ) (e : End) (given : End × Option α)
    (h : given ∈ (it.run (List.replicate n e) s).1) : given.1 = e := by
  have hin : given.1 ∈ (it.run (List.replicate n e) s).1.map Prod.fst := List.mem_map_of_mem h
  rw [run_calls] at hin
  exact List.eq_of_mem_replicate hin

theorem gives_front (it : DoubleEnded σ α) (s : σ) (l : List α) (n : ℕ) (hn : l.length ≤ n)
    (h : Gives it s l (List.replicate n .front)) :
    yielded .front (it.run (List.replicate n .front) s).1 = l := by
  obtain ⟨left, hlength, hshared⟩ := h.shared
  rw [List.length_replicate, Nat.sub_eq_zero_of_le hn, List.length_eq_zero_iff] at hlength
  have hback : yielded .back (it.run (List.replicate n .front) s).1 = [] :=
    yielded_nothing _ _ fun given hin => by
      rw [answered_by it s n _ given hin]
      decide
  rwa [hlength, hback, List.append_nil, List.reverse_nil, List.append_nil] at hshared

theorem gives_back (it : DoubleEnded σ α) (s : σ) (l : List α) (n : ℕ) (hn : l.length ≤ n)
    (h : Gives it s l (List.replicate n .back)) :
    yielded .back (it.run (List.replicate n .back) s).1 = l.reverse := by
  obtain ⟨left, hlength, hshared⟩ := h.shared
  rw [List.length_replicate, Nat.sub_eq_zero_of_le hn, List.length_eq_zero_iff] at hlength
  have hfront : yielded .front (it.run (List.replicate n .back) s).1 = [] :=
    yielded_nothing _ _ fun given hin => by
      rw [answered_by it s n _ given hin]
      decide
  rw [hlength, hfront, List.append_nil, List.nil_append] at hshared
  rw [← hshared, List.reverse_reverse]

end Nolus.Ends
