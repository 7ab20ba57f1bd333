import Mathlib.Data.List.TakeWhile
import NolusMoneyMarket.Base.Fallible

/-! # Versions of the software

A version is parsed in one pass over its text. An empty segment counts as zero
unless it is the last one, so a text is not determined by the version it
stands for. The display of a version is one of its texts. -/

set_option autoImplicit false

namespace Nolus.Versioning
open Nolus.Fallible

abbrev VersionSegment : Type := Fin (2 ^ 16)

def VersionSegment.wrapping (n : ℕ) : VersionSegment := ⟨n % 2 ^ 16, Nat.mod_lt _ (by decide)⟩

structure SemVer where
  major : VersionSegment
  minor : VersionSegment
  patch : VersionSegment
deriving DecidableEq, Repr

namespace SemVer

/-- Versions compare by their segments, the major one first. -/
def key (v : SemVer) : VersionSegment ×ₗ VersionSegment ×ₗ VersionSegment :=
  toLex (v.major, toLex (v.minor, v.patch))

theorem key_injective : Function.Injective key := by
  rintro ⟨a, b, c⟩ ⟨a', b', c'⟩ h
  simpa [key, Prod.ext_iff] using h

instance : LinearOrder SemVer := LinearOrder.lift' key key_injective

instance : ToString SemVer where
  toString v := toString v.major.val ++ "." ++ toString v.minor.val ++ "." ++ toString v.patch.val

/-- The segments read so far, the last of them still being read. -/
structure Scan where
  segments : Fin 3 → VersionSegment
  index : Fin 3

def narrow (n : ℕ) (message : String) : Outcome Empty VersionSegment :=
  if h : n < 2 ^ 16 then .ok ⟨n, h⟩ else panicking (.overflow message)

namespace Scan

def new : Scan := ⟨fun _ => 0, 0⟩

def current (scan : Scan) : VersionSegment := scan.segments scan.index

def put (scan : Scan) (segment : VersionSegment) : Scan :=
  { scan with segments := Function.update scan.segments scan.index segment }

def digit (scan : Scan) (value : ℕ) : Outcome Empty Scan := do
  let tens ← narrow (scan.current.val * 10) "attempt to multiply with overflow"
  let segment ← narrow (tens.val + value) "attempt to add with overflow"
  pure (scan.put segment)

def dot (scan : Scan) (rest : List Char) : Outcome Empty Scan :=
  if h : scan.index.val + 1 < 3 then
    if rest = [] then panicking (.assertion "Version can't end with a dot!")
    else pure { scan with index := ⟨scan.index.val + 1, h⟩ }
  else panicking (.assertion "Unexpected segment!")

def run : Scan → List Char → Outcome Empty Scan
  | scan, [] => pure scan
  | scan, c :: rest => do
    let next ←
      if c.isDigit then scan.digit (c.toNat - '0'.toNat)
      else if c = '.' then scan.dot rest
      else panicking (.assertion
        "Unexpected symbol encountered! Expected an ASCII number or an ASCII dot!")
    run next rest

end Scan

def parse (version : String) : Outcome Empty SemVer := do
  let scan ← Scan.new.run version.toList
  ensure (scan.index = 2) (.panic (.assertion ("Invalid version string! Expected three segments " ++
    "(major, minor and patch), but got less!")))
  pure ⟨scan.segments 0, scan.segments 1, scan.segments 2⟩

/-! ## The texts of a version -/

/-- The text is made of digits, and their value is that of the segment. -/
structure Spells (segment : VersionSegment) (text : List Char) : Prop where
  digits : ∀ c ∈ text, c.isDigit = true
  value : Nat.ofDigitChars 10 text 0 = segment.val

theorem narrow_ok (n : ℕ) (message : String) (segment : VersionSegment) :
    narrow n message = .ok segment ↔ segment.val = n := by
  unfold narrow
  split_ifs with h
  · simp only [Except.ok.injEq, Fin.ext_iff]
    exact eq_comm
  · simp only [panicking_ok, false_iff]
    have hlt := segment.isLt
    omega

theorem ofDigitChars_start_le (text : List Char) (start : ℕ) :
    start ≤ Nat.ofDigitChars 10 text start := by
  rw [Nat.ofDigitChars_eq_ofDigitChars_zero]
  have hpow : 1 * start ≤ 10 ^ text.length * start :=
    Nat.mul_le_mul_right _ (Nat.one_le_pow _ _ (by omega))
  omega

namespace Scan

@[simp] theorem put_index (scan : Scan) (segment : VersionSegment) :
    (scan.put segment).index = scan.index := rfl

@[simp] theorem put_current (scan : Scan) (segment : VersionSegment) :
    (scan.put segment).current = segment := by
  simp [current, put]

@[simp] theorem put_put (scan : Scan) (first second : VersionSegment) :
    (scan.put first).put second = scan.put second := by
  simp [put]

theorem put_self (scan : Scan) : scan.put scan.current = scan := by
  simp [put, current]

theorem digit_ok (scan next : Scan) (value : ℕ) :
    scan.digit value = .ok next ↔
      ∃ segment : VersionSegment, segment.val = 10 * scan.current.val + value ∧
        scan.put segment = next := by
  simp only [digit, bind_ok, narrow_ok, pure_ok]
  constructor
  · rintro ⟨tens, htens, segment, hsegment, hput⟩
    exact ⟨segment, by omega, hput⟩
  · rintro ⟨segment, hsegment, hput⟩
    have hlt := segment.isLt
    exact ⟨⟨scan.current.val * 10, by omega⟩, rfl, segment, by simp only; omega, hput⟩

theorem dot_ok (scan next : Scan) (rest : List Char) :
    scan.dot rest = .ok next ↔
      rest ≠ [] ∧ next.index.val = scan.index.val + 1 ∧ next.segments = scan.segments := by
  obtain ⟨segments, index⟩ := next
  unfold dot
  split_ifs with hindex hrest
  · simp [hrest]
  · simp only [pure_ok, Scan.mk.injEq, Fin.ext_iff, hrest, ne_eq, not_false_eq_true, true_and]
    constructor
    · rintro ⟨hsegments, hnext⟩
      exact ⟨hnext.symm, hsegments.symm⟩
    · rintro ⟨hnext, hsegments⟩
      exact ⟨hsegments.symm, hnext.symm⟩
  · simp only [panicking_ok, false_iff, not_and]
    have hlt := index.isLt
    omega

/-- A stretch of digits only changes the segment being read. -/
theorem run_digits (digits rest : List Char) (hdigits : ∀ c ∈ digits, c.isDigit = true)
    (scan last : Scan) :
    scan.run (digits ++ rest) = .ok last ↔
      ∃ segment : VersionSegment,
        segment.val = Nat.ofDigitChars 10 digits scan.current.val ∧
        (scan.put segment).run rest = .ok last := by
  induction digits generalizing scan with
  | nil =>
    constructor
    · intro h
      exact ⟨scan.current, rfl, by rwa [put_self]⟩
    · rintro ⟨segment, hsegment, h⟩
      obtain rfl : segment = scan.current := Fin.ext hsegment
      rwa [put_self] at h
  | cons c digits ih =>
    have hc := hdigits c List.mem_cons_self
    rw [List.cons_append, run]
    simp only [hc, if_true, bind_ok, digit_ok, Nat.ofDigitChars_cons,
      ih (fun d hd => hdigits d (List.mem_cons_of_mem c hd))]
    constructor
    · rintro ⟨next, ⟨first, hfirst, rfl⟩, segment, hsegment, h⟩
      rw [put_current, hfirst] at hsegment
      rw [put_put] at h
      exact ⟨segment, hsegment, h⟩
    · rintro ⟨segment, hsegment, h⟩
      have hle := ofDigitChars_start_le digits
        (10 * scan.current.val + (c.toNat - '0'.toNat))
      have hlt := segment.isLt
      refine ⟨_, ⟨⟨10 * scan.current.val + (c.toNat - '0'.toNat), by omega⟩, rfl, rfl⟩,
        segment, ?_, ?_⟩
      · rw [put_current]
        exact hsegment
      · rwa [put_put]

theorem current_zero (scan : Scan) (h : scan.current = 0) (text : List Char)
    (segment : VersionSegment) (hdigits : ∀ c ∈ text, c.isDigit = true)
    (hvalue : segment.val = Nat.ofDigitChars 10 text scan.current.val) : Spells segment text := by
  refine ⟨hdigits, ?_⟩
  rw [hvalue, h]
  rfl

/-- One segment is read up to the end of the text or to a dot, past which more has to come. -/
theorem run_segment (scan last : Scan) (h : scan.current = 0) (text : List Char) :
    scan.run text = .ok last ↔
      ∃ digits segment, Spells segment digits ∧
        ((text = digits ∧ scan.put segment = last) ∨
          ∃ rest next, text = digits ++ '.' :: rest ∧ (scan.put segment).dot rest = .ok next ∧
            next.run rest = .ok last) := by
  constructor
  · intro hrun
    rw [← List.takeWhile_append_dropWhile (p := Char.isDigit) (l := text),
      run_digits _ _ (fun c hc => List.mem_takeWhile_imp hc)] at hrun
    obtain ⟨segment, hsegment, hrest⟩ := hrun
    refine ⟨_, segment, current_zero scan h _ segment (fun c hc => List.mem_takeWhile_imp hc)
      hsegment, ?_⟩
    cases hdrop : text.dropWhile Char.isDigit with
    | nil =>
      rw [hdrop] at hrest
      refine .inl ⟨?_, by simpa [run] using hrest⟩
      rw [← List.append_nil (text.takeWhile _), ← hdrop, List.takeWhile_append_dropWhile]
    | cons c rest =>
      have hc : c.isDigit = false := by
        have hhead := List.head_dropWhile_not Char.isDigit (l := text) (by simp [hdrop])
        simpa [hdrop] using hhead
      rw [hdrop, run] at hrest
      simp only [hc, Bool.false_eq_true, if_false] at hrest
      split_ifs at hrest with hdot
      · obtain ⟨next, hnext, hlast⟩ := (bind_ok _ _ _).1 hrest
        refine .inr ⟨rest, next, ?_, hnext, hlast⟩
        rw [← hdot, ← hdrop, List.takeWhile_append_dropWhile]
      · simp at hrest
  · rintro ⟨digits, segment, hspells, ⟨rfl, hput⟩ | ⟨rest, next, rfl, hdot, hlast⟩⟩
    · rw [← List.append_nil text, run_digits _ _ hspells.digits]
      exact ⟨segment, by rw [h]; exact hspells.value.symm, by rw [hput]; rfl⟩
    · rw [run_digits _ _ hspells.digits]
      refine ⟨segment, by rw [h]; exact hspells.value.symm, ?_⟩
      rw [run]
      have hc : Char.isDigit '.' = false := by decide
      simp only [hc, Bool.false_eq_true, if_false, if_true, bind_ok]
      exact ⟨next, hdot, hlast⟩

end Scan

/-- Three segments are read, and nothing is left for a fourth one. -/
theorem parse_ok (version : String) (v : SemVer) :
    parse version = .ok v ↔ ∃ major minor patch,
      version.toList = major ++ '.' :: (minor ++ '.' :: patch) ∧ Spells v.major major ∧
        Spells v.minor minor ∧ Spells v.patch patch ∧ patch ≠ [] := by
  simp only [parse, bind_ok, ensure_ok, pure_ok]
  constructor
  · rintro ⟨last, hrun, -, hindex, rfl⟩
    obtain ⟨major, first, hmajor, ⟨-, rfl⟩ | ⟨rest, s₁, htext, hdot, hrun⟩⟩ :=
      (Scan.run_segment _ _ rfl _).1 hrun
    · cases hindex
    obtain ⟨-, hindex₁, hsegments₁⟩ := (Scan.dot_ok _ _ _).1 hdot
    have h₁ : s₁.index = 1 := Fin.ext hindex₁
    obtain ⟨minor, second, hminor, ⟨-, rfl⟩ | ⟨rest₂, s₂, rfl, hdot₂, hrun₂⟩⟩ :=
      (Scan.run_segment _ _ (by simp [Scan.current, h₁, hsegments₁, Scan.put, Scan.new]) _).1 hrun
    · rw [Scan.put_index, h₁] at hindex
      cases hindex
    obtain ⟨hne, hindex₂, hsegments₂⟩ := (Scan.dot_ok _ _ _).1 hdot₂
    have h₂ : s₂.index = 2 := Fin.ext (by rw [hindex₂, Scan.put_index, h₁]; rfl)
    obtain ⟨patch, third, hpatch, ⟨rfl, rfl⟩ | ⟨_, s₃, -, hdot₃, -⟩⟩ :=
      (Scan.run_segment _ _ (by simp [Scan.current, h₂, hsegments₂, hsegments₁, h₁, Scan.put,
        Scan.new]) _).1 hrun₂
    · refine ⟨major, minor, _, htext, ?_, ?_, ?_, hne⟩
      · simpa [Scan.put, h₁, h₂, hsegments₂, hsegments₁, Scan.new] using hmajor
      · simpa [Scan.put, h₁, h₂, hsegments₂] using hminor
      · simpa [Scan.put, h₂] using hpatch
    · have hover := ((Scan.dot_ok _ _ _).1 hdot₃).2.1
      have hlt := s₃.index.isLt
      rw [Scan.put_index, h₂] at hover
      omega
  · rintro ⟨major, minor, patch, htext, hmajor, hminor, hpatch, hne⟩
    refine ⟨⟨![v.major, v.minor, v.patch], 2⟩, ?_, (), rfl, rfl⟩
    rw [htext]
    refine (Scan.run_segment _ _ rfl _).2 ⟨major, v.major, hmajor, .inr ⟨_,
      ⟨![v.major, 0, 0], 1⟩, rfl, (Scan.dot_ok _ _ _).2 ⟨by simp, rfl, ?_⟩, ?_⟩⟩
    · ext i
      fin_cases i <;> rfl
    refine (Scan.run_segment _ _ rfl _).2 ⟨minor, v.minor, hminor, .inr ⟨_,
      ⟨![v.major, v.minor, 0], 2⟩, rfl, (Scan.dot_ok _ _ _).2 ⟨hne, rfl, ?_⟩, ?_⟩⟩
    · ext i
      fin_cases i <;> rfl
    refine (Scan.run_segment _ _ rfl _).2 ⟨patch, v.patch, hpatch, .inl ⟨rfl, ?_⟩⟩
    simp only [Scan.put, Scan.mk.injEq, and_true]
    ext i
    fin_cases i <;> rfl

theorem spells_toDigits (segment : VersionSegment) :
    Spells segment (Nat.toDigits 10 segment.val) where
  digits := fun _ hc => Nat.isDigit_of_mem_toDigits (by decide) (by decide) hc
  value := Nat.ofDigitChars_ten_toDigits

theorem display_text (v : SemVer) :
    (toString v).toList = Nat.toDigits 10 v.major.val ++ '.' ::
      (Nat.toDigits 10 v.minor.val ++ '.' :: Nat.toDigits 10 v.patch.val) := by
  change (toString v.major.val ++ "." ++ toString v.minor.val ++ "." ++
    toString v.patch.val).toList = _
  simp [String.toList_append, Nat.toString_eq_repr, Nat.toList_repr]

/-- The texts a version is parsed from, of which its display is one. -/
theorem parsed_texts (v : SemVer) :
    parse (toString v) = .ok v ∧
      ∀ version, parse version = .ok v ↔ ∃ major minor patch,
        version.toList = major ++ '.' :: (minor ++ '.' :: patch) ∧ Spells v.major major ∧
          Spells v.minor minor ∧ Spells v.patch patch ∧ patch ≠ [] := by
  refine ⟨(parse_ok _ _).2 ⟨_, _, _, display_text v, spells_toDigits _, spells_toDigits _,
    spells_toDigits _, ?_⟩, fun version => parse_ok version v⟩
  exact Nat.toDigits_ne_nil

example : parse "..7" = .ok ⟨0, 0, 7⟩ := by decide

end SemVer

end Nolus.Versioning
