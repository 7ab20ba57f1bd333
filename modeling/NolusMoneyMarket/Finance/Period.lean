import NolusMoneyMarket.Finance.Interest

/-! # Periods of time

A period is a start and a length. It is built from its ends, from its end and
a length that is cut at the beginning of time, and by cutting one period off
another. -/

set_option autoImplicit false

namespace Nolus.Periods
open Nolus.Fallible Nolus.Fraction Nolus.Interest

structure Period where
  start : ℕ
  length : ℕ
deriving DecidableEq, Repr

variable {ε : Type}

def clamp (value low high : ℕ) : Outcome ε ℕ :=
  if low ≤ high then pure (max low (min value high)) else panicking (.assertion "min <= max")

def Period.fromTill (start till : ℕ) : Outcome ε Period := do
  let length ← between start till
  pure ⟨start, length⟩

def Period.tillLength (till maxLength : ℕ) : Outcome ε Period := do
  let earliest ← nativeAdd timeBits 0 maxLength
  if till < earliest then Period.fromTill 0 till
  else do
    let start ← nativeSub till maxLength
    Period.fromTill start till

def Period.till (self : Period) : Outcome ε ℕ := nativeAdd timeBits self.start self.length

def Period.moveWithin (self : Period) (timestamp : ℕ) : Outcome ε ℕ := do
  let till ← self.till
  clamp timestamp self.start till

def Period.intersect (self other : Period) : Outcome ε Period := do
  let start ← self.moveWithin other.start
  let otherTill ← other.till
  let till ← self.moveWithin otherTill
  Period.fromTill start till

def Period.cut (self other : Period) : Outcome ε Period := do
  let common ← self.intersect other
  if self.start = common.start then do
    let commonTill ← common.till
    let till ← self.till
    Period.fromTill commonTill till
  else Period.fromTill self.start common.start

theorem fromTill_fits (start till : ℕ) (h : start ≤ till) :
    (Period.fromTill start till : Outcome ε Period) = .ok ⟨start, till - start⟩ := by
  rw [Period.fromTill, between, nativeSub, if_pos h]
  rfl

theorem fromTill_evaluates (start till : ℕ) (h : start ≤ till) :
    Evaluates (Period.fromTill start till : Outcome ε Period) ⟨start, till - start⟩ :=
  .inl (fromTill_fits start till h)

theorem till_evaluates (start till : ℕ) (h : start ≤ till) :
    Evaluates (Period.till ⟨start, till - start⟩ : Outcome ε ℕ) till := by
  have hsum := @nativeAdd_evaluates ε timeBits start (till - start)
  rwa [Nat.add_sub_cancel' h] at hsum

theorem till_fits (start till : ℕ) (h : start ≤ till) (hb : till < 2 ^ timeBits) :
    (Period.till ⟨start, till - start⟩ : Outcome ε ℕ) = .ok till := by
  simp only [Period.till, nativeAdd_ok]
  omega

theorem tillLength_evaluates (till maxLength : ℕ) :
    Evaluates (Period.tillLength till maxLength : Outcome ε Period)
      ⟨till - maxLength, till - (till - maxLength)⟩ := by
  apply evaluates_bind _ _ _ _ (nativeAdd_evaluates _ _ _)
  split_ifs with ht
  · have h0 : till - maxLength = 0 := by omega
    rw [h0]
    exact fromTill_evaluates 0 till (Nat.zero_le _)
  · apply evaluates_bind _ _ _ _ (nativeSub_evaluates _ _ (by omega))
    exact fromTill_evaluates _ _ (Nat.sub_le _ _)

theorem clamp_evaluates (value low high : ℕ) (h : low ≤ high) :
    Evaluates (clamp value low high : Outcome ε ℕ) (max low (min value high)) := by
  rw [clamp, if_pos h]
  exact evaluates_pure _

theorem moveWithin_evaluates (start till timestamp : ℕ) (h : start ≤ till) :
    Evaluates (Period.moveWithin ⟨start, till - start⟩ timestamp : Outcome ε ℕ)
      (max start (min timestamp till)) :=
  evaluates_bind _ _ _ _ (till_evaluates start till h) (clamp_evaluates _ _ _ h)

/-- Cutting off a suffix of a period leaves what precedes the suffix. -/
theorem cut_suffix_evaluates (start mid till : ℕ) (h1 : start < mid) (h2 : mid ≤ till) :
    Evaluates (Period.cut ⟨start, till - start⟩ ⟨mid, till - mid⟩ : Outcome ε Period)
      ⟨start, mid - start⟩ := by
  have hle : start ≤ till := by omega
  have hcommon : Evaluates
      (Period.intersect ⟨start, till - start⟩ ⟨mid, till - mid⟩ : Outcome ε Period)
      ⟨mid, till - mid⟩ := by
    have hs := @moveWithin_evaluates ε start till mid hle
    have ht := @moveWithin_evaluates ε start till till hle
    have hsv : max start (min mid till) = mid := by omega
    have htv : max start (min till till) = till := by omega
    rw [hsv] at hs
    rw [htv] at ht
    apply evaluates_bind _ _ _ _ hs
    apply evaluates_bind _ _ _ _ (till_evaluates mid till h2)
    exact evaluates_bind _ _ _ _ ht (fromTill_evaluates mid till h2)
  apply evaluates_bind _ _ _ _ hcommon
  rw [if_neg (by simp only; omega)]
  exact fromTill_evaluates start mid h1.le

theorem tillLength_fits (till maxLength : ℕ) (hb : till < 2 ^ timeBits)
    (hm : maxLength ≤ till) :
    (Period.tillLength till maxLength : Outcome ε Period) =
      .ok ⟨till - maxLength, till - (till - maxLength)⟩ := by
  simp only [Period.tillLength, bind_ok, nativeAdd_ok, Nat.zero_add]
  refine ⟨maxLength, ⟨by omega, rfl⟩, ?_⟩
  rw [if_neg (by omega)]
  simp only [bind_ok, nativeSub_ok]
  exact ⟨till - maxLength, ⟨hm, rfl⟩, fromTill_fits _ _ (Nat.sub_le _ _)⟩

theorem moveWithin_fits (start till timestamp : ℕ) (h : start ≤ till) (hb : till < 2 ^ timeBits) :
    (Period.moveWithin ⟨start, till - start⟩ timestamp : Outcome ε ℕ) =
      .ok (max start (min timestamp till)) := by
  simp only [Period.moveWithin, till_fits start till h hb, bind_ok, Except.ok.injEq, clamp]
  exact ⟨_, rfl, by rw [if_pos h]; rfl⟩

theorem cut_suffix_fits (start mid till : ℕ) (h1 : start < mid) (h2 : mid ≤ till)
    (hb : till < 2 ^ timeBits) :
    (Period.cut ⟨start, till - start⟩ ⟨mid, till - mid⟩ : Outcome ε Period) =
      .ok ⟨start, mid - start⟩ := by
  have hcommon : (Period.intersect ⟨start, till - start⟩ ⟨mid, till - mid⟩ : Outcome ε Period) =
      .ok ⟨mid, till - mid⟩ := by
    have hs := @moveWithin_fits ε start till mid (by omega) hb
    have ht := @moveWithin_fits ε start till till (by omega) hb
    have hsv : max start (min mid till) = mid := by omega
    have htv : max start (min till till) = till := by omega
    rw [hsv] at hs
    rw [htv] at ht
    simp only [Period.intersect, bind_ok]
    exact ⟨_, hs, _, till_fits mid till h2 hb, _, ht, fromTill_fits mid till h2⟩
  simp only [Period.cut, bind_ok]
  refine ⟨_, hcommon, ?_⟩
  rw [if_neg (by simp only; omega)]
  exact fromTill_fits start mid h1.le

end Nolus.Periods
