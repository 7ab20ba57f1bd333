import NolusMoneyMarket.Platform.AccessControl

/-! # The reserve

The reserve covers the losses of a lease out of its balance. It pays only a
contract of the lease code it has been given, and only in full; the code comes
from the administrator of the lease code. -/

set_option autoImplicit false

namespace Nolus.ReserveContract
open Nolus.Fallible Nolus.AccessControl

inductive PlatformError
  | cosmWasmQueryContractInfo
  | unexpectedCode (expected : ℕ) (instance_ : Addr)
deriving DecidableEq, Repr

inductive Error
  | platform (cause : PlatformError)
  | unauthorized (cause : AccessError)
  | insufficientBalance
deriving DecidableEq, Repr

structure Config where
  leaseCode : ℕ
deriving DecidableEq, Repr

structure Reserve where
  config : Config
  leaseCodeAdmin : SingleUserAccess
  balance : ℕ
deriving DecidableEq, Repr

inductive ExecuteMsg
  | newLeaseCode (code : ℕ)
  | coverLiquidationLosses (amount : ℕ)
deriving DecidableEq, Repr

structure Send where
  recipient : Addr
  amount : ℕ
deriving DecidableEq, Repr

def validateCodeId (codeOf : Addr → Option ℕ) (contractAddress : Addr) (expectedCode : ℕ) :
    Outcome PlatformError Unit := do
  let code ← okOr (codeOf contractAddress) .cosmWasmQueryContractInfo
  ensure (code = expectedCode) (.error (.unexpectedCode expectedCode contractAddress))

def Config.updateLeaseCode (_ : Config) (leaseCode : ℕ) : Config := ⟨leaseCode⟩

def doCoverLosses (self : Reserve) (lease : Addr) (amount : ℕ) : Outcome Error (List Send) :=
  if self.balance < amount then failing .insufficientBalance else pure [⟨lease, amount⟩]

def execute (codeOf : Addr → Option ℕ) (self : Reserve) (sender : Addr) :
    ExecuteMsg → Outcome Error (List Send × Reserve)
  | .newLeaseCode code => do
    mapError .unauthorized (self.leaseCodeAdmin.check sender)
    pure ([], { self with config := self.config.updateLeaseCode code })
  | .coverLiquidationLosses amount => do
    mapError .platform (validateCodeId codeOf sender self.config.leaseCode)
    let sends ← doCoverLosses self sender amount
    pure (sends, self)

def settle (self : Reserve) (sends : List Send) : Option Reserve :=
  if (sends.map Send.amount).sum ≤ self.balance then
    some { self with balance := self.balance - (sends.map Send.amount).sum }
  else none

theorem validateCodeId_ok (codeOf : Addr → Option ℕ) (contractAddress : Addr)
    (expectedCode : ℕ) :
    validateCodeId codeOf contractAddress expectedCode = .ok () ↔
      codeOf contractAddress = some expectedCode := by
  simp only [validateCodeId, bind_ok, okOr_ok, ensure_ok]
  constructor
  · rintro ⟨code, h, rfl⟩
    exact h
  · intro h
    exact ⟨expectedCode, h, rfl⟩

theorem newLeaseCode_ok (codeOf : Addr → Option ℕ) (self next : Reserve) (sender : Addr)
    (code : ℕ) (sends : List Send) :
    execute codeOf self sender (.newLeaseCode code) = .ok (sends, next) ↔
      self.leaseCodeAdmin = some sender ∧ sends = [] ∧
        next = { self with config := ⟨code⟩ } := by
  simp only [execute, Config.updateLeaseCode, then_ok, mapError_ok, SingleUserAccess.check_ok,
    pure_ok, Prod.mk.injEq]
  constructor
  · rintro ⟨h, hs, hn⟩
    exact ⟨h, hs.symm, hn.symm⟩
  · rintro ⟨h, hs, hn⟩
    exact ⟨h, hs.symm, hn.symm⟩

theorem coverLosses_ok (codeOf : Addr → Option ℕ) (self next : Reserve) (sender : Addr)
    (amount : ℕ) (sends : List Send) :
    execute codeOf self sender (.coverLiquidationLosses amount) = .ok (sends, next) ↔
      codeOf sender = some self.config.leaseCode ∧ amount ≤ self.balance ∧
        sends = [⟨sender, amount⟩] ∧ next = self := by
  rw [execute, then_ok, mapError_ok, validateCodeId_ok]
  simp only [doCoverLosses, bind_ok, pure_ok, Prod.mk.injEq]
  constructor
  · rintro ⟨hcode, sends', hsends, rfl, rfl⟩
    split_ifs at hsends with hlow
    · exact absurd hsends (failing_ok _ _)
    · exact ⟨hcode, Nat.le_of_not_lt hlow, ((pure_ok _ _).1 hsends).symm, rfl⟩
  · rintro ⟨hcode, hle, rfl, rfl⟩
    refine ⟨hcode, _, ?_, rfl, rfl⟩
    rw [if_neg (Nat.not_lt.2 hle)]
    rfl

theorem settle_covered (self : Reserve) (sender : Addr) (amount : ℕ) (h : amount ≤ self.balance) :
    settle self [⟨sender, amount⟩] = some { self with balance := self.balance - amount } := by
  simp [settle, h]

end Nolus.ReserveContract
