import NolusMoneyMarket.Base.Fallible

/-! # Access of a single user

A contract grants access to one user at a time under a storage item. -/

set_option autoImplicit false

namespace Nolus.AccessControl
open Nolus.Fallible

abbrev Addr : Type := ℕ

inductive StdError
  | genericErr (message : String)
  | notFound (kind : String)
deriving DecidableEq, Repr

inductive AccessError
  | unauthorized
  | std (cause : StdError)
deriving DecidableEq, Repr

def check (permittedTo accessedBy : Addr) : Outcome AccessError Unit :=
  ensure (permittedTo = accessedBy) (.error .unauthorized)

abbrev SingleUserAccess : Type := Option Addr

namespace SingleUserAccess

def check (self : SingleUserAccess) (user : Addr) : Outcome AccessError Unit := do
  let grantedTo ← okOr self (.std (.notFound "Addr"))
  AccessControl.check grantedTo user

def grantTo (user : Addr) : SingleUserAccess := some user

theorem check_ok (self : SingleUserAccess) (user : Addr) :
    self.check user = .ok () ↔ self = some user := by
  simp only [check, AccessControl.check, bind_ok, okOr_ok, ensure_ok]
  constructor
  · rintro ⟨grantedTo, h, rfl⟩
    exact h
  · intro h
    exact ⟨user, h, rfl⟩

end SingleUserAccess

end Nolus.AccessControl
