import NolusMoneyMarket.Dex.Supports
import NolusMoneyMarket.Profit.Contract

/-! # What the states of the profit contract support

An operation may well fail in a state that supports it, on an overflow, on a
balance that cannot be queried, or on a request that cannot be built. -/

set_option autoImplicit false

namespace Nolus.ProfitSupports
open Nolus.Fallible Nolus.SwapTasks Nolus.ProfitContract
open Nolus.SwapSupports (supports Buildable)

variable {Addr Currency Data Msg : Type}

def Supported (fault : Fault ContractError) : Prop :=
  ∀ operation, fault ≠ .error (.dex (.unsupportedOperation operation))

theorem platform_supported : Supported (.error .platform) := nofun

theorem dex_platform_supported : Supported (.error (.dex .platform)) := nofun

theorem unauthorized_supported : Supported (.error .unauthorized) := nofun

theorem panic_supported (cause : Panic) : Supported (.panic cause) := nofun

theorem nativeAdd_supported (width a b : ℕ) :
    FaultsIn Supported (nativeAdd width a b : Outcome ContractError ℕ) := by
  intro e he
  obtain ⟨message, rfl⟩ := evaluates_faults _ _ (nativeAdd_evaluates width a b) e he
  exact panic_supported _

theorem dex_supported {α : Type} (x : Outcome DexError α)
    (h : FaultsIn SwapSupports.Supported x) : FaultsIn Supported (mapError .dex x) := by
  cases x with
  | ok a => exact faultsIn_ok _ a
  | error fault =>
    cases fault with
    | panic cause => exact faultsIn_error _ _ (panic_supported cause)
    | error reason =>
      apply faultsIn_error
      intro operation hreason
      cases hreason
      exact h _ rfl operation rfl

theorem enter_supported (env : ChainEnv Currency) (config : Config Addr) :
    FaultsIn Supported (Idle.enter env config) :=
  faultsIn_bind _ _ _ (nativeAdd_supported _ _ _) fun _ _ => faultsIn_pure _ _

theorem finish_supported (env : ChainEnv Currency) (config : Config Addr) (nls : Currency) :
    FaultsIn Supported (BuyBack.finish env config nls :
      Outcome ContractError (Response Addr Currency Data)) := by
  apply faultsIn_bind _ _ _ (faultsIn_okOr _ _ _ platform_supported)
  intro balanceNls _
  exact faultsIn_bind _ _ _ (enter_supported env config) fun _ _ => faultsIn_pure _ _

theorem aggregate_supported (self other : SplitCoins Currency) :
    FaultsIn Supported (self.aggregate other) :=
  faultsIn_bind _ _ _ (nativeAdd_supported _ _ _) fun _ _ => faultsIn_pure _ _

theorem tryEnterBuyBack_supported (env : ChainEnv Currency) (henv : Buildable env.toEnv)
    (config : Config Addr) (nls : Currency) (balances : List (CoinDTO Currency)) :
    FaultsIn Supported (Idle.tryEnterBuyBack env config nls balances :
      Outcome ContractError (Response Addr Currency Data)) := by
  unfold Idle.tryEnterBuyBack
  split
  · exact faultsIn_bind _ _ _
      (dex_supported _ (SwapSupports.submitTransfer_supported env.toEnv henv _))
      fun _ _ => faultsIn_pure _ _
  · exact faultsIn_error _ _ (panic_supported _)

section Balances

variable [DecidableEq Currency]

theorem aggregated_supported (nls : Currency) (coins : List (CoinDTO Currency))
    (split : SplitCoins Currency) :
    FaultsIn Supported (coins.foldlM (fun split coin => split.aggregate (.on nls coin)) split) := by
  induction coins generalizing split with
  | nil => exact faultsIn_pure _ _
  | cons coin coins ih =>
    rw [List.foldlM_cons]
    exact faultsIn_bind _ _ _ (aggregate_supported _ _) fun _ _ => ih _

theorem splitBalances_supported (nls : Currency) (balances : List (CoinDTO Currency)) :
    FaultsIn Supported (splitBalances nls balances) := by
  cases balances with
  | nil => exact faultsIn_pure _ _
  | cons coin coins => exact aggregated_supported nls coins _

theorem idle_alarm_supported (env : ChainEnv Currency) (henv : Buildable env.toEnv)
    (config : Config Addr) (nls : Currency) :
    FaultsIn Supported (Idle.onTimeAlarm env config nls :
      Outcome ContractError (Response Addr Currency Data)) := by
  apply faultsIn_bind _ _ _ (faultsIn_okOr _ _ _ platform_supported)
  intro balances _
  apply faultsIn_bind _ _ _ (splitBalances_supported nls balances)
  intro split _
  split
  · exact faultsIn_bind _ _ _ (enter_supported env config) fun _ _ => faultsIn_pure _ _
  · exact tryEnterBuyBack_supported env henv config nls _

end Balances

theorem opened_supported (env : ChainEnv Currency) (config : Config Addr)
    (counterpartyVersion : String) :
    FaultsIn Supported (OpenIca.onOpenIca env config counterpartyVersion :
      Outcome ContractError (Response Addr Currency Data)) := by
  apply faultsIn_bind _ _ _ (faultsIn_ensure _ _ _ fun _ => dex_platform_supported)
  intro _ _
  exact faultsIn_bind _ _ _ (enter_supported env config) fun _ _ => faultsIn_pure _ _

variable [DecidableEq Currency]

theorem handled_supported (swapClient : SwapClient Data Msg) (env : ChainEnv Currency)
    (henv : Buildable env.toEnv) (config : Config Addr) (task : SwapTask Currency)
    (s : OutLocal.State Data task) (input : Input Data) (h : supports s input = true) :
    FaultsIn Supported (BuyBack.handled env config task (s.handle swapClient env.toEnv input)) := by
  apply faultsIn_bind _ _ _
    (dex_supported _ (SwapSupports.handle_supported swapClient env.toEnv henv s input h))
  intro result _
  cases result with
  | continue_ messages next => exact faultsIn_pure _ _
  | finished amountOut => exact finish_supported env config task.outCurrency

end Nolus.ProfitSupports
