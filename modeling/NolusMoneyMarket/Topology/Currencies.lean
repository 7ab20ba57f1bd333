import NolusMoneyMarket.Topology.HostToDex

/-! # The currencies of a dex

A currency of a dex is native to a network, or comes from another one over a
channel, where it may come from yet another. The resolution follows it to the
network it is native to. Its dex symbol is made of the channels walked from the
dex, and its bank symbol of those walked from the host, which lead over the dex
unless the currency is the one of the host. -/

set_option autoImplicit false

namespace Nolus.Topologies
open Nolus.Fallible Nolus.KeyedStore

variable {N K : Type} [LinearOrder N] [LinearOrder K]

structure Native (K : Type) where
  symbol : K
  decimalDigits : ℕ
deriving DecidableEq, Repr

inductive Currency (N K : Type)
  | native (native : Native K)
  | ibc (network : N) (currency : K)
deriving DecidableEq, Repr

structure Host (N K : Type) where
  name : N
  currency : K
  native : Native K
deriving DecidableEq, Repr

structure Topology (N K : Type) where
  hostNetwork : Host N K
  networks : Store N (Store K (Currency N K))
  channels : Channels N String

/-! ## Symbols -/

structure Symbol where
  path : String
  symbol : String
deriving DecidableEq, Repr

inductive Builder
  | native
  | ibc (path : String)
deriving DecidableEq, Repr

def pushChannel (path channel : String) : String := path ++ "transfer/" ++ channel ++ "/"

def Builder.addChannel (self : Builder) (channel : String) : Builder :=
  match self with
  | .native => .ibc (pushChannel "" channel)
  | .ibc path => .ibc (pushChannel path channel)

/-- The text of a currency id, and the digest of the library in upper case hexadecimal digits. -/
structure Spelling (K : Type) where
  text : K → String
  digest : String → String

def Builder.addSymbol (spelling : Spelling K) (self : Builder) (symbol : K) : Symbol :=
  match self with
  | .native => ⟨spelling.text symbol, spelling.text symbol⟩
  | .ibc path =>
    ⟨path ++ spelling.text symbol, "ibc/" ++ spelling.digest (path ++ spelling.text symbol)⟩

def Builder.addChannels (self : Builder) (channels : List String) : Builder :=
  channels.foldl Builder.addChannel self

theorem addChannels_append (self : Builder) (channels rest : List String) :
    self.addChannels (channels ++ rest) = (self.addChannels channels).addChannels rest :=
  List.foldl_append

/-! ## The resolution of a currency -/

structure CurrencyDefinition where
  ticker : String
  host : Symbol
  dex : Symbol
  decimalDigits : ℕ
deriving DecidableEq, Repr

inductive HostLocality
  | local_ (definition : CurrencyDefinition)
  | remote (definition : CurrencyDefinition)
deriving DecidableEq, Repr

structure DexResolvedCurrency (N K : Type) where
  traversedNetworks : List N
  dexSymbol : Builder
  currency : Native K
  hostLocal : Bool

structure ResolvedNonHostIbcCurrency (N K : Type) where
  traversedNetworks : List N
  dexSymbol : Builder
  currency : Currency N K

def hostAlreadyTraversed : Panic :=
  .assertion "Host network should not have been already traversed!"

def hostCurrencyMismatch : Panic := .assertion "assertion `left == right` failed"

def resolveHostCurrency (hostNetwork : Host N K) (hostToDexPath : List (Channel String))
    (traversedNetworks : List N) (dexSymbol : Builder) (network : N) (currency : K) :
    Outcome (Error N) (DexResolvedCurrency N K) := do
  ensure (alreadyTraversed traversedNetworks network = false)
    (.panic hostAlreadyTraversed)
  ensure (currency = hostNetwork.currency) (.panic hostCurrencyMismatch)
  let channel ← expect hostToDexPath.head? (.assertion "index out of bounds")
  pure ⟨traversedNetworks ++ [hostNetwork.name],
    dexSymbol.addChannel channel.counterpartChannelId, hostNetwork.native, true⟩

/-- A network that is not connected to the last one adds no channel to the dex symbol here. -/
def resolveNonHostIbcCurrency (spelling : Spelling K)
    (networks : Store N (Store K (Currency N K)))
    (channels : Channels N String) (traversedNetworks : List N) (dexSymbol : Builder) (network : N)
    (currency : K) : Outcome (Error N) (ResolvedNonHostIbcCurrency N K) := do
  ensure (alreadyTraversed traversedNetworks network = false)
    (.error (.resolveCurrency .cycleCreated))
  let last ← expect traversedNetworks.getLast?
    (.assertion "Traversed networks list has to contain at least the starting network!")
  let currencies ← okOr (networks.lookup network) (.resolveCurrency (.noSuchNetwork network))
  let found ← okOr (currencies.lookup currency)
    (.resolveCurrency (.noSuchCurrency (spelling.text currency)))
  pure ⟨traversedNetworks ++ [network],
    dexSymbol.addChannels (endpointOf channels last network).toList, found⟩

/-- A round of the resolution comes upon one more network. -/
def Topology.resolveDexSide (spelling : Spelling K) (self : Topology N K)
    (hostToDexPath : List (Channel String)) :
    ℕ → List N → Builder → Currency N K → Outcome (Error N) (DexResolvedCurrency N K)
  | 0, _, _, _ => panicking (.assertion "more rounds than networks")
  | _ + 1, traversedNetworks, dexSymbol, .native native =>
    pure ⟨traversedNetworks, dexSymbol, native, false⟩
  | rounds + 1, traversedNetworks, dexSymbol, .ibc network currency =>
    if network = self.hostNetwork.name then
      resolveHostCurrency self.hostNetwork hostToDexPath traversedNetworks dexSymbol network
        currency
    else do
      let resolved ← resolveNonHostIbcCurrency spelling self.networks self.channels
        traversedNetworks dexSymbol network currency
      self.resolveDexSide spelling hostToDexPath rounds resolved.traversedNetworks
        resolved.dexSymbol resolved.currency

def foldBankSideInWindows (channels : Channels N String) : Builder → List N →
    Outcome (Error N) Builder
  | bankSymbol, source :: remote :: networks => do
    let channelId ← okOr (endpointOf channels source remote)
      (.resolveCurrency (.networksNotConnected source remote))
    foldBankSideInWindows channels (bankSymbol.addChannel channelId) (remote :: networks)
  | bankSymbol, _ => pure bankSymbol

def initialBankSymbolAndPath (traversedNetworks : List N) (hostNetwork : N)
    (hostToDexPath : List (Channel String)) : Builder × List N :=
  if alreadyTraversed traversedNetworks hostNetwork then
    (.native, traversedNetworks.dropWhile fun network => network ≠ hostNetwork)
  else (Builder.native.addChannels (hostToDexPath.map Channel.channelId), traversedNetworks)

def DexResolvedCurrency.resolveBankSide (spelling : Spelling K)
    (self : DexResolvedCurrency N K) (hostNetwork : N) (channels : Channels N String)
    (hostToDexPath : List (Channel String)) (ticker : K) :
    Outcome (Error N) HostLocality := do
  let initial := initialBankSymbolAndPath self.traversedNetworks hostNetwork hostToDexPath
  let bankSymbol ← foldBankSideInWindows channels initial.1 initial.2
  let definition : CurrencyDefinition :=
    ⟨spelling.text ticker, bankSymbol.addSymbol spelling self.currency.symbol,
      self.dexSymbol.addSymbol spelling self.currency.symbol, self.currency.decimalDigits⟩
  pure (if self.hostLocal then .local_ definition else .remote definition)

def Topology.resolveCurrency (spelling : Spelling K) (self : Topology N K) (dexNetwork : N)
    (hostToDexPath : List (Channel String)) (ticker : K) (currency : Currency N K) :
    Outcome (Error N) HostLocality := do
  let dexResolved ← self.resolveDexSide spelling hostToDexPath (records self.networks).length
    [dexNetwork] .native currency
  dexResolved.resolveBankSide spelling self.hostNetwork.name self.channels hostToDexPath ticker

/-! ## The definitions -/

structure CurrencyDefinitions where
  hostCurrency : CurrencyDefinition
  dexCurrencies : List CurrencyDefinition
deriving DecidableEq, Repr

def defineCurrency (found : Option CurrencyDefinition × List CurrencyDefinition) :
    HostLocality → Outcome (Error N) (Option CurrencyDefinition × List CurrencyDefinition)
  | .local_ definition => do
    ensure (found.1 = none) (.error .hostCurrencyAlreadyDefined)
    pure (some definition, found.2)
  | .remote definition => pure (found.1, found.2 ++ [definition])

def Topology.currencyDefinitions (spelling : Spelling K) (self : Topology N K)
    (dexNetwork : N) : Outcome (Error N) CurrencyDefinitions := do
  let currencies ← okOr (self.networks.lookup dexNetwork) .nonExistentDexNetwork
  let hostToDexPath ← findPath self.channels self.hostNetwork.name dexNetwork
  let found ← (records currencies).foldlM (fun found currency => do
    let locality ← self.resolveCurrency spelling dexNetwork hostToDexPath currency.1 currency.2
    defineCurrency found locality) (none, [])
  let hostCurrency ← okOr found.1 .hostCurrencyNotDefined
  pure ⟨hostCurrency, found.2⟩

/-! ## Walking on from the dex -/

def hops (channels : Channels N String) : List N → List String
  | source :: remote :: networks =>
    (endpointOf channels source remote).toList ++ hops channels (remote :: networks)
  | _ => []

theorem hops_further (channels : Channels N String) (networks : List N) (last next : N)
    (h : networks.getLast? = some last) :
    hops channels (networks ++ [next]) =
      hops channels networks ++ (endpointOf channels last next).toList := by
  induction networks with
  | nil => cases h
  | cons source networks ih =>
    cases networks with
    | nil =>
      obtain rfl := Option.some.inj h
      exact List.append_nil _
    | cons remote networks =>
      rw [List.getLast?_cons_cons] at h
      rw [List.cons_append, List.cons_append, hops, hops, ← List.cons_append, ih h,
        List.append_assoc]

inductive Crosses (channels : Channels N String) : List N → List String → Prop
  | last (network : N) : Crosses channels [network] []
  | next (network remote : N) (networks : List N) (channelId : String) (channelIds : List String)
      (h : endpointOf channels network remote = some channelId)
      (hnext : Crosses channels (remote :: networks) channelIds) :
      Crosses channels (network :: remote :: networks) (channelId :: channelIds)

theorem bank_crosses (channels : Channels N String) (source : N) (networks : List N)
    (before bankSymbol : Builder)
    (h : foldBankSideInWindows channels before (source :: networks) = .ok bankSymbol) :
    bankSymbol = before.addChannels (hops channels (source :: networks)) ∧
      Crosses channels (source :: networks) (hops channels (source :: networks)) := by
  induction networks generalizing source before with
  | nil => exact ⟨((pure_ok _ _).1 h).symm, .last source⟩
  | cons remote networks ih =>
    obtain ⟨channelId, hfound, hrest⟩ := (bind_ok _ _ _).1 h
    have hthere := (okOr_ok _ _ _).1 hfound
    obtain ⟨hsymbol, hcrosses⟩ := ih remote (before.addChannel channelId) hrest
    rw [hops, hthere]
    exact ⟨hsymbol, .next source remote networks channelId _ hthere hcrosses⟩

/-! ## Following a currency -/

def Topology.currencyOf (self : Topology N K) (network : N) (id : K) : Option (Currency N K) :=
  (self.networks.lookup network).bind fun currencies => currencies.lookup id

/-- A currency of a network is followed from one network to the next it comes from, up to what it is
at the last of them. -/
inductive Refers (topology : Topology N K) : N → K → List N → Currency N K → Prop
  | here (network : N) (id : K) (currency : Currency N K)
      (h : topology.currencyOf network id = some currency) :
      Refers topology network id [network] currency
  | further (network remote : N) (id next : K) (networks : List N) (currency : Currency N K)
      (h : topology.currencyOf network id = some (.ibc remote next))
      (hnext : Refers topology remote next networks currency) :
      Refers topology network id (network :: networks) currency

theorem refers_further (topology : Topology N K) (network remote : N) (id next : K)
    (networks : List N) (currency : Currency N K)
    (h : Refers topology network id networks (.ibc remote next))
    (hfound : topology.currencyOf remote next = some currency) :
    Refers topology network id (networks ++ [remote]) currency := by
  generalize hibc : Currency.ibc remote next = reached at h
  induction h with
  | here network id _ h =>
    subst hibc
    exact .further network remote id next [remote] currency h (.here remote next currency hfound)
  | further network other id between networks _ h _ ih =>
    exact .further network other id between _ currency h (ih hibc)

theorem refers_from (topology : Topology N K) (network : N) (id : K) (networks : List N)
    (currency : Currency N K) (h : Refers topology network id networks currency) :
    ∃ further, networks = network :: further := by
  cases h with
  | here => exact ⟨[], rfl⟩
  | further _ _ _ _ networks => exact ⟨networks, rfl⟩

structure Traversing (topology : Topology N K) (dexNetwork : N) (ticker : K)
    (traversedNetworks : List N) (dexSymbol : Builder) (currency : Currency N K) : Prop where
  refers : Refers topology dexNetwork ticker traversedNetworks currency
  distinct : traversedNetworks.Nodup
  known : ∀ network ∈ traversedNetworks, network ∈ topology.networks
  notHost : topology.hostNetwork.name ∉ traversedNetworks
  symbol : dexSymbol = Builder.native.addChannels (hops topology.channels traversedNetworks)

theorem resolveNonHost_traversing (spelling : Spelling K) (topology : Topology N K)
    (dexNetwork network : N) (ticker currency : K) (traversedNetworks : List N)
    (dexSymbol : Builder) (resolved : ResolvedNonHostIbcCurrency N K)
    (h : Traversing topology dexNetwork ticker traversedNetworks dexSymbol (.ibc network currency))
    (hhost : network ≠ topology.hostNetwork.name)
    (hr : resolveNonHostIbcCurrency spelling topology.networks topology.channels traversedNetworks
      dexSymbol network currency = .ok resolved) :
    resolved.traversedNetworks.length = traversedNetworks.length + 1 ∧
      Traversing topology dexNetwork ticker resolved.traversedNetworks resolved.dexSymbol
        resolved.currency := by
  simp only [resolveNonHostIbcCurrency, bind_ok, ensure_ok, expect_ok, okOr_ok, pure_ok] at hr
  obtain ⟨_, hnew, last, hlast, currencies, hcurrencies, found, hfound, rfl⟩ := hr
  refine ⟨List.length_append, ?_⟩
  constructor
  · apply refers_further topology dexNetwork network ticker currency _ _ h.refers
    rw [Topology.currencyOf, hcurrencies]
    exact hfound
  · rw [List.nodup_append]
    refine ⟨h.distinct, List.nodup_singleton _, ?_⟩
    rintro a ha b hb rfl
    rw [List.mem_singleton.1 hb] at ha
    exact (not_traversed _ _).1 hnew ha
  · intro other hin
    rcases List.mem_append.1 hin with hold | hnow
    · exact h.known other hold
    · rw [List.mem_singleton.1 hnow]
      exact AList.lookup_isSome.1 (by rw [hcurrencies]; rfl)
  · rw [List.mem_append, List.mem_singleton, not_or]
    exact ⟨h.notHost, fun heq => hhost heq.symm⟩
  · rw [h.symbol, hops_further topology.channels traversedNetworks last network hlast,
      addChannels_append]

/-- The currency is followed to the network it is native to, or to the host. -/
def Resolved (topology : Topology N K) (dexNetwork : N) (hostToDexPath : List (Channel String))
    (ticker : K) (resolved : DexResolvedCurrency N K) : Prop :=
  (resolved.hostLocal = false ∧ Traversing topology dexNetwork ticker resolved.traversedNetworks
    resolved.dexSymbol (.native resolved.currency)) ∨
  (resolved.hostLocal = true ∧ resolved.currency = topology.hostNetwork.native ∧
    ∃ traversedNetworks dexSymbol channel,
      Traversing topology dexNetwork ticker traversedNetworks dexSymbol
        (.ibc topology.hostNetwork.name topology.hostNetwork.currency) ∧
      hostToDexPath.head? = some channel ∧
      resolved.traversedNetworks = traversedNetworks ++ [topology.hostNetwork.name] ∧
      resolved.dexSymbol = dexSymbol.addChannel channel.counterpartChannelId)

theorem resolveDexSide_resolved (spelling : Spelling K) (topology : Topology N K) (dexNetwork : N)
    (hostToDexPath : List (Channel String)) (ticker : K) (rounds : ℕ) (traversedNetworks : List N)
    (dexSymbol : Builder) (currency : Currency N K) (resolved : DexResolvedCurrency N K)
    (h : Traversing topology dexNetwork ticker traversedNetworks dexSymbol currency)
    (hr : topology.resolveDexSide spelling hostToDexPath rounds traversedNetworks dexSymbol
      currency = .ok resolved) : Resolved topology dexNetwork hostToDexPath ticker resolved := by
  induction rounds generalizing traversedNetworks dexSymbol currency with
  | zero => exact absurd hr (panicking_ok _ _)
  | succ rounds ih =>
    cases currency with
    | native native =>
      rw [← (pure_ok _ _).1 hr]
      exact .inl ⟨rfl, h⟩
    | ibc network currency =>
      rw [Topology.resolveDexSide] at hr
      split_ifs at hr with hhost
      · simp only [resolveHostCurrency, bind_ok, ensure_ok, expect_ok, pure_ok] at hr
        obtain ⟨_, -, _, rfl, channel, hchannel, rfl⟩ := hr
        subst hhost
        exact .inr ⟨rfl, rfl, traversedNetworks, dexSymbol, channel, h, hchannel, rfl, rfl⟩
      · obtain ⟨next, hnext, hr⟩ := (bind_ok _ _ _).1 hr
        exact ih _ _ _ (resolveNonHost_traversing spelling topology dexNetwork network ticker
          currency traversedNetworks dexSymbol next h hhost hnext).2 hr

/-! ## What a definition tells -/

/-- The definition of a currency followed to the network it is native to. The bank symbol leads from
the host over the dex to that network, and the dex symbol is the rest of the way. -/
structure Follows (spelling : Spelling K) (topology : Topology N K) (dexNetwork : N)
    (path : List (Channel String)) (ticker : K) (definition : CurrencyDefinition) : Prop where
  named : definition.ticker = spelling.text ticker
  followed : ∃ networks channelIds native,
    Refers topology dexNetwork ticker networks (.native native) ∧
    topology.hostNetwork.name ∉ networks ∧ Crosses topology.channels networks channelIds ∧
    definition.host = (Builder.native.addChannels
      (path.map Channel.channelId ++ channelIds)).addSymbol spelling native.symbol ∧
    definition.dex = (Builder.native.addChannels channelIds).addSymbol spelling native.symbol ∧
    definition.decimalDigits = native.decimalDigits

/-- The definition of a currency followed to the host. The dex symbol ends with the far endpoint of
the first channel out of the host. -/
structure OfHost (spelling : Spelling K) (topology : Topology N K) (dexNetwork : N)
    (path : List (Channel String)) (ticker : K) (definition : CurrencyDefinition) : Prop where
  named : definition.ticker = spelling.text ticker
  followed : ∃ networks channel,
    Refers topology dexNetwork ticker networks
      (.ibc topology.hostNetwork.name topology.hostNetwork.currency) ∧
    path.head? = some channel ∧
    definition.dex = (Builder.native.addChannels
      (hops topology.channels networks ++ [channel.counterpartChannelId])).addSymbol spelling
        topology.hostNetwork.native.symbol
  host : definition.host = ⟨spelling.text topology.hostNetwork.native.symbol,
    spelling.text topology.hostNetwork.native.symbol⟩
  decimalDigits : definition.decimalDigits = topology.hostNetwork.native.decimalDigits

def Tells (spelling : Spelling K) (topology : Topology N K) (dexNetwork : N)
    (path : List (Channel String)) (ticker : K) (locality : HostLocality) : Prop :=
  match locality with
  | .local_ definition => OfHost spelling topology dexNetwork path ticker definition
  | .remote definition => Follows spelling topology dexNetwork path ticker definition

theorem resolveBankSide_tells (spelling : Spelling K) (topology : Topology N K) (dexNetwork : N)
    (path : List (Channel String)) (ticker : K) (resolved : DexResolvedCurrency N K)
    (locality : HostLocality) (hr : Resolved topology dexNetwork path ticker resolved)
    (h : resolved.resolveBankSide spelling topology.hostNetwork.name topology.channels path ticker =
      .ok locality) : Tells spelling topology dexNetwork path ticker locality := by
  obtain ⟨bankSymbol, hbank, h⟩ := (bind_ok _ _ _).1 h
  obtain rfl := (pure_ok _ _).1 h
  obtain ⟨traversed, dexSymbol, native, hostLocal⟩ := resolved
  rcases hr with ⟨hremote, htraversing⟩ |
    ⟨hlocal, hnative, before, symbol, channel, htraversing, hchannel, htraversed, hdex⟩
  · simp only at hremote htraversing hbank
    subst hremote
    obtain ⟨networks, rfl⟩ := refers_from _ _ _ _ _ htraversing.refers
    have hnot : ¬ alreadyTraversed (dexNetwork :: networks) topology.hostNetwork.name = true := by
      rw [Bool.not_eq_true, not_traversed]
      exact htraversing.notHost
    rw [initialBankSymbolAndPath, if_neg hnot] at hbank
    obtain ⟨hsymbol, hcrosses⟩ := bank_crosses topology.channels dexNetwork networks _ _ hbank
    refine ⟨rfl, dexNetwork :: networks, _, native, htraversing.refers, htraversing.notHost,
      hcrosses, ?_, ?_, rfl⟩
    · rw [addChannels_append, ← hsymbol]
    · rw [← htraversing.symbol]
  · simp only at hlocal hnative htraversed hdex hbank
    subst hlocal hnative htraversed hdex
    have hdropped : (before ++ [topology.hostNetwork.name]).dropWhile
        (fun network => network ≠ topology.hostNetwork.name) = [topology.hostNetwork.name] := by
      rw [List.dropWhile_append_of_pos]
      · simp
      · intro network hin
        exact decide_eq_true fun heq => htraversing.notHost (heq ▸ hin)
    have hin : alreadyTraversed (before ++ [topology.hostNetwork.name])
        topology.hostNetwork.name = true :=
      decide_eq_true (List.mem_append_right before (List.mem_singleton.2 rfl))
    rw [initialBankSymbolAndPath, if_pos hin, hdropped] at hbank
    obtain rfl := (pure_ok _ _).1 hbank
    refine ⟨rfl, ⟨before, channel, htraversing.refers, hchannel, ?_⟩, rfl, rfl⟩
    rw [addChannels_append, ← htraversing.symbol]
    rfl

theorem walk_leaves (channels : Channels N String) (start network : N)
    (walked : List (Channel String)) (h : Walk channels start network walked)
    (hne : start ≠ network) : walked ≠ [] := by
  cases h with
  | start => exact absurd rfl hne
  | next network next walked channel => exact List.concat_ne_nil _ _

section Resolving

variable {spelling : Spelling K} {topology : Topology N K} {dexNetwork : N}
variable {path : List (Channel String)} {currencies : Store K (Currency N K)}

theorem traversing_start (hne : topology.hostNetwork.name ≠ dexNetwork)
    (hdex : topology.networks.lookup dexNetwork = some currencies) (ticker : K)
    (currency : Currency N K) (h : currencies.lookup ticker = some currency) :
    Traversing topology dexNetwork ticker [dexNetwork] .native currency where
  refers := by
    apply Refers.here
    rw [Topology.currencyOf, hdex]
    exact h
  distinct := List.nodup_singleton _
  known := by
    intro network hin
    rw [List.mem_singleton.1 hin]
    exact AList.lookup_isSome.1 (by rw [hdex]; rfl)
  notHost := fun hin => hne (List.mem_singleton.1 hin)
  symbol := rfl

theorem resolveCurrency_tells (hne : topology.hostNetwork.name ≠ dexNetwork)
    (hdex : topology.networks.lookup dexNetwork = some currencies) (ticker : K)
    (currency : Currency N K) (hcurrency : currencies.lookup ticker = some currency)
    (locality : HostLocality)
    (h : topology.resolveCurrency spelling dexNetwork path ticker currency = .ok locality) :
    Tells spelling topology dexNetwork path ticker locality := by
  obtain ⟨resolved, hresolved, h⟩ := (bind_ok _ _ _).1 h
  exact resolveBankSide_tells spelling topology dexNetwork path ticker resolved locality
    (resolveDexSide_resolved spelling topology dexNetwork path ticker _ _ _ currency resolved
      (traversing_start hne hdex ticker currency hcurrency) hresolved) h

def Defined (spelling : Spelling K) (topology : Topology N K) (dexNetwork : N)
    (path : List (Channel String)) (tickers : List K) :
    Option CurrencyDefinition × List CurrencyDefinition → Prop
  | (none, definitions) =>
    List.Forall₂ (Follows spelling topology dexNetwork path) tickers definitions
  | (some host, definitions) => ∃ before ticker after, tickers = before ++ ticker :: after ∧
    OfHost spelling topology dexNetwork path ticker host ∧
    List.Forall₂ (Follows spelling topology dexNetwork path) (before ++ after) definitions

theorem defineCurrency_defined (tickers : List K) (ticker : K)
    (found next : Option CurrencyDefinition × List CurrencyDefinition) (locality : HostLocality)
    (hd : Defined spelling topology dexNetwork path tickers found)
    (htells : Tells spelling topology dexNetwork path ticker locality)
    (h : (defineCurrency found locality : Outcome (Error N) _) = .ok next) :
    Defined spelling topology dexNetwork path (tickers ++ [ticker]) next := by
  obtain ⟨host, definitions⟩ := found
  cases locality with
  | local_ definition =>
    obtain ⟨_, hnone, h⟩ := (bind_ok _ _ _).1 h
    obtain rfl := (pure_ok _ _).1 h
    obtain rfl : host = none := (ensure_ok _ _ _).1 hnone
    refine ⟨tickers, ticker, [], rfl, htells, ?_⟩
    rw [List.append_nil]
    exact hd
  | remote definition =>
    obtain rfl := (pure_ok _ _).1 h
    have hlast : List.Forall₂ (Follows spelling topology dexNetwork path) [ticker] [definition] :=
      .cons htells .nil
    cases host with
    | none => exact List.rel_append hd hlast
    | some host =>
      obtain ⟨before, hostTicker, after, rfl, hhost, hdefinitions⟩ := hd
      refine ⟨before, hostTicker, after ++ [ticker], ?_, hhost, ?_⟩
      · rw [List.append_assoc, List.cons_append]
      · rw [← List.append_assoc]
        exact List.rel_append hdefinitions hlast

theorem definitions_defined (hne : topology.hostNetwork.name ≠ dexNetwork)
    (hdex : topology.networks.lookup dexNetwork = some currencies)
    (l : List (K × Currency N K)) (hl : ∀ c ∈ l, currencies.lookup c.1 = some c.2)
    (tickers : List K) (found next : Option CurrencyDefinition × List CurrencyDefinition)
    (hd : Defined spelling topology dexNetwork path tickers found)
    (h : l.foldlM (fun found currency => do
      let locality ← topology.resolveCurrency spelling dexNetwork path currency.1 currency.2
      defineCurrency found locality) found = .ok next) :
    Defined spelling topology dexNetwork path (tickers ++ l.map Prod.fst) next := by
  induction l generalizing tickers found with
  | nil =>
    rw [← (pure_ok _ _).1 h, List.map_nil, List.append_nil]
    exact hd
  | cons currency l ih =>
    rw [List.forall_mem_cons] at hl
    rw [List.foldlM_cons] at h
    obtain ⟨found', hfound, h⟩ := (bind_ok _ _ _).1 h
    obtain ⟨locality, hlocality, hdefine⟩ := (bind_ok _ _ _).1 hfound
    have htells := resolveCurrency_tells hne hdex currency.1 currency.2 hl.1 locality hlocality
    have hnext := ih hl.2 _ found' (defineCurrency_defined _ _ _ _ _ hd htells hdefine) h
    rwa [List.append_assoc] at hnext

/-! ## How a resolution ends -/

/-- A fault is an error of the topology, or the host currency is not the one it is said to be. -/
def Reported (e : Fault (Error N)) : Prop :=
  (∃ reason, e = .error reason) ∨ e = .panic hostCurrencyMismatch

omit [LinearOrder N] in
theorem reported_error (reason : Error N) : Reported (.error reason) := .inl ⟨reason, rfl⟩

theorem traversed_length (ticker : K) (traversedNetworks : List N) (dexSymbol : Builder)
    (currency : Currency N K)
    (h : Traversing topology dexNetwork ticker traversedNetworks dexSymbol currency) :
    traversedNetworks.length ≤ (records topology.networks).length := by
  have hsub : traversedNetworks ⊆ (records topology.networks).map Prod.fst := by
    intro network hin
    obtain ⟨known, hknown⟩ :=
      Option.isSome_iff_exists.1 (AList.lookup_isSome.2 (h.known network hin))
    exact List.mem_map.2 ⟨(network, known), (mem_records _ _ _).2 hknown, rfl⟩
  have hle := (List.subperm_of_subset h.distinct hsub).length_le
  rwa [List.length_map] at hle

theorem resolveHost_reported (hpath : path ≠ []) (hostNetwork : Host N K)
    (traversedNetworks : List N) (dexSymbol : Builder) (network : N) (currency : K)
    (hnew : alreadyTraversed traversedNetworks network = false) :
    FaultsIn Reported
      (resolveHostCurrency hostNetwork path traversedNetworks dexSymbol network currency) := by
  apply faultsIn_bind
  · exact faultsIn_ensure _ _ _ fun hnot => absurd hnew hnot
  intro _ _
  apply faultsIn_bind
  · exact faultsIn_ensure _ _ _ fun _ => .inr rfl
  intro _ _
  cases path with
  | nil => exact absurd rfl hpath
  | cons channel path => exact faultsIn_pure _ _

theorem resolveNonHost_reported (ticker : K) (traversedNetworks : List N) (dexSymbol : Builder)
    (current : Currency N K) (network : N) (currency : K)
    (h : Traversing topology dexNetwork ticker traversedNetworks dexSymbol current) :
    FaultsIn Reported (resolveNonHostIbcCurrency spelling topology.networks topology.channels
      traversedNetworks dexSymbol network currency) := by
  apply faultsIn_bind
  · exact faultsIn_ensure _ _ _ fun _ => reported_error _
  intro _ _
  obtain ⟨further, hfrom⟩ := refers_from _ _ _ _ _ h.refers
  rw [hfrom, List.getLast?_cons]
  apply faultsIn_bind
  · exact faultsIn_ok _ _
  intro _ _
  apply faultsIn_bind
  · exact faultsIn_okOr _ _ _ (reported_error _)
  intro _ _
  apply faultsIn_bind
  · exact faultsIn_okOr _ _ _ (reported_error _)
  intro _ _
  exact faultsIn_pure _ _

theorem resolveDexSide_reported (hpath : path ≠ []) (ticker : K) (rounds : ℕ)
    (traversedNetworks : List N) (dexSymbol : Builder) (currency : Currency N K)
    (h : Traversing topology dexNetwork ticker traversedNetworks dexSymbol currency)
    (hrounds : (records topology.networks).length < rounds + traversedNetworks.length) :
    FaultsIn Reported
      (topology.resolveDexSide spelling path rounds traversedNetworks dexSymbol currency) := by
  induction rounds generalizing traversedNetworks dexSymbol currency with
  | zero =>
    have hle := traversed_length ticker traversedNetworks dexSymbol currency h
    omega
  | succ rounds ih =>
    cases currency with
    | native native => exact faultsIn_pure _ _
    | ibc network currency =>
      rw [Topology.resolveDexSide]
      split_ifs with hhost
      · exact resolveHost_reported hpath _ _ _ _ _ ((not_traversed _ _).2 (hhost ▸ h.notHost))
      · apply faultsIn_bind
        · exact resolveNonHost_reported ticker _ _ _ network currency h
        intro resolved hresolved
        obtain ⟨hlength, hnext⟩ := resolveNonHost_traversing spelling topology dexNetwork network
          ticker currency traversedNetworks dexSymbol resolved h hhost hresolved
        exact ih _ _ _ hnext (by omega)

theorem bank_reported (channels : Channels N String) (networks : List N) (bankSymbol : Builder) :
    FaultsIn Reported (foldBankSideInWindows channels bankSymbol networks) := by
  induction networks generalizing bankSymbol with
  | nil => exact faultsIn_pure _ _
  | cons source networks ih =>
    cases networks with
    | nil => exact faultsIn_pure _ _
    | cons remote networks =>
      apply faultsIn_bind
      · exact faultsIn_okOr _ _ _ (reported_error _)
      intro channelId _
      exact ih (bankSymbol.addChannel channelId)

theorem resolveCurrency_reported (hpath : path ≠ []) (hne : topology.hostNetwork.name ≠ dexNetwork)
    (hdex : topology.networks.lookup dexNetwork = some currencies) (ticker : K)
    (currency : Currency N K) (hcurrency : currencies.lookup ticker = some currency) :
    FaultsIn Reported (topology.resolveCurrency spelling dexNetwork path ticker currency) := by
  have hstart := traversing_start hne hdex ticker currency hcurrency
  apply faultsIn_bind
  · exact resolveDexSide_reported hpath ticker _ _ _ _ hstart (by simp)
  intro resolved _
  apply faultsIn_bind
  · exact bank_reported _ _ _
  intro _ _
  exact faultsIn_pure _ _

omit [LinearOrder N] in
theorem defineCurrency_reported (found : Option CurrencyDefinition × List CurrencyDefinition)
    (locality : HostLocality) :
    FaultsIn Reported (defineCurrency found locality : Outcome (Error N) _) := by
  cases locality with
  | local_ definition =>
    apply faultsIn_bind
    · exact faultsIn_ensure _ _ _ fun _ => reported_error _
    intro _ _
    exact faultsIn_pure _ _
  | remote definition => exact faultsIn_pure _ _

theorem definitions_reported (hpath : path ≠ []) (hne : topology.hostNetwork.name ≠ dexNetwork)
    (hdex : topology.networks.lookup dexNetwork = some currencies)
    (l : List (K × Currency N K)) (hl : ∀ c ∈ l, currencies.lookup c.1 = some c.2)
    (found : Option CurrencyDefinition × List CurrencyDefinition) :
    FaultsIn Reported (l.foldlM (fun found currency => do
      let locality ← topology.resolveCurrency spelling dexNetwork path currency.1 currency.2
      defineCurrency found locality) found) := by
  induction l generalizing found with
  | nil => exact faultsIn_pure _ _
  | cons currency l ih =>
    rw [List.forall_mem_cons] at hl
    rw [List.foldlM_cons]
    apply faultsIn_bind
    · apply faultsIn_bind
      · exact resolveCurrency_reported hpath hne hdex currency.1 currency.2 hl.1
      intro locality _
      exact defineCurrency_reported found locality
    intro next _
    exact ih hl.2 next

end Resolving

/-! ## The definitions of a dex -/

def sampleSpelling : Spelling ℕ where
  text := fun id => ["NLS", "OSMO", "ATOM", "unls", "uosmo", "uatom"].getD id ""
  digest := id

def sampleTopology : Topology (Fin 5) ℕ where
  hostNetwork := ⟨0, 0, ⟨3, 6⟩⟩
  networks := sampleStore [
    (1, sampleStore [(0, .ibc 0 0), (1, .native ⟨4, 6⟩), (2, .ibc 2 2)]),
    (2, sampleStore [(2, .native ⟨5, 6⟩)])]
  channels := sampleStore [(0, sampleStore [(1, "channel-0")]),
    (1, sampleStore [(0, "channel-8"), (2, "channel-4")])]

theorem sample_topology_paired : Paired sampleTopology.channels 0 1 :=
  paired_beside _ 0 1 (by decide) (by decide)

def sampleDefinitions : CurrencyDefinitions where
  hostCurrency := ⟨"NLS", ⟨"unls", "unls"⟩,
    ⟨"transfer/channel-8/unls", "ibc/transfer/channel-8/unls"⟩, 6⟩
  dexCurrencies := [
    ⟨"OSMO", ⟨"transfer/channel-0/uosmo", "ibc/transfer/channel-0/uosmo"⟩,
      ⟨"uosmo", "uosmo"⟩, 6⟩,
    ⟨"ATOM", ⟨"transfer/channel-0/transfer/channel-4/uatom",
        "ibc/transfer/channel-0/transfer/channel-4/uatom"⟩,
      ⟨"transfer/channel-4/uatom", "ibc/transfer/channel-4/uatom"⟩, 6⟩]

theorem sample_defined :
    sampleTopology.currencyDefinitions sampleSpelling 1 = .ok sampleDefinitions := by
  rfl

/-- Every currency of a dex gets one definition, which follows it from the dex on. The bank symbol of
the one followed to the host is its own, the one of any other is made of the channels of a walk from
the host to the dex and of those on to the network the currency is native to. -/
theorem symbols_follow_walks (spelling : Spelling K) (topology : Topology N K) (dexNetwork : N)
    (definitions : CurrencyDefinitions) (hne : topology.hostNetwork.name ≠ dexNetwork)
    (h : topology.currencyDefinitions spelling dexNetwork = .ok definitions) :
    ∃ currencies path before ticker after, topology.networks.lookup dexNetwork = some currencies ∧
      findPath topology.channels topology.hostNetwork.name dexNetwork = .ok path ∧
      Walk topology.channels topology.hostNetwork.name dexNetwork path ∧
      (records currencies).map Prod.fst = before ++ ticker :: after ∧
      OfHost spelling topology dexNetwork path ticker definitions.hostCurrency ∧
      List.Forall₂ (Follows spelling topology dexNetwork path) (before ++ after)
        definitions.dexCurrencies := by
  obtain ⟨currencies, hcurrencies, h⟩ := (bind_ok _ _ _).1 h
  obtain ⟨path, hpath, h⟩ := (bind_ok _ _ _).1 h
  obtain ⟨⟨host, dexCurrencies⟩, hfound, h⟩ := (bind_ok _ _ _).1 h
  obtain ⟨hostCurrency, hhost, h⟩ := (bind_ok _ _ _).1 h
  obtain rfl := (pure_ok _ _).1 h
  obtain rfl : host = some hostCurrency := (okOr_ok _ _ _).1 hhost
  have hdex := (okOr_ok _ _ _).1 hcurrencies
  have hdefined := definitions_defined hne hdex (records currencies)
    (fun currency hin => (mem_records _ _ _).1 hin) [] (none, []) _ List.Forall₂.nil hfound
  obtain ⟨before, ticker, after, htickers, hofHost, hdefinitions⟩ := hdefined
  exact ⟨currencies, path, before, ticker, after, hdex, hpath, findPath_walks _ _ _ path hpath,
    htickers, hofHost, hdefinitions⟩

theorem symbols_follow_walks_sample :
    ∃ currencies path before ticker after, sampleTopology.networks.lookup 1 = some currencies ∧
      findPath sampleTopology.channels 0 1 = .ok path ∧ Walk sampleTopology.channels 0 1 path ∧
      (records currencies).map Prod.fst = before ++ ticker :: after ∧
      OfHost sampleSpelling sampleTopology 1 path ticker sampleDefinitions.hostCurrency ∧
      List.Forall₂ (Follows sampleSpelling sampleTopology 1 path) (before ++ after)
        sampleDefinitions.dexCurrencies :=
  symbols_follow_walks sampleSpelling sampleTopology 1 sampleDefinitions (by decide) sample_defined

/-- The resolution of the currencies ends, and comes upon no state it takes for unreachable. Only a
currency of the host under another name makes it panic. -/
theorem resolution_ends (spelling : Spelling K) (topology : Topology N K) (dexNetwork : N)
    (fault : Fault (Error N))
    (hpaired : Paired topology.channels topology.hostNetwork.name dexNetwork)
    (hne : topology.hostNetwork.name ≠ dexNetwork)
    (h : topology.currencyDefinitions spelling dexNetwork = .error fault) :
    (∃ reason, fault = .error reason) ∨ fault = .panic hostCurrencyMismatch := by
  have hreported : FaultsIn Reported (topology.currencyDefinitions spelling dexNetwork) := by
    apply faultsIn_bind
    · exact faultsIn_okOr _ _ _ (reported_error _)
    intro currencies hcurrencies
    have hdex := (okOr_ok _ _ _).1 hcurrencies
    apply faultsIn_bind
    · rcases findPath_found topology.channels topology.hostNetwork.name dexNetwork hpaired hne with
        ⟨path, hpath, -⟩ | ⟨hnone, -⟩
      · rw [hpath]
        exact faultsIn_ok _ _
      · rw [hnone]
        exact faultsIn_error _ _ (reported_error _)
    intro path hpath
    have hwalk := findPath_walks topology.channels topology.hostNetwork.name dexNetwork path hpath
    have hleaves := walk_leaves _ _ _ _ hwalk hne
    apply faultsIn_bind
    · exact definitions_reported hleaves hne hdex (records currencies)
        (fun currency hin => (mem_records _ _ _).1 hin) (none, [])
    intro found _
    apply faultsIn_bind
    · exact faultsIn_okOr _ _ _ (reported_error _)
    intro hostCurrency _
    exact faultsIn_pure _ _
  exact hreported fault h

def sampleMismatch : Topology (Fin 5) ℕ :=
  { sampleTopology with hostNetwork := ⟨0, 9, ⟨3, 6⟩⟩ }

theorem resolution_ends_sample :
    (∃ reason, (Fault.panic hostCurrencyMismatch : Fault (Error (Fin 5))) = .error reason) ∨
      (Fault.panic hostCurrencyMismatch : Fault (Error (Fin 5))) = .panic hostCurrencyMismatch :=
  resolution_ends sampleSpelling sampleMismatch 1 _ sample_topology_paired (by decide) (by rfl)

end Nolus.Topologies
