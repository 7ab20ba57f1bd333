import NolusMoneyMarket.Base.Fallible
import NolusMoneyMarket.Base.Frontier
import NolusMoneyMarket.Base.KeyedRange

/-! # The path from the host to a dex

The topology knows the networks a network has channels to. The bank symbol of a
currency of a dex is made of the channels of a path from the host. The path is
searched breadth first among the networks, unless the dex is next to the host. -/

set_option autoImplicit false

namespace Nolus.Topologies
open Nolus.Fallible Nolus.KeyedStore Nolus.Search

variable {N C : Type} [LinearOrder N]

inductive ResolveError (N : Type)
  | networksNotConnected (source remote : N)
  | cycleCreated
  | noSuchNetwork (network : N)
  | noSuchCurrency (currency : String)
deriving DecidableEq, Repr

inductive Error (N : Type)
  | nonExistentDexNetwork
  | hostNotConnectedToDex
  | resolveCurrency (reason : ResolveError N)
  | hostCurrencyAlreadyDefined
  | hostCurrencyNotDefined
deriving DecidableEq, Repr

abbrev ConnectedNetworks (N C : Type) := Store N C

abbrev Channels (N C : Type) := Store N (ConnectedNetworks N C)

structure Channel (C : Type) where
  channelId : C
  counterpartChannelId : C
deriving DecidableEq, Repr

structure Path (N C : Type) where
  network : N
  connectedNetworks : ConnectedNetworks N C
  walkedChannels : List (Channel C)

def counterpartShouldBeFilledIn : Panic :=
  .assertion "Inverse channel endpoint should be filled in during channels processing!"

def walkTo (channels : Channels N C) (network : N) (walkedChannels : List (Channel C))
    (endpoint : N × C) : Outcome (Error N) (Path N C) := do
  let connectedNetworks ← expect (channels.lookup endpoint.1) counterpartShouldBeFilledIn
  let counterpartChannelId ←
    expect (connectedNetworks.lookup network) counterpartShouldBeFilledIn
  pure ⟨endpoint.1, connectedNetworks,
    walkedChannels ++ [⟨endpoint.2, counterpartChannelId⟩]⟩

def endpointOf (channels : Channels N C) (network next : N) : Option C :=
  (channels.lookup network).bind fun connectedNetworks => connectedNetworks.lookup next

def directHostToDexPath (channels : Channels N C) (hostNetwork dexNetwork : N) :
    Outcome (Error N) (Option (List (Channel C))) :=
  match endpointOf channels hostNetwork dexNetwork with
  | none => pure none
  | some channelId => do
    let path ← walkTo channels hostNetwork [] (dexNetwork, channelId)
    pure (some path.walkedChannels)

def initialHostToDexPaths (channels : Channels N C) (hostNetwork : N) :
    Outcome (Error N) (List (Path N C)) := do
  let connectedNetworks ← okOr (channels.lookup hostNetwork) .hostNotConnectedToDex
  (records connectedNetworks).mapM (walkTo channels hostNetwork [])

/-- Goes through the endpoints that lead to new networks. It stops at the dex, and what it has not
gone through by then is not read any more. -/
def explorePathBreadthFirst (channels : Channels N C) (dexNetwork : N) (path : Path N C) :
    List (N × C) → List (Path N C) →
      Outcome (Error N) (Option (List (Channel C)) × List (Path N C))
  | [], discovered => pure (none, discovered)
  | endpoint :: endpoints, discovered => do
    let further ← walkTo channels path.network path.walkedChannels endpoint
    if endpoint.1 = dexNetwork then pure (some further.walkedChannels, discovered)
    else explorePathBreadthFirst channels dexNetwork path endpoints (discovered ++ [further])

def alreadyTraversed (traversed : List N) (network : N) : Bool := decide (network ∈ traversed)

def newNetworks (traversed : List N) (path : Path N C) : List (N × C) :=
  (records path.connectedNetworks).filter fun endpoint => !alreadyTraversed traversed endpoint.1

def explorePaths (channels : Channels N C) (dexNetwork : N) :
    ℕ → List N → List (Path N C) → Outcome (Error N) (List (Channel C))
  | 0, _, _ => panicking (.assertion "more rounds than paths")
  | _ + 1, _, [] => failing .hostNotConnectedToDex
  | rounds + 1, traversed, path :: pathsToExplore => do
    let endpoints := newNetworks traversed path
    let explored ← explorePathBreadthFirst channels dexNetwork path endpoints []
    match explored with
    | (some found, _) => pure found
    | (none, discovered) =>
      explorePaths channels dexNetwork rounds (endpoints.map Prod.fst ++ traversed)
        (pathsToExplore ++ discovered)

def indirectHostToDexPath (channels : Channels N C) (hostNetwork dexNetwork : N) :
    Outcome (Error N) (List (Channel C)) := do
  let pathsToExplore ← initialHostToDexPaths channels hostNetwork
  explorePaths channels dexNetwork (pathsToExplore.length + (records channels).length + 1)
    [hostNetwork] pathsToExplore

def findPath (channels : Channels N C) (hostNetwork dexNetwork : N) :
    Outcome (Error N) (List (Channel C)) := do
  let direct ← directHostToDexPath channels hostNetwork dexNetwork
  match direct with
  | some path => pure path
  | none => indirectHostToDexPath channels hostNetwork dexNetwork

/-! ## Walks -/

/-- A walk from a network crosses channels by both their endpoints. -/
inductive Walk (channels : Channels N C) (start : N) : N → List (Channel C) → Prop
  | start : Walk channels start start []
  | next (network next : N) (walked : List (Channel C)) (channel : Channel C)
      (h : Walk channels start network walked)
      (hthere : endpointOf channels network next = some channel.channelId)
      (hback : endpointOf channels next network = some channel.counterpartChannelId) :
      Walk channels start next (walked ++ [channel])

def Linked (channels : Channels N C) (network next : N) : Prop :=
  (endpointOf channels network next).isSome = true

instance (channels : Channels N C) (network next : N) : Decidable (Linked channels network next) :=
  inferInstanceAs (Decidable (_ = _))

/-- Every channel of a network that is nearer to the host than the dex is known at its other end
as well. What the search does not reach may be known at one end only. -/
def Paired (channels : Channels N C) (host dex : N) : Prop :=
  ∀ n network, Steps (Linked channels) host n network →
    (∀ m, Steps (Linked channels) host m dex → n < m) →
    ∀ next, Linked channels network next → Linked channels next network

theorem host_paired (channels : Channels N C) (host dex : N) (h : Paired channels host dex)
    (hne : host ≠ dex) (next : N) (hlinked : Linked channels host next) :
    Linked channels next host := by
  refine h 0 host .start (fun m hsteps => ?_) next hlinked
  cases hsteps with
  | start => exact absurd rfl hne
  | next m a => exact Nat.succ_pos m

theorem paired_beside (channels : Channels N C) (host dex : N) (hdex : Linked channels host dex)
    (h : ∀ next, Linked channels host next → Linked channels next host) :
    Paired channels host dex := by
  intro n network hsteps hnearer next hlinked
  have hn : n < 1 := hnearer 1 (.next 0 host dex .start hdex)
  obtain rfl : n = 0 := Nat.lt_one_iff.1 hn
  cases hsteps
  exact h next hlinked

theorem walk_steps (channels : Channels N C) (start network : N) (walked : List (Channel C))
    (h : Walk channels start network walked) :
    Steps (Linked channels) start walked.length network := by
  induction h with
  | start => exact .start
  | next network next walked channel _ hthere _ ih =>
    rw [List.length_append, List.length_singleton]
    exact .next _ network next ih (by rw [Linked, hthere]; rfl)

structure Walked (channels : Channels N C) (start : N) (length : ℕ) (path : Path N C) : Prop where
  walk : Walk channels start path.network path.walkedChannels
  connected : channels.lookup path.network = some path.connectedNetworks
  length : path.walkedChannels.length = length

theorem endpoint_there (channels : Channels N C) (start : N) (length : ℕ) (path : Path N C)
    (h : Walked channels start length path) (next : N) :
    endpointOf channels path.network next = path.connectedNetworks.lookup next := by
  rw [endpointOf, h.connected]
  rfl

theorem walkTo_walks (channels : Channels N C) (start network : N)
    (walkedChannels : List (Channel C)) (endpoint : N × C) (path : Path N C)
    (hwalk : Walk channels start network walkedChannels)
    (hthere : endpointOf channels network endpoint.1 = some endpoint.2)
    (h : walkTo channels network walkedChannels endpoint = .ok path) :
    path.network = endpoint.1 ∧ Walked channels start (walkedChannels.length + 1) path := by
  simp only [walkTo, bind_ok, expect_ok, pure_ok] at h
  obtain ⟨connectedNetworks, hconnected, counterpartChannelId, hlookup, rfl⟩ := h
  have hback : endpointOf channels endpoint.1 network = some counterpartChannelId := by
    rw [endpointOf, hconnected]
    exact hlookup
  exact ⟨rfl, .next network endpoint.1 walkedChannels _ hwalk hthere hback, hconnected,
    List.length_append⟩

theorem walkTo_walked (channels : Channels N C) (start network : N)
    (walkedChannels : List (Channel C)) (endpoint : N × C)
    (hwalk : Walk channels start network walkedChannels)
    (hthere : endpointOf channels network endpoint.1 = some endpoint.2)
    (hback : Linked channels endpoint.1 network) :
    ∃ path, walkTo channels network walkedChannels endpoint = .ok path ∧
      path.network = endpoint.1 ∧
      Walked channels start (walkedChannels.length + 1) path := by
  obtain ⟨counterpartChannelId, hcounterpart⟩ := Option.isSome_iff_exists.1 hback
  obtain ⟨connectedNetworks, hconnected, hlookup⟩ := Option.bind_eq_some_iff.1 hcounterpart
  have hok : walkTo channels network walkedChannels endpoint = .ok ⟨endpoint.1, connectedNetworks,
      walkedChannels ++ [⟨endpoint.2, counterpartChannelId⟩]⟩ := by
    simp only [walkTo, bind_ok, expect_ok, pure_ok]
    exact ⟨connectedNetworks, hconnected, counterpartChannelId, hlookup, rfl⟩
  exact ⟨_, hok, walkTo_walks channels start network walkedChannels endpoint _ hwalk hthere hok⟩

theorem initial_walked (channels : Channels N C) (host : N)
    (hpaired : ∀ next, Linked channels host next → Linked channels next host)
    (endpoints : List (N × C))
    (h : ∀ endpoint ∈ endpoints, endpointOf channels host endpoint.1 = some endpoint.2) :
    ∃ paths, endpoints.mapM (walkTo channels host []) = .ok paths ∧
      paths.map Path.network = endpoints.map Prod.fst ∧
      ∀ path ∈ paths, Walked channels host 1 path := by
  induction endpoints with
  | nil => exact ⟨[], rfl, rfl, fun _ hin => absurd hin List.not_mem_nil⟩
  | cons endpoint endpoints ih =>
    rw [List.forall_mem_cons] at h
    obtain ⟨path, hpath, hnetwork, hwalked⟩ :=
      walkTo_walked channels host host [] endpoint .start h.1
        (hpaired endpoint.1 (by rw [Linked, h.1]; rfl))
    obtain ⟨paths, hpaths, hnetworks, hall⟩ := ih h.2
    refine ⟨path :: paths, ?_, ?_, ?_⟩
    · simp only [List.mapM_cons, bind_ok, pure_ok]
      exact ⟨path, hpath, paths, hpaths, rfl⟩
    · rw [List.map_cons, List.map_cons, hnetwork, hnetworks]
    · exact List.forall_mem_cons.2 ⟨hwalked, hall⟩

/-- The networks next to the last one of a path either have the dex among them, or are all
discovered. -/
theorem explore_walked (channels : Channels N C) (host dex : N)
    (length : ℕ) (path : Path N C) (hpath : Walked channels host length path)
    (hpaired : ∀ next, Linked channels path.network next → Linked channels next path.network)
    (endpoints : List (N × C)) (discovered : List (Path N C))
    (h : ∀ endpoint ∈ endpoints, path.connectedNetworks.lookup endpoint.1 = some endpoint.2) :
    (∃ found rest,
      explorePathBreadthFirst channels dex path endpoints discovered = .ok (some found, rest) ∧
        Walk channels host dex found ∧ found.length = length + 1) ∨
      (dex ∉ endpoints.map Prod.fst ∧ ∃ further,
        explorePathBreadthFirst channels dex path endpoints discovered =
          .ok (none, discovered ++ further) ∧
        further.map Path.network = endpoints.map Prod.fst ∧
        ∀ path ∈ further, Walked channels host (length + 1) path) := by
  induction endpoints generalizing discovered with
  | nil =>
    refine .inr ⟨List.not_mem_nil, [], ?_, rfl, fun _ hin => absurd hin List.not_mem_nil⟩
    rw [List.append_nil]
    rfl
  | cons endpoint endpoints ih =>
    rw [List.forall_mem_cons] at h
    have hthere : endpointOf channels path.network endpoint.1 = some endpoint.2 := by
      rw [endpoint_there channels host length path hpath]
      exact h.1
    obtain ⟨further, hfurther, hnetwork, hwalked⟩ := walkTo_walked channels host
      path.network path.walkedChannels endpoint hpath.walk hthere
      (hpaired endpoint.1 (by rw [Linked, hthere]; rfl))
    rw [hpath.length] at hwalked
    by_cases hdex : endpoint.1 = dex
    · refine .inl ⟨further.walkedChannels, discovered, ?_, ?_, hwalked.length⟩
      · simp only [explorePathBreadthFirst, bind_ok]
        exact ⟨further, hfurther, by rw [if_pos hdex]; rfl⟩
      · rw [← hdex, ← hnetwork]
        exact hwalked.walk
    · have hon : explorePathBreadthFirst channels dex path (endpoint :: endpoints) discovered =
          explorePathBreadthFirst channels dex path endpoints (discovered ++ [further]) := by
        rw [explorePathBreadthFirst, hfurther]
        exact if_neg hdex
      rw [hon]
      rcases ih (discovered ++ [further]) h.2 with hfound | ⟨hnot, rest, hexplored, hnetworks, hall⟩
      · exact .inl hfound
      · refine .inr ⟨?_, further :: rest, ?_, ?_, ?_⟩
        · rw [List.map_cons, List.mem_cons, not_or]
          exact ⟨fun heq => hdex heq.symm, hnot⟩
        · rw [hexplored, List.append_assoc]
          rfl
        · rw [List.map_cons, List.map_cons, hnetwork, hnetworks]
        · exact List.forall_mem_cons.2 ⟨hwalked, hall⟩

/-! ## What is found -/

theorem initial_walks (channels : Channels N C) (host : N) (endpoints : List (N × C))
    (paths : List (Path N C))
    (hthere : ∀ endpoint ∈ endpoints, endpointOf channels host endpoint.1 = some endpoint.2)
    (h : endpoints.mapM (walkTo channels host []) = .ok paths) :
    ∀ path ∈ paths, Walked channels host 1 path := by
  induction endpoints generalizing paths with
  | nil =>
    rw [← (pure_ok _ _).1 h]
    exact fun _ hin => absurd hin List.not_mem_nil
  | cons endpoint endpoints ih =>
    rw [List.forall_mem_cons] at hthere
    simp only [List.mapM_cons, bind_ok, pure_ok] at h
    obtain ⟨path, hpath, rest, hrest, rfl⟩ := h
    exact List.forall_mem_cons.2
      ⟨(walkTo_walks channels host host [] endpoint path .start hthere.1 hpath).2,
        ih rest hthere.2 hrest⟩

theorem explore_walks (channels : Channels N C) (host dex : N) (length : ℕ) (path : Path N C)
    (hpath : Walked channels host length path) (endpoints : List (N × C))
    (discovered : List (Path N C)) (explored : Option (List (Channel C)) × List (Path N C))
    (hthere : ∀ endpoint ∈ endpoints, endpointOf channels path.network endpoint.1 = some endpoint.2)
    (hdiscovered : ∀ path ∈ discovered, ∃ n, Walked channels host n path)
    (h : explorePathBreadthFirst channels dex path endpoints discovered = .ok explored) :
    (∀ found ∈ explored.1, Walk channels host dex found) ∧
      ∀ path ∈ explored.2, ∃ n, Walked channels host n path := by
  induction endpoints generalizing discovered with
  | nil =>
    rw [← (pure_ok _ _).1 h]
    exact ⟨fun _ hin => (by cases hin), hdiscovered⟩
  | cons endpoint endpoints ih =>
    rw [List.forall_mem_cons] at hthere
    obtain ⟨further, hfurther, h⟩ := (bind_ok _ _ _).1 h
    obtain ⟨hnetwork, hwalked⟩ := walkTo_walks channels host path.network path.walkedChannels
      endpoint further hpath.walk hthere.1 hfurther
    split_ifs at h with hdex
    · rw [← (pure_ok _ _).1 h]
      refine ⟨fun found hin => ?_, hdiscovered⟩
      rw [← Option.some.inj hin, ← hdex, ← hnetwork]
      exact hwalked.walk
    · refine ih (discovered ++ [further]) hthere.2 (fun other hin => ?_) h
      rcases List.mem_append.1 hin with hold | hnew
      · exact hdiscovered other hold
      · rw [List.mem_singleton.1 hnew]
        exact ⟨_, hwalked⟩

theorem explorePaths_walks (channels : Channels N C) (host dex : N) (rounds : ℕ)
    (traversed : List N) (paths : List (Path N C)) (found : List (Channel C))
    (hpaths : ∀ path ∈ paths, ∃ n, Walked channels host n path)
    (h : explorePaths channels dex rounds traversed paths = .ok found) :
    Walk channels host dex found := by
  induction rounds generalizing traversed paths with
  | zero => exact absurd h (panicking_ok _ _)
  | succ rounds ih =>
    cases paths with
    | nil => exact absurd h (failing_ok _ _)
    | cons path paths =>
      rw [List.forall_mem_cons] at hpaths
      obtain ⟨⟨length, hpath⟩, hrest⟩ := hpaths
      obtain ⟨⟨explored, discovered⟩, hexplored, h⟩ := (bind_ok _ _ _).1 h
      have hthere : ∀ endpoint ∈ newNetworks traversed path,
          endpointOf channels path.network endpoint.1 = some endpoint.2 := by
        intro endpoint hin
        rw [endpoint_there channels host length path hpath]
        exact (mem_records _ _ _).1 (List.mem_filter.1 hin).1
      obtain ⟨hfound, hdiscovered⟩ := explore_walks channels host dex length path hpath _ [] _ hthere
        (fun _ hin => absurd hin List.not_mem_nil) hexplored
      cases explored with
      | some walked =>
        rw [← (pure_ok _ _).1 h]
        exact hfound walked rfl
      | none =>
        refine ih _ (paths ++ discovered) (fun other hin => ?_) h
        rcases List.mem_append.1 hin with hold | hnew
        · exact hrest other hold
        · exact hdiscovered other hnew

/-- A path that is found is a walk, whatever is known of the channels elsewhere. -/
theorem findPath_walks (channels : Channels N C) (host dex : N) (path : List (Channel C))
    (h : findPath channels host dex = .ok path) : Walk channels host dex path := by
  obtain ⟨direct, hdirect, h⟩ := (bind_ok _ _ _).1 h
  rw [directHostToDexPath] at hdirect
  cases hthere : endpointOf channels host dex with
  | some channelId =>
    rw [hthere] at hdirect
    obtain ⟨walked, hwalked, hpure⟩ := (bind_ok _ _ _).1 hdirect
    obtain rfl := (pure_ok _ _).1 hpure
    obtain rfl := (pure_ok _ _).1 h
    obtain ⟨hnetwork, hdex⟩ :=
      walkTo_walks channels host host [] (dex, channelId) walked .start hthere hwalked
    rw [← show walked.network = dex from hnetwork]
    exact hdex.walk
  | none =>
    rw [hthere] at hdirect
    obtain rfl := (pure_ok _ _).1 hdirect
    simp only [indirectHostToDexPath, initialHostToDexPaths, bind_ok, okOr_ok] at h
    obtain ⟨paths, ⟨connectedNetworks, hconnected, hinitial⟩, h⟩ := h
    refine explorePaths_walks channels host dex _ _ paths path (fun other hin => ?_) h
    refine ⟨1, initial_walks channels host (records connectedNetworks) paths
      (fun endpoint hendpoint => ?_) hinitial other hin⟩
    rw [endpointOf, hconnected]
    exact (mem_records _ _ _).1 hendpoint

/-! ## The search -/

def untraversed (channels : Channels N C) (traversed : List N) : ℕ :=
  (((records channels).map Prod.fst).toFinset \ traversed.toFinset).card

structure Searching (channels : Channels N C) (host dex : N) (level : ℕ)
    (expanded traversed : List N) (near far : List (Path N C)) : Prop where
  frontier : Frontier (Linked channels) host level expanded traversed (near.map Path.network)
    (far.map Path.network)
  nearWalked : ∀ path ∈ near, Walked channels host level path
  farWalked : ∀ path ∈ far, Walked channels host (level + 1) path
  started : host ∈ expanded
  unexpanded : dex ∉ expanded
  notNear : dex ∉ near.map Path.network
  notFar : dex ∉ far.map Path.network

theorem searching_further (channels : Channels N C) (host dex : N) (level : ℕ)
    (expanded traversed : List N) (far : List (Path N C))
    (h : Searching channels host dex level expanded traversed [] far) :
    Searching channels host dex (level + 1) expanded traversed far [] where
  frontier := frontier_further h.frontier
  nearWalked := h.farWalked
  farWalked := fun _ hin => absurd hin List.not_mem_nil
  started := h.started
  unexpanded := h.unexpanded
  notNear := h.notFar
  notFar := List.not_mem_nil

theorem not_traversed (traversed : List N) (network : N) :
    alreadyTraversed traversed network = false ↔ network ∉ traversed :=
  decide_eq_false_iff_not

theorem new_endpoint (traversed : List N) (path : Path N C) (endpoint : N × C) :
    endpoint ∈ newNetworks traversed path ↔
      path.connectedNetworks.lookup endpoint.1 = some endpoint.2 ∧ endpoint.1 ∉ traversed := by
  rw [newNetworks, List.mem_filter, mem_records, Bool.not_eq_true', not_traversed]

/-- Each new network is come upon for the first time. -/
theorem untraversed_new (channels : Channels N C) (host : N)
    (level : ℕ) (traversed : List N) (path : Path N C) (hpath : Walked channels host level path)
    (hpaired : ∀ next, Linked channels path.network next → Linked channels next path.network) :
    untraversed channels ((newNetworks traversed path).map Prod.fst ++ traversed) +
      (newNetworks traversed path).length = untraversed channels traversed := by
  set fresh := (newNetworks traversed path).map Prod.fst with hfresh
  have hnodup : fresh.Nodup :=
    (record_keys_nodup path.connectedNetworks).sublist (List.filter_sublist.map Prod.fst)
  have hsub : fresh.toFinset ⊆
      ((records channels).map Prod.fst).toFinset \ traversed.toFinset := by
    intro next hin
    obtain ⟨endpoint, hendpoint, rfl⟩ := List.mem_map.1 (List.mem_toFinset.1 hin)
    obtain ⟨hlookup, hnew⟩ := (new_endpoint traversed path endpoint).1 hendpoint
    rw [Finset.mem_sdiff, List.mem_toFinset, List.mem_toFinset]
    refine ⟨?_, hnew⟩
    have hback := hpaired endpoint.1
      (by rw [Linked, endpoint_there channels host level path hpath, hlookup]; rfl)
    obtain ⟨_, hcounterpart⟩ := Option.isSome_iff_exists.1 hback
    obtain ⟨connected, hconnected, -⟩ := Option.bind_eq_some_iff.1 hcounterpart
    exact List.mem_map.2 ⟨(endpoint.1, connected), (mem_records _ _ _).2 hconnected, rfl⟩
  have hleft : ((records channels).map Prod.fst).toFinset \ (fresh ++ traversed).toFinset =
      (((records channels).map Prod.fst).toFinset \ traversed.toFinset) \ fresh.toFinset := by
    rw [List.toFinset_append, Finset.union_comm]
    exact sdiff_sdiff_left.symm
  have hcard := Finset.card_sdiff_add_card_eq_card hsub
  rw [List.toFinset_card_of_nodup hnodup, hfresh, List.length_map, ← hfresh] at hcard
  rw [untraversed, untraversed, hleft]
  exact hcard

theorem searching_paired (channels : Channels N C) (host dex : N) (hpaired : Paired channels host dex)
    (level : ℕ) (expanded traversed : List N) (path : Path N C) (near far : List (Path N C))
    (h : Searching channels host dex level expanded traversed (path :: near) far) :
    ∀ next, Linked channels path.network next → Linked channels next path.network := by
  have hpath := h.nearWalked path List.mem_cons_self
  have hsteps := walk_steps channels host path.network path.walkedChannels hpath.walk
  rw [hpath.length] at hsteps
  exact hpaired level path.network hsteps fun m hdex =>
    frontier_beyond h.frontier m dex h.unexpanded h.notNear hdex

/-- A round either comes upon the dex, by a shortest walk, or goes on with one path less and the
new ones. -/
theorem searching_explore (channels : Channels N C) (host dex : N) (hpaired : Paired channels host dex)
    (level : ℕ) (expanded traversed : List N) (path : Path N C) (near far : List (Path N C))
    (h : Searching channels host dex level expanded traversed (path :: near) far) :
    (∃ found rest,
      explorePathBreadthFirst channels dex path (newNetworks traversed path) [] =
        .ok (some found, rest) ∧ Walk channels host dex found ∧
        ∀ n, Steps (Linked channels) host n dex → found.length ≤ n) ∨
      ∃ discovered,
        explorePathBreadthFirst channels dex path (newNetworks traversed path) [] =
          .ok (none, discovered) ∧ discovered.length = (newNetworks traversed path).length ∧
        Searching channels host dex level (path.network :: expanded)
          ((newNetworks traversed path).map Prod.fst ++ traversed) near (far ++ discovered) := by
  have hpath := h.nearWalked path List.mem_cons_self
  rcases explore_walked channels host dex level path hpath
    (searching_paired channels host dex hpaired level _ _ path near far h)
    (newNetworks traversed path) []
    (fun endpoint hin => ((new_endpoint traversed path endpoint).1 hin).1) with
    ⟨found, rest, hexplored, hwalk, hlength⟩ | ⟨hnot, discovered, hexplored, hnetworks, hall⟩
  · refine .inl ⟨found, rest, hexplored, hwalk, ?_⟩
    intro n hsteps
    rw [hlength]
    exact frontier_beyond h.frontier n dex h.unexpanded h.notNear hsteps
  · refine .inr ⟨discovered, hexplored, ?_, ?_⟩
    · rw [← List.length_map (f := Path.network), hnetworks, List.length_map]
    · have hnear := h.notNear
      rw [List.map_cons, List.mem_cons, not_or] at hnear
      constructor
      · rw [List.map_append, hnetworks]
        refine frontier_expand path.network _ ?_ h.frontier
        intro next hlinked
        rw [Linked, endpoint_there channels host level path hpath] at hlinked
        obtain ⟨channelId, hlookup⟩ := Option.isSome_iff_exists.1 hlinked
        by_cases hseen : next ∈ traversed
        · exact .inl hseen
        · exact .inr (List.mem_map.2 ⟨(next, channelId),
            (new_endpoint traversed path (next, channelId)).2 ⟨hlookup, hseen⟩, rfl⟩)
      · exact fun other hin => h.nearWalked other (List.mem_cons_of_mem path hin)
      · intro other hin
        rcases List.mem_append.1 hin with hold | hnew
        · exact h.farWalked other hold
        · exact hall other hnew
      · exact List.mem_cons_of_mem path.network h.started
      · rw [List.mem_cons, not_or]
        exact ⟨hnear.1, h.unexpanded⟩
      · exact hnear.2
      · rw [List.map_append, hnetworks, List.mem_append, not_or]
        exact ⟨h.notFar, hnot⟩

/-- The path found is a walk no longer than any other; when none is found, there is none. -/
def Found (channels : Channels N C) (host dex : N) (x : Outcome (Error N) (List (Channel C))) :
    Prop :=
  (∃ path, x = .ok path ∧ Walk channels host dex path ∧
    ∀ n, Steps (Linked channels) host n dex → path.length ≤ n) ∨
  (x = failing .hostNotConnectedToDex ∧ ∀ n, ¬ Steps (Linked channels) host n dex)

theorem explorePaths_found (channels : Channels N C) (host dex : N)
    (hpaired : Paired channels host dex) (rounds : ℕ) :
    ∀ (level : ℕ) (expanded traversed : List N) (near far : List (Path N C)),
      Searching channels host dex level expanded traversed near far →
      near.length + far.length + untraversed channels traversed < rounds →
      Found channels host dex (explorePaths channels dex rounds traversed (near ++ far)) := by
  induction rounds with
  | zero => intro _ _ _ _ _ _ hrounds; omega
  | succ rounds ih =>
    intro level expanded traversed near far h hrounds
    -- whatever level the first path is of
    have hround : ∀ level path near far,
        Searching channels host dex level expanded traversed (path :: near) far →
        near.length + 1 + far.length + untraversed channels traversed < rounds + 1 →
        Found channels host dex
          (explorePaths channels dex (rounds + 1) traversed (path :: near ++ far)) := by
      intro level path near far h hrounds
      rcases searching_explore channels host dex hpaired level expanded traversed path near far h
        with ⟨found, rest, hexplored, hwalk, hshortest⟩ | ⟨discovered, hexplored, hlength, hnext⟩
      · refine .inl ⟨found, ?_, hwalk, hshortest⟩
        rw [List.cons_append, explorePaths, hexplored]
        rfl
      · have hon : explorePaths channels dex (rounds + 1) traversed (path :: near ++ far) =
            explorePaths channels dex rounds
              ((newNetworks traversed path).map Prod.fst ++ traversed)
              (near ++ (far ++ discovered)) := by
          rw [List.cons_append, explorePaths, hexplored, ← List.append_assoc]
          rfl
        have hpath := h.nearWalked path List.mem_cons_self
        have hnew := untraversed_new channels host level traversed path hpath
          (searching_paired channels host dex hpaired level _ _ path near far h)
        rw [hon]
        apply ih level _ _ _ _ hnext
        rw [List.length_append, hlength]
        omega
    cases near with
    | cons path near => exact hround level path near far h hrounds
    | nil =>
      cases far with
      | cons path far =>
        have hfound := hround (level + 1) path far [] (searching_further _ _ _ _ _ _ _ h)
          (by simpa using hrounds)
        rwa [List.append_nil] at hfound
      | nil =>
        refine .inr ⟨rfl, ?_⟩
        intro n hsteps
        exact h.unexpanded (frontier_exhausted h.started h.frontier n dex hsteps)

theorem indirect_found (channels : Channels N C) (host dex : N) (hpaired : Paired channels host dex)
    (hne : host ≠ dex) (hdirect : endpointOf channels host dex = none) :
    Found channels host dex (indirectHostToDexPath channels host dex) := by
  cases hconnected : channels.lookup host with
  | none =>
    have hexploring : indirectHostToDexPath channels host dex = failing .hostNotConnectedToDex := by
      rw [indirectHostToDexPath, initialHostToDexPaths, hconnected]
      rfl
    have hnowhere : ∀ next, Linked channels host next → next ∈ ([] : List N) := by
      intro next hlinked
      rw [Linked, endpointOf, hconnected] at hlinked
      cases hlinked
    refine .inr ⟨hexploring, ?_⟩
    intro n hsteps
    have hin := frontier_exhausted List.mem_cons_self
      (frontier_further (frontier_start hnowhere)) n dex hsteps
    exact hne (List.mem_singleton.1 hin).symm
  | some connectedNetworks =>
    have hthere : ∀ next, endpointOf channels host next = connectedNetworks.lookup next := by
      intro next
      rw [endpointOf, hconnected]
      rfl
    obtain ⟨paths, hpaths, hnetworks, hall⟩ := initial_walked channels host
      (host_paired channels host dex hpaired hne) (records connectedNetworks) (fun endpoint hin => by
        rw [hthere]
        exact (mem_records _ _ _).1 hin)
    have hexploring : indirectHostToDexPath channels host dex =
        explorePaths channels dex (paths.length + (records channels).length + 1) [host]
          (paths ++ []) := by
      have hinitial : initialHostToDexPaths channels host = .ok paths := by
        rw [initialHostToDexPaths, hconnected]
        exact hpaths
      rw [indirectHostToDexPath, hinitial, List.append_nil]
      rfl
    have hsearching : Searching channels host dex 1 [host] [host] paths [] := by
      constructor
      · rw [hnetworks]
        apply frontier_start
        intro next hlinked
        rw [Linked, hthere] at hlinked
        obtain ⟨channelId, hlookup⟩ := Option.isSome_iff_exists.1 hlinked
        exact List.mem_map.2 ⟨(next, channelId), (mem_records _ _ _).2 hlookup, rfl⟩
      · exact hall
      · exact fun _ hin => absurd hin List.not_mem_nil
      · exact List.mem_cons_self
      · exact fun hin => hne (List.mem_singleton.1 hin).symm
      · rw [hnetworks]
        intro hin
        obtain ⟨endpoint, hendpoint, rfl⟩ := List.mem_map.1 hin
        rw [hthere, (mem_records _ _ _).1 hendpoint] at hdirect
        cases hdirect
      · exact List.not_mem_nil
    have hleft : untraversed channels [host] ≤ (records channels).length := by
      refine (Finset.card_le_card Finset.sdiff_subset).trans ?_
      simpa using List.toFinset_card_le ((records channels).map Prod.fst)
    rw [hexploring]
    apply explorePaths_found channels host dex hpaired _ 1 _ _ _ _ hsearching
    rw [List.length_nil]
    omega

theorem direct_found (channels : Channels N C) (host dex : N) (hpaired : Paired channels host dex)
    (hne : host ≠ dex) (channelId : C) (hdirect : endpointOf channels host dex = some channelId) :
    Found channels host dex (findPath channels host dex) := by
  obtain ⟨path, hpath, hnetwork, hwalked⟩ :=
    walkTo_walked channels host host [] (dex, channelId) .start hdirect
      (host_paired channels host dex hpaired hne dex (by rw [Linked, hdirect]; rfl))
  refine .inl ⟨path.walkedChannels, ?_, ?_, ?_⟩
  · simp only [findPath, directHostToDexPath, hdirect, hpath]
    rfl
  · rw [← show path.network = dex from hnetwork]
    exact hwalked.walk
  · intro n hsteps
    rw [hwalked.length]
    cases hsteps with
    | start => exact absurd rfl hne
    | next n a => exact Nat.succ_le_succ (Nat.zero_le n)

theorem findPath_found (channels : Channels N C) (host dex : N) (hpaired : Paired channels host dex)
    (hne : host ≠ dex) : Found channels host dex (findPath channels host dex) := by
  cases hdirect : endpointOf channels host dex with
  | some channelId => exact direct_found channels host dex hpaired hne channelId hdirect
  | none =>
    have hon : findPath channels host dex = indirectHostToDexPath channels host dex := by
      simp only [findPath, directHostToDexPath, hdirect]
      rfl
    rw [hon]
    exact indirect_found channels host dex hpaired hne hdirect

/-- The path to a dex is a shortest walk from the host, and the dex is said to be not connected just
when there is no walk. No search runs out of rounds or comes upon a missing endpoint. -/
theorem findPath_shortest (channels : Channels N C) (host dex : N) (hpaired : Paired channels host dex)
    (hne : host ≠ dex) :
    (∃ path, findPath channels host dex = .ok path ∧ Walk channels host dex path ∧
      ∀ other, Walk channels host dex other → path.length ≤ other.length) ∨
    (findPath channels host dex = failing .hostNotConnectedToDex ∧
      ∀ other, ¬ Walk channels host dex other) := by
  have hfound := findPath_found channels host dex hpaired hne
  rcases hfound with ⟨path, hpath, hwalk, hshortest⟩ | ⟨hnone, hno⟩
  · exact .inl ⟨path, hpath, hwalk, fun other hother =>
      hshortest _ (walk_steps channels host dex other hother)⟩
  · exact .inr ⟨hnone, fun other hother => hno _ (walk_steps channels host dex other hother)⟩

def sampleStore {κ α : Type} [DecidableEq κ] (entries : List (κ × α)) : Store κ α :=
  entries.foldr (fun entry s => s.insert entry.1 entry.2) ∅

def sampleChannels : Channels (Fin 6) ℕ :=
  sampleStore [(0, sampleStore [(1, 10), (2, 20)]), (1, sampleStore [(0, 11), (3, 13)]),
    (2, sampleStore [(0, 22), (3, 23)]), (3, sampleStore [(1, 31), (2, 32), (4, 34)])]

theorem sample_paired : Paired sampleChannels 0 3 := by
  have hdex : Steps (Linked sampleChannels) 0 2 3 :=
    .next 1 1 3 (.next 0 0 1 .start (by decide)) (by decide)
  have hnear : ∀ network, network = 0 ∨ Linked sampleChannels 0 network →
      ∀ next, Linked sampleChannels network next → Linked sampleChannels next network := by
    decide
  intro n network hsteps hnearer
  have hn := hnearer 2 hdex
  apply hnear
  cases hsteps with
  | start => exact .inl rfl
  | next n a _ hsteps hlinked =>
    obtain rfl : n = 0 := by omega
    cases hsteps
    exact .inr hlinked

theorem findPath_shortest_sample :
    findPath sampleChannels 0 3 = .ok [⟨10, 11⟩, ⟨13, 31⟩] ∧
    ((∃ path, findPath sampleChannels 0 3 = .ok path ∧ Walk sampleChannels 0 3 path ∧
      ∀ other, Walk sampleChannels 0 3 other → path.length ≤ other.length) ∨
    (findPath sampleChannels 0 3 = failing .hostNotConnectedToDex ∧
      ∀ other, ¬ Walk sampleChannels 0 3 other)) :=
  ⟨by rfl, findPath_shortest sampleChannels 0 3 sample_paired (by decide)⟩

end Nolus.Topologies
