import NolusMoneyMarket.Dex.Coins
import NolusMoneyMarket.Dex.Moves
import NolusMoneyMarket.Dex.Swap

/-! # Every coin is accounted for

A swap task transfers its coins out one after another. The states of both kinds
of swap go through the same phases: the coin at the index is under way until a
response comes for it, then the next one is sent or, after the last, all are
swapped. Along every run the executed transfers are the first coins of the task,
in their order and once each. -/

set_option autoImplicit false

namespace Nolus.Transfers
open Nolus.Fallible Nolus.Runs Nolus.Requests Nolus.SwapTasks Nolus.SwapMoves Nolus.Swapping
  Nolus.SwapCoins

variable {Currency Data Msg S : Type}

def isTransferOut : Request Currency → Bool
  | .transferOut _ _ => true
  | _ => false

def transfers (requests : List (Request Currency)) : List (Request Currency) :=
  requests.filter isTransferOut

def outs (task : SwapTask Currency) : List (Request Currency) :=
  task.coins.mapIdx fun coinIndex coin => .transferOut coinIndex coin

/-- A coin is being sent, or has been sent with the response to be delivered. -/
inductive Phase (task : SwapTask Currency)
  | opening
  | sending (inner : TransferOut task)
  | sent (inner : TransferOut task)
  | swapping
  | past

variable {task : SwapTask Currency}

/-- How many responses to transfers there have been. -/
def responded : Phase task → ℕ
  | .opening => 0
  | .sending inner => inner.coinIndex
  | .sent inner => inner.coinIndex + 1
  | .swapping => task.coins.length
  | .past => task.coins.length

inductive Leads [DecidableEq Currency] (task : SwapTask Currency) :
    Phase task → Input Data → List (Request Currency) → Phase task → Prop
  | opening (input : Input Data) : Leads task .opening input [] .opening
  | opened (input : Input Data) :
      Leads task .opening input [(TransferOut.new task).request] (.sending (TransferOut.new task))
  | response (inner : TransferOut task) (data : Data) :
      Leads task (.sending inner) (.response data) [] (.sent inner)
  | again (inner : TransferOut task) (input : Input Data) : Retries input →
      Leads task (.sending inner) input [inner.request] (.sending inner)
  | reply (inner : TransferOut task) : Leads task (.sent inner) .reply [] (.sent inner)
  | next (inner : TransferOut task) (h : ¬ inner.lastCoin) (input : Input Data) :
      Delivers input →
      Leads task (.sent inner) input [(inner.next h).request] (.sending (inner.next h))
  | swap (inner : TransferOut task) (input : Input Data) : inner.lastCoin → Delivers input →
      Leads task (.sent inner) input [task.swapRequest] .swapping
  | swapAgain (input : Input Data) : Leads task .swapping input [task.swapRequest] .swapping
  | swapped (input : Input Data) : Leads task .swapping input [] .past
  | past (input : Input Data) (requests : List (Request Currency)) : transfers requests = [] →
      Leads task .past input requests .past

/-- What is handled leads from one phase to another, or the swap is over. -/
structure Sound [DecidableEq Currency] (phase : S → Phase task) (handle : Handler Currency Data S) :
    Prop where
  leads : ∀ env s input messages next, handle env s input = .ok (.continue_ messages next) →
    Leads task (phase s) input (requested messages) (phase next)
  finishes : ∀ env s input amountOut, handle env s input = .ok (.finished amountOut) →
    phase s = .past
  responds : ∀ env s data inner, phase s = .sending inner →
    ∃ next, handle env s (.response data) = forwardToInner next

/-- What is handled while coins are transferred out, in an environment that builds a request if the
visitors come up with its messages. -/
structure Handles [DecidableEq Currency] {M : Type} (phase : S → Phase task)
    (handle : Handler Currency Data S) (send : CoinDTO Currency → Outcome DexError M)
    (swapExactIn : CoinDTO Currency → Currency → Outcome DexError M) : Prop where
  response : ∀ env s inner data, phase s = .sending inner →
    ∃ next, phase next = .sent inner ∧
      handle env s (.response data) = .ok (.continue_ [.forwardToInner] next)
  again : ∀ env s inner input, Builds env task send swapExactIn → phase s = .sending inner →
    Retries input →
    ((∃ result, handle env s input = .ok result) ↔
      ∃ sent, transferOutEnterState env send inner = .ok sent)
  next : ∀ env s inner (h : ¬ inner.lastCoin) input, Builds env task send swapExactIn →
    phase s = .sent inner → Delivers input →
    ((∃ result, handle env s input = .ok result) ↔
      ∃ sent, transferOutEnterState env send (inner.next h) = .ok sent)
  swap : ∀ env s inner input, inner.lastCoin → Builds env task send swapExactIn →
    phase s = .sent inner → Delivers input →
    ((∃ result, handle env s input = .ok result) ↔
      ∃ trx, swapExactInEnterState task swapExactIn = .ok trx)

theorem entered (messages : Outcome DexError (List (Message Currency)))
    (request : Request Currency) (next : S)
    (h : ∀ submitted, messages = .ok submitted → submitted = [.request request]) :
    (∃ result, enterNext messages next = .ok result) ↔ messages = .ok [.request request] := by
  cases messages with
  | error e => simp [enterNext, bind, Except.bind]
  | ok submitted =>
    obtain rfl := h submitted rfl
    exact iff_of_true ⟨_, rfl⟩ rfl

section Entering

variable [DecidableEq Currency] {M : Type} {env : Env Currency}
  {send : CoinDTO Currency → Outcome DexError M}
  {swapExactIn : CoinDTO Currency → Currency → Outcome DexError M}

theorem transfer_entered (h : Builds env task send swapExactIn) (inner : TransferOut task)
    (into : TransferOut task → S) :
    (∃ result, inner.enter env into = .ok result) ↔
      ∃ sent, transferOutEnterState env send inner = .ok sent := by
  have hrequest : ∀ submitted, submitTransfer env inner.request = .ok submitted →
      submitted = [.request inner.request] :=
    fun submitted hs => ((submitTransfer_ok _ _ _).1 hs).2.2
  rw [← transfer_out_submitted h inner]
  exact entered _ _ (into inner) hrequest

theorem next_entered (h : Builds env task send swapExactIn) (inner : TransferOut task)
    (hnext : ¬ inner.lastCoin) (into : TransferOut task → S) (swapped : S) :
    (∃ result, inner.onResponse env into swapped = .ok result) ↔
      ∃ sent, transferOutEnterState env send (inner.next hnext) = .ok sent := by
  rw [TransferOut.onResponse, dif_neg hnext]
  exact transfer_entered h (inner.next hnext) into

theorem swap_entered (h : Builds env task send swapExactIn) (inner : TransferOut task)
    (hlast : inner.lastCoin) (into : TransferOut task → S) (swapped : S) :
    (∃ result, inner.onResponse env into swapped = .ok result) ↔
      ∃ trx, swapExactInEnterState task swapExactIn = .ok trx := by
  have hrequest : ∀ submitted, submit env task.swapRequest = .ok submitted →
      submitted = [.request task.swapRequest] := fun submitted hs => ((submit_ok _ _ _).1 hs).2
  rw [TransferOut.onResponse, dif_pos hlast, ← swap_submitted h]
  exact entered _ _ swapped hrequest

end Entering

/-- The states of a swap pass what they handle on to the transfer of the coin at the index. -/
structure PassesOn [DecidableEq Currency] (phase : S → Phase task) (handle : Handler Currency Data S)
    (sending : TransferOut task → S) (swapping : S) : Prop where
  response : ∀ env s inner data, phase s = .sending inner →
    ∃ next, phase next = .sent inner ∧
      handle env s (.response data) = .ok (.continue_ [.forwardToInner] next)
  retried : ∀ env s inner input, phase s = .sending inner → Retries input →
    handle env s input = inner.enter env sending
  delivered : ∀ env s inner input, phase s = .sent inner → Delivers input →
    handle env s input = inner.onResponse env sending swapping

theorem passesOn_handles [DecidableEq Currency] {M : Type} {phase : S → Phase task}
    {handle : Handler Currency Data S} {sending : TransferOut task → S} {swapping : S}
    (h : PassesOn phase handle sending swapping) (send : CoinDTO Currency → Outcome DexError M)
    (swapExactIn : CoinDTO Currency → Currency → Outcome DexError M) :
    Handles phase handle send swapExactIn where
  response := h.response
  again env s inner input hbuilds hs hretries := by
    rw [h.retried env s inner input hs hretries]
    exact transfer_entered hbuilds inner sending
  next env s inner hnext input hbuilds hs hdelivers := by
    rw [h.delivered env s inner input hs hdelivers]
    exact next_entered hbuilds inner hnext sending swapping
  swap env s inner input hlast hbuilds hs hdelivers := by
    rw [h.delivered env s inner input hs hdelivers]
    exact swap_entered hbuilds inner hlast sending swapping

namespace Local

open OutLocal

def phase : State Data task → Phase task
  | .transferOut inner => .sending inner
  | .transferOutRespDelivery handler _ => .sent handler
  | .swapExactIn => .swapping
  | _ => .past

theorem polls_past (s : State Data task) (input : Input Data) (amountIn : CoinDTO Currency)
    (h : SwapMoves.Local.Polls s input amountIn) : phase s = .past := by
  cases h <;> rfl

variable [DecidableEq Currency]

theorem moves_lead (s next : State Data task) (input : Input Data)
    (messages : List (Message Currency)) (h : SwapMoves.Local.Moves s input messages next) :
    Leads task (phase s) input (requested messages) (phase next) := by
  cases h with
  | transferOutResponse inner data => exact .response inner data
  | swapResponse data => exact .swapped _
  | transferInResponse inner data => exact .past _ _ rfl
  | transferOutAgain inner _ hretries => exact .again inner _ hretries
  | swapAgain => exact .swapAgain _
  | transferInAgain inner => exact .past _ _ rfl
  | reply _ forr hstored =>
    cases s with
    | transferOutRespDelivery handler response => exact .reply handler
    | swapExactInRespDelivery response => exact .past _ _ rfl
    | transferInInitRespDelivery handler response => exact .past _ _ rfl
    | _ => cases hstored
  | nextCoin handler response hnext _ hdelivers => exact .next handler hnext _ hdelivers
  | swap handler response _ hlast hdelivers => exact .swap handler _ hlast hdelivers
  | swapped response amountOut => exact .past _ _ rfl
  | sentAgain _ _ amountIn hpolls =>
    rw [polls_past s input amountIn hpolls]
    exact .past _ _ rfl
  | polled _ _ amountIn timeout forr hpolls =>
    rw [polls_past s input amountIn hpolls]
    exact .past _ _ rfl

theorem sound (client : SwapClient Data Msg) (task : SwapTask Currency) :
    Sound (phase : State Data task → Phase task) (State.handle client) where
  leads env s input messages next h :=
    moves_lead s next input messages (SwapMoves.Local.handle_arrives client env s input _ h)
  finishes env s input amountOut h :=
    polls_past s input amountOut (SwapMoves.Local.handle_arrives client env s input _ h)
  responds env s data inner hs := by
    cases s with
    | transferOut inner => exact ⟨_, rfl⟩
    | _ => cases hs

theorem passes_on (client : SwapClient Data Msg) (task : SwapTask Currency) :
    PassesOn (phase : State Data task → Phase task) (State.handle client) .transferOut
      .swapExactIn where
  response env s inner data hs := by
    cases s with
    | transferOut inner =>
      cases hs
      exact ⟨.transferOutRespDelivery inner data, rfl, rfl⟩
    | _ => cases hs
  retried env s inner input hs hretries := by
    cases s with
    | transferOut inner =>
      cases hs
      rcases hretries with rfl | rfl
      · rfl
      · rfl
    | _ => cases hs
  delivered env s inner input hs hdelivers := by
    cases s with
    | transferOutRespDelivery handler response =>
      cases hs
      rcases hdelivers with rfl | rfl
      · rfl
      · rfl
    | _ => cases hs

end Local

namespace Remote

open OutRemote

def phase : State Data task → Phase task
  | .openIca => .opening
  | .openIcaRespDelivery _ => .opening
  | .transferOut inner => .sending inner
  | .transferOutRespDelivery handler _ => .sent handler
  | .swapExactIn => .swapping
  | .swapExactInRespDelivery _ => .past

variable [DecidableEq Currency]

theorem moves_lead (s next : State Data task) (input : Input Data)
    (messages : List (Message Currency)) (h : SwapMoves.Remote.Moves s input messages next) :
    Leads task (phase s) input (requested messages) (phase next) := by
  cases h with
  | icaResponse version => exact .opening _
  | transferOutResponse inner data => exact .response inner data
  | swapResponse data => exact .swapped _
  | transferOutAgain inner _ hretries => exact .again inner _ hretries
  | swapAgain => exact .swapAgain _
  | reply _ forr hstored =>
    cases s with
    | openIcaRespDelivery version => exact .opening _
    | transferOutRespDelivery handler response => exact .reply handler
    | swapExactInRespDelivery response => exact .past _ _ rfl
    | _ => cases hstored
  | opened version => exact .opened _
  | nextCoin handler response hnext _ hdelivers => exact .next handler hnext _ hdelivers
  | swap handler response _ hlast hdelivers => exact .swap handler _ hlast hdelivers

theorem sound (client : SwapClient Data Msg) (task : SwapTask Currency) :
    Sound (phase : State Data task → Phase task) (State.handle client) where
  leads env s input messages next h :=
    moves_lead s next input messages (SwapMoves.Remote.handle_arrives client env s input _ h)
  finishes env s input amountOut h := by
    obtain ⟨⟨response, rfl⟩, -⟩ := SwapMoves.Remote.handle_arrives client env s input _ h
    rfl
  responds env s data inner hs := by
    cases s with
    | transferOut inner => exact ⟨_, rfl⟩
    | _ => cases hs

theorem passes_on (client : SwapClient Data Msg) (task : SwapTask Currency) :
    PassesOn (phase : State Data task → Phase task) (State.handle client) .transferOut
      .swapExactIn where
  response env s inner data hs := by
    cases s with
    | transferOut inner =>
      cases hs
      exact ⟨.transferOutRespDelivery inner data, rfl, rfl⟩
    | _ => cases hs
  retried env s inner input hs hretries := by
    cases s with
    | transferOut inner =>
      cases hs
      rcases hretries with rfl | rfl
      · rfl
      · rfl
    | _ => cases hs
  delivered env s inner input hs hdelivers := by
    cases s with
    | transferOutRespDelivery handler response =>
      cases hs
      rcases hdelivers with rfl | rfl
      · rfl
      · rfl
    | _ => cases hs

end Remote

/-! ## Runs -/

theorem outs_length (task : SwapTask Currency) : (outs task).length = task.coins.length := by
  simp [outs]

theorem outs_take (inner : TransferOut task) :
    (outs task).take (inner.coinIndex + 1) =
      (outs task).take inner.coinIndex ++ [inner.request] := by
  have hlt : inner.coinIndex < (outs task).length := by
    rw [outs_length]
    exact inner.index_in_range
  rw [List.take_succ_eq_append_getElem hlt]
  simp [outs, TransferOut.request, TransferOut.coin]

/-- What may be unanswered but the opening of the account. -/
def Owed (s : S) : Phase task → S × Request Currency → Prop
  | .opening, _ => False
  | .sending inner, issued => issued = (s, inner.request)
  | .sent _, _ => False
  | .swapping, issued => isTransferOut issued.2 = false
  | .past, issued => isTransferOut issued.2 = false

abbrev Chain (S Currency : Type) := World S (Request Currency)

structure Accounted (phase : S → Phase task) (w : Chain S Currency) : Prop where
  executed : ∀ s, w.client = some s →
    transfers w.executed = (outs task).take (responded (phase s))
  unanswered : ∀ s, w.client = some s → ∀ issued ∈ w.unanswered,
    issued.2 = .registerIca ∨ Owed s (phase s) issued
  once : (transfers (w.unanswered.map Prod.snd)).length ≤ 1
  finished : w.client = none → transfers w.executed = outs task

theorem transfers_append (requests more : List (Request Currency)) :
    transfers (requests ++ more) = transfers requests ++ transfers more :=
  List.filter_append ..

theorem no_transfers (requests : List (Request Currency))
    (h : ∀ request ∈ requests, isTransferOut request = false) : transfers requests = [] :=
  List.filter_eq_nil_iff.2 fun request hr => by simp [h request hr]

theorem registered_unsent (request : Request Currency) (h : request = .registerIca) :
    isTransferOut request = false := by
  rw [h]
  rfl

section Leading

variable [DecidableEq Currency] {p q : Phase task} {input : Input Data}
  {submitted : List (Request Currency)}

theorem leads_responded (hl : Leads task p input submitted q) (hp : ∀ inner, p ≠ .sending inner) :
    responded q = responded p := by
  cases hl with
  | response inner data => exact absurd rfl (hp inner)
  | again inner => exact absurd rfl (hp inner)
  | swap inner _ hlast =>
    change task.coins.length = inner.coinIndex + 1
    rw [hlast, inner.last]
  | _ => rfl

theorem leads_kept (s next : S) (issued : S × Request Currency)
    (hl : Leads task p input submitted q) (hp : ∀ inner, p ≠ .sending inner)
    (howed : Owed s p issued) : Owed next q issued := by
  cases hl with
  | response inner data => exact absurd rfl (hp inner)
  | again inner => exact absurd rfl (hp inner)
  | swapAgain => exact howed
  | swapped => exact howed
  | past => exact howed
  | _ => exact howed.elim

theorem leads_owed (next : S) (request : Request Currency) (hl : Leads task p input submitted q)
    (hr : request ∈ submitted) : Owed next q (next, request) := by
  cases hl with
  | past _ _ hnone =>
    change isTransferOut request = false
    simpa using List.filter_eq_nil_iff.1 hnone request hr
  | opening => cases hr
  | response => cases hr
  | reply => cases hr
  | swapped => cases hr
  | _ =>
    rw [List.mem_singleton.1 hr]
    exact rfl

theorem leads_once (hl : Leads task p input submitted q) : (transfers submitted).length ≤ 1 := by
  cases hl with
  | past _ _ hnone =>
    rw [hnone]
    exact Nat.zero_le _
  | _ => exact (List.length_filter_le _ _).trans (by simp)

end Leading

section Steps

variable {phase : S → Phase task} {handle : Handler Currency Data S}

theorem unsent (w : Chain S Currency) (s : S) (h : Accounted phase w) (hs : w.client = some s)
    (hp : ∀ inner, phase s ≠ .sending inner) : transfers (w.unanswered.map Prod.snd) = [] := by
  apply no_transfers
  intro request hr
  obtain ⟨issued, hi, rfl⟩ := List.mem_map.1 hr
  rcases h.unanswered s hs issued hi with hregister | howed
  · exact registered_unsent _ hregister
  · cases hphase : phase s with
    | opening => simp [hphase, Owed] at howed
    | sending inner => exact absurd hphase (hp inner)
    | sent inner => simp [hphase, Owed] at howed
    | swapping => simpa [hphase, Owed] using howed
    | past => simpa [hphase, Owed] using howed

theorem moved_accounted (w : Chain S Currency) (next : S) (submitted : List (Request Currency))
    (hx : transfers w.executed = (outs task).take (responded (phase next)))
    (hold : ∀ issued ∈ w.unanswered, issued.2 = .registerIca ∨ Owed next (phase next) issued)
    (hnew : ∀ request ∈ submitted, Owed next (phase next) (next, request))
    (honce : (transfers (w.unanswered.map Prod.snd)).length + (transfers submitted).length ≤ 1) :
    Accounted phase (w.taken (.moved next submitted)) where
  executed s hs := by
    cases hs
    exact hx
  unanswered s hs issued hi := by
    cases hs
    rcases List.mem_append.1 hi with hi | hi
    · exact hold issued hi
    · obtain ⟨request, hr, rfl⟩ := List.mem_map.1 hi
      exact .inr (hnew request hr)
  once := by
    have hsubmitted : (submitted.map (next, ·)).map Prod.snd = submitted := by
      simp
    change (transfers ((w.unanswered ++ submitted.map (next, ·)).map Prod.snd)).length ≤ 1
    rw [List.map_append, hsubmitted, transfers_append, List.length_append]
    exact honce
  finished h := by cases h

theorem left_unanswered (before after : List (S × Request Currency))
    (issued : S × Request Currency) :
    transfers ((before ++ issued :: after).map Prod.snd) = transfers (before.map Prod.snd) ++
      (transfers [issued.2] ++ transfers (after.map Prod.snd)) := by
  rw [List.map_append, List.map_cons, transfers_append, ← List.singleton_append, transfers_append]

/-- The answer to something else than a transfer. -/
theorem other_answered (w : Chain S Currency) (issued : S × Request Currency)
    (before after : List (S × Request Currency)) (executes : Bool) (h : Accounted phase w)
    (hu : w.unanswered = before ++ issued :: after) (hother : isTransferOut issued.2 = false) :
    Accounted phase (w.answered (before ++ after) issued.2 executes) := by
  have hnone : transfers [issued.2] = [] := no_transfers _ (by simpa using hother)
  have hexecuted : transfers (w.answered (before ++ after) issued.2 executes).executed =
      transfers w.executed := by
    cases executes with
    | false => rfl
    | true =>
      change transfers (w.executed ++ [issued.2]) = _
      rw [transfers_append, hnone, List.append_nil]
  constructor
  · intro s hs
    rw [hexecuted]
    exact h.executed s hs
  · intro s hs other hm
    refine h.unanswered s hs other ?_
    rw [hu]
    rcases List.mem_append.1 hm with hm | hm
    · exact List.mem_append_left _ hm
    · exact List.mem_append_right _ (List.mem_cons_of_mem _ hm)
  · have honce := h.once
    rw [hu, left_unanswered, hnone, List.nil_append, ← transfers_append, ← List.map_append] at honce
    exact honce
  · intro hover
    rw [hexecuted]
    exact h.finished hover

/-- The transfer of the coin at the index is the only one there may be an answer to. -/
theorem transfer_answered (w : Chain S Currency) (s : S) (issued : S × Request Currency)
    (before after : List (S × Request Currency)) (h : Accounted phase w)
    (hs : w.client = some s) (hu : w.unanswered = before ++ issued :: after)
    (ht : isTransferOut issued.2 = true) :
    ∃ inner, phase s = .sending inner ∧ issued.2 = inner.request ∧
      (∀ other ∈ before ++ after, other.2 = .registerIca) ∧
      transfers ((before ++ after).map Prod.snd) = [] := by
  have hmem : issued ∈ w.unanswered := by
    rw [hu]
    simp
  have honce := h.once
  rw [hu, left_unanswered] at honce
  have hone : transfers [issued.2] = [issued.2] := by simp [transfers, ht]
  rw [hone] at honce
  simp only [List.length_append, List.length_singleton] at honce
  have hleft : transfers ((before ++ after).map Prod.snd) = [] := by
    rw [List.map_append, transfers_append]
    apply List.eq_nil_of_length_eq_zero
    rw [List.length_append]
    omega
  rcases h.unanswered s hs issued hmem with hregister | howed
  · rw [registered_unsent _ hregister] at ht
    cases ht
  · cases hp : phase s with
    | sending inner =>
      rw [hp] at howed
      obtain rfl : issued = (s, inner.request) := howed
      refine ⟨inner, rfl, rfl, fun other hm => ?_, hleft⟩
      have hother : other ∈ w.unanswered := by
        rw [hu]
        rcases List.mem_append.1 hm with hm | hm
        · exact List.mem_append_left _ hm
        · exact List.mem_append_right _ (List.mem_cons_of_mem _ hm)
      rcases h.unanswered s hs other hother with hregister | howed
      · exact hregister
      · rw [hp] at howed
        obtain rfl : other = (s, inner.request) := howed
        have hin : inner.request ∈ transfers ((before ++ after).map Prod.snd) :=
          List.mem_filter.2 ⟨List.mem_map.2 ⟨_, hm, rfl⟩, rfl⟩
        rw [hleft] at hin
        cases hin
    | opening => simp [hp, Owed] at howed
    | sent inner => simp [hp, Owed] at howed
    | swapping => simp [hp, Owed, ht] at howed
    | past => simp [hp, Owed, ht] at howed

theorem sending_registered (w : Chain S Currency) (s : S) (inner : TransferOut task)
    (issued : S × Request Currency) (h : Accounted phase w) (hs : w.client = some s)
    (hp : phase s = .sending inner) (hm : issued ∈ w.unanswered)
    (hother : isTransferOut issued.2 = false) : issued.2 = .registerIca := by
  rcases h.unanswered s hs issued hm with hregister | howed
  · exact hregister
  · rw [hp] at howed
    obtain rfl : issued = (s, inner.request) := howed
    cases hother

variable [DecidableEq Currency]

theorem led_accounted (w : Chain S Currency) (s next : S) (input : Input Data)
    (submitted : List (Request Currency)) (h : Accounted phase w) (hs : w.client = some s)
    (hin : ∀ inner, phase s ≠ .sending inner)
    (hl : Leads task (phase s) input submitted (phase next)) :
    Accounted phase (w.taken (.moved next submitted)) := by
  refine moved_accounted w next submitted ?_ (fun issued hi => ?_)
    (fun request hr => leads_owed next request hl hr) ?_
  · rw [leads_responded hl hin]
    exact h.executed s hs
  · exact (h.unanswered s hs issued hi).imp_right (leads_kept s next issued hl hin)
  · rw [unsent w s h hs hin]
    exact (Nat.zero_add _).trans_le (leads_once hl)

/-- What an event does: it is refused, which the response to a transfer is not, or it completes the
swap, or it leads from one phase to another. -/
def Follows (phase : S → Phase task) (w : Chain S Currency)
    (e : Event S (Env Currency × Input Data) (Request Currency)) (w' : Chain S Currency) : Prop :=
  ∃ s, w.client = some s ∧
    ((w'.client = some s ∧ e.submitted = [] ∧
        ∀ issued data, e.answered = some issued → e.input.2 = .response data →
          isTransferOut issued.2 = false) ∨
      (w'.client = none ∧ phase s = .past) ∨
      ∃ next, w'.client = some next ∧ Leads task (phase s) e.input.2 e.submitted (phase next))

/-- What a client takes: it refuses the input, is over, or goes on. -/
theorem taken_led (hsound : Sound phase handle) (s : S) (input : Env Currency × Input Data)
    (t : Taken S (Request Currency)) (ht : (contract handle).takes s input t) :
    t = .rejected ∨ (t = .done ∧ phase s = .past) ∨
      ∃ next submitted, t = .moved next submitted ∧
        Leads task (phase s) input.2 submitted (phase next) := by
  change outcome (handle input.1 s input.2) t at ht
  cases hx : handle input.1 s input.2 with
  | error e =>
    rw [hx] at ht
    exact .inl ht
  | ok result =>
    rw [hx] at ht
    cases result with
    | finished amountOut =>
      rcases ht with rfl | rfl
      · exact .inr (.inl ⟨rfl, hsound.finishes input.1 s input.2 amountOut hx⟩)
      · exact .inl rfl
    | continue_ messages next =>
      rcases ht with rfl | ⟨rfl, -⟩
      · exact .inr (.inr ⟨next, _, rfl, hsound.leads input.1 s input.2 messages next hx⟩)
      · exact .inl rfl

theorem taken_accounted (hsound : Sound phase handle) (w : Chain S Currency) (s : S)
    (input : Env Currency × Input Data) (t : Taken S (Request Currency)) (h : Accounted phase w)
    (hs : w.client = some s) (ht : (contract handle).takes s input t)
    (hin : ∀ inner, phase s = .sending inner → t = .rejected) : Accounted phase (w.taken t) := by
  rcases taken_led hsound s input t ht with rfl | ⟨rfl, hpast⟩ | ⟨next, submitted, rfl, hl⟩
  · exact h
  · have hx := h.executed s hs
    rw [hpast, responded, ← outs_length, List.take_length] at hx
    exact ⟨fun _ hnone => (by cases hnone), fun _ hnone => (by cases hnone), h.once, fun _ => hx⟩
  · refine led_accounted w s next input.2 submitted h hs (fun inner hp => ?_) hl
    cases hin inner hp

theorem taken_follows (hsound : Sound phase handle) (w w₁ : Chain S Currency) (s : S)
    (input : Env Currency × Input Data) (answered : Option (S × Request Currency))
    (t : Taken S (Request Currency)) (hs : w.client = some s) (hs₁ : w₁.client = some s)
    (ht : (contract handle).takes s input t)
    (hresponse : ∀ issued data, answered = some issued → input.2 = .response data →
      isTransferOut issued.2 = true → t ≠ .rejected) :
    Follows phase w ⟨input, answered, t.submitted⟩ (w₁.taken t) := by
  refine ⟨s, hs, ?_⟩
  rcases taken_led hsound s input t ht with rfl | ⟨rfl, hpast⟩ | ⟨next, submitted, rfl, hl⟩
  · refine .inl ⟨hs₁, rfl, fun issued data ha hi => ?_⟩
    by_contra htransfer
    exact hresponse issued data ha hi (by simpa using htransfer) rfl
  · exact .inr (.inl ⟨rfl, hpast⟩)
  · exact .inr (.inr ⟨next, rfl, hl⟩)

theorem response_taken (hsound : Sound phase handle) (s : S) (inner : TransferOut task)
    (env : Env Currency) (data : Data) (t : Taken S (Request Currency))
    (hp : phase s = .sending inner) (ht : (contract handle).takes s (env, .response data) t) :
    ∃ next, t = .moved next [] := by
  obtain ⟨next, hx⟩ := hsound.responds env s data inner hp
  change outcome (handle env s (.response data)) t at ht
  rw [hx] at ht
  exact ⟨next, forwarded_moves next t ht⟩

/-- The answer to the transfer of the coin at the index. -/
theorem sending_accounted (hsound : Sound phase handle) (w : Chain S Currency) (s : S)
    (inner : TransferOut task) (left : List (S × Request Currency))
    (input : Env Currency × Input Data) (t : Taken S (Request Currency)) (h : Accounted phase w)
    (hs : w.client = some s) (hp : phase s = .sending inner)
    (hleft : ∀ other ∈ left, other.2 = .registerIca)
    (hnone : transfers (left.map Prod.snd) = []) (ha : Answers input.2 inner.request)
    (ht : (contract handle).takes s input t) :
    Accounted phase ((w.answered left inner.request (executes input.2)).taken t) := by
  have hx := h.executed s hs
  rw [hp] at hx
  rcases taken_led hsound s input t ht with rfl | ⟨rfl, hpast⟩ | ⟨next, submitted, rfl, hl⟩
  · have hkept : executes input.2 = false := by
      obtain ⟨env, given⟩ := input
      cases given with
      | openIca version => cases ha
      | response data =>
        obtain ⟨next, hmoved⟩ := response_taken hsound s inner env data _ hp ht
        cases hmoved
      | _ => rfl
    rw [hkept]
    refine ⟨fun s' hs' => ?_, fun _ _ other hm => .inl (hleft other hm), ?_, h.finished⟩
    · obtain rfl := Option.some.inj (hs.symm.trans hs')
      rw [hp]
      exact hx
    · exact (congrArg List.length hnone).trans_le (Nat.zero_le _)
  · rw [hp] at hpast
    cases hpast
  · rw [hp] at hl
    refine moved_accounted _ next submitted ?_ (fun other hm => .inl (hleft other hm))
      (fun request hr => leads_owed next request hl hr) ?_
    · generalize phase next = q at hl
      generalize hinput : input.2 = given at hl
      cases hl with
      | response _ data =>
        change transfers (w.executed ++ [inner.request]) = _
        rw [transfers_append, hx]
        exact (outs_take inner).symm
      | again _ _ hretries =>
        have hkept : executes given = false := by
          rcases hretries with rfl | rfl <;> rfl
        rw [hkept]
        exact hx
    · change (transfers (left.map Prod.snd)).length + (transfers submitted).length ≤ 1
      rw [hnone]
      exact (Nat.zero_add _).trans_le (leads_once hl)

/-- While a coin is being sent nothing but the answer to its transfer is taken. -/
theorem sending_refuses (hsound : Sound phase handle) (s : S) (inner : TransferOut task)
    (env : Env Currency) (input : Input Data) (t : Taken S (Request Currency))
    (hp : phase s = .sending inner) (ht : (contract handle).takes s (env, input) t)
    (hresponse : ∀ data, input ≠ .response data) (hretries : ¬ Retries input) : t = .rejected := by
  rcases taken_led hsound s (env, input) t ht with rfl | ⟨-, hpast⟩ | ⟨next, submitted, rfl, hl⟩
  · rfl
  · rw [hp] at hpast
    cases hpast
  · rw [hp] at hl
    generalize phase next = q at hl
    cases hl with
    | response inner data => exact absurd rfl (hresponse data)
    | again inner given h => exact absurd h hretries

theorem step_accounted (hsound : Sound phase handle) (w w' : Chain S Currency)
    (e : Event S (Env Currency × Input Data) (Request Currency))
    (hstep : Step (contract handle) w e w') (h : Accounted phase w) :
    Accounted phase w' ∧ Follows phase w e w' := by
  cases hstep with
  | prompt s input t hs hp ht =>
    obtain ⟨env, given⟩ := input
    constructor
    · refine taken_accounted hsound w s _ t h hs ht fun inner hsending => ?_
      exact sending_refuses hsound s inner env given t hsending ht
        (fun _ he => by rw [he] at hp; exact hp)
        (fun hretries => by rcases hretries with rfl | rfl <;> exact hp)
    · exact taken_follows hsound w w s _ none t hs hs ht fun _ _ hnone => by cases hnone
  | answer s issued before after input t hs hu ha ht =>
    obtain ⟨env, given⟩ := input
    cases htransfer : isTransferOut issued.2 with
    | true =>
      obtain ⟨inner, hp, hrequest, hleft, hnone⟩ :=
        transfer_answered w s issued before after h hs hu htransfer
      rw [hrequest] at ha ⊢
      constructor
      · exact sending_accounted hsound w s inner (before ++ after) (env, given) t h hs hp hleft hnone
          ha ht
      · refine taken_follows hsound w _ s _ _ t hs hs ht fun _ data _ hresponse _ hrejected => ?_
        obtain rfl : given = .response data := hresponse
        obtain ⟨next, hmoved⟩ := response_taken hsound s inner env data t hp ht
        rw [hmoved] at hrejected
        cases hrejected
    | false =>
      have hanswered := other_answered w issued before after (executes given) h hu htransfer
      constructor
      · refine taken_accounted hsound _ s _ t hanswered hs ht fun inner hsending => ?_
        have hregister := sending_registered w s inner issued h hs hsending
          (by simp [hu]) htransfer
        rw [hregister] at ha
        exact sending_refuses hsound s inner env given t hsending ht
          (fun _ he => by rw [he] at ha; exact ha rfl)
          (fun hretries => by rcases hretries with rfl | rfl <;> exact ha rfl)
      · refine taken_follows hsound w _ s _ _ t hs hs ht fun other _ hother _ hsent => ?_
        obtain rfl := Option.some.inj hother
        rw [htransfer] at hsent
        cases hsent

/-- What is known of every run from the states, and of each of its further steps. -/
def Transferred (phase : S → Phase task) (handle : Handler Currency Data S)
    (starts : Chain S Currency) : Prop :=
  ∀ w, Reachable (Step (contract handle)) (· = starts) w →
    Accounted phase w ∧ ∀ e w', Step (contract handle) w e w' → Follows phase w e w'

theorem sound_transferred (hsound : Sound phase handle) (starts : Chain S Currency)
    (h : Accounted phase starts) : Transferred phase handle starts := by
  intro w hw
  have haccounted : Accounted phase w := by
    refine reachable_induction _ (Accounted phase) ?_ ?_ w hw
    · rintro _ rfl
      exact h
    · intro w e w' hstep hw
      exact (step_accounted hsound w w' e hstep hw).1
  exact ⟨haccounted, fun e w' hstep => (step_accounted hsound w w' e hstep haccounted).2⟩

end Steps

def localStart (Data : Type) (task : SwapTask Currency) :
    Chain (OutLocal.State Data task) Currency :=
  ⟨some (OutLocal.State.startLocalLocal Data task),
    [(OutLocal.State.startLocalLocal Data task, (TransferOut.new task).request)], []⟩

def remoteStart (Data : Type) (task : SwapTask Currency) :
    Chain (OutRemote.State Data task) Currency :=
  ⟨some (OutRemote.State.start Data task), [(OutRemote.State.start Data task, .registerIca)], []⟩

theorem local_started (Data : Type) (task : SwapTask Currency) :
    Accounted Local.phase (localStart Data task) where
  executed s hs := by
    cases hs
    rfl
  unanswered s hs issued hm := by
    cases hs
    obtain rfl := List.mem_singleton.1 hm
    exact .inr rfl
  once := Nat.le_refl _
  finished h := by cases h

theorem remote_started (Data : Type) (task : SwapTask Currency) :
    Accounted Remote.phase (remoteStart Data task) where
  executed s hs := by
    cases hs
    rfl
  unanswered s hs issued hm := by
    obtain rfl := List.mem_singleton.1 hm
    exact .inl rfl
  once := Nat.zero_le _
  finished h := by cases h

section Accounts

variable [DecidableEq Currency]

/-- What the visitors come up with: the last index, the one message of a transfer, and those of the
swap. -/
structure CoinsVisited (task : SwapTask Currency) : Prop where
  counted : lastCoinIndex task.coins = .ok (TransferOut.new task).lastCoinIndex
  indexed : ∀ (inner : TransferOut task) (h : ¬ inner.lastCoin),
    (nativeAdd coinsNbBits inner.coinIndex 1 : Outcome DexError ℕ) = .ok (inner.next h).coinIndex
  transferred : ∀ (M : Type) (env : Env Currency) (send : CoinDTO Currency → Outcome DexError M)
    (inner : TransferOut task) (sent : List M),
    transferOutEnterState env send inner = .ok sent ↔ env.now + ibcTimeout < 2 ^ timeBits ∧
      ∃ message, send inner.coin = .ok message ∧ sent = [message]
  swapped : ∀ (M : Type) (swapExactIn : CoinDTO Currency → Currency → Outcome DexError M)
    (trx : List M), swapExactInEnterState task swapExactIn = .ok trx ↔
      filteredSum task.outCurrency task.coins < 2 ^ amountBits ∧
        List.Forall₂ (fun coin message => swapExactIn coin task.outCurrency = .ok message)
          task.passed trx

/-- What the responses to a swap are decoded to. -/
structure ResponsesDecoded (decodeMsgResponses : Data → Option (List Msg))
    (parse : Msg → Option ℕ) (task : SwapTask Currency) (data : Data) (responses : List Msg) :
    Prop where
  sum : ∀ amounts, Parses parse task.passed.length responses amounts →
    filteredSum task.outCurrency task.coins + amounts.sum < 2 ^ amountBits →
    decodeResponseVisiting (exactAmountIn decodeMsgResponses parse) task data =
      .ok ⟨task.outCurrency, filteredSum task.outCurrency task.coins + amounts.sum⟩
  overflow : ∀ amounts, Parses parse task.passed.length responses amounts →
    2 ^ amountBits ≤ filteredSum task.outCurrency task.coins + amounts.sum →
    ∃ message, decodeResponseVisiting (exactAmountIn decodeMsgResponses parse) task data =
      .error (.panic (.overflow message))
  unparsed : (∀ amounts, ¬ Parses parse task.passed.length responses amounts) →
    ∀ decoded, decodeResponseVisiting (exactAmountIn decodeMsgResponses parse) task data ≠
      .ok decoded
  fewer : responses.length < task.passed.length →
    ∀ decoded, decodeResponseVisiting (exactAmountIn decodeMsgResponses parse) task data ≠
      .ok decoded

theorem coins_visited (task : SwapTask Currency) : CoinsVisited task where
  counted := (last_coin_index _ _).2 ⟨(TransferOut.new task).last, task.few_coins⟩
  indexed inner h := by
    have hlast := (inner.next h).in_range
    have hlength := (inner.next h).last
    have hfew := task.few_coins
    refine (nativeAdd_ok _ _ _ _).2 ⟨?_, rfl⟩
    change inner.coinIndex + 1 < 2 ^ 8
    change inner.coinIndex + 1 ≤ (inner.next h).lastCoinIndex at hlast
    omega
  transferred _ env send inner sent := transfer_out_entered env send inner sent
  swapped _ swapExactIn trx := swap_exact_in_entered task swapExactIn trx

theorem responses_decoded (decodeMsgResponses : Data → Option (List Msg))
    (parse : Msg → Option ℕ) (task : SwapTask Currency) (data : Data) (responses : List Msg)
    (hd : decodeMsgResponses data = some responses) :
    ResponsesDecoded decodeMsgResponses parse task data responses := by
  have hunparsed := decode_fails decodeMsgResponses parse task data responses hd
  constructor
  · intro amounts hparses hfits
    exact (decoded_sum _ _ _ _ _).2 ⟨responses, amounts, hd, hparses, hfits, rfl⟩
  · intro amounts hparses hlarge
    rcases decode_evaluates decodeMsgResponses parse task data responses amounts hd hparses with
      hok | hpanics
    · obtain ⟨other, parsed, -, -, hfits, hsum⟩ := (decoded_sum _ _ _ _ _).1 hok
      have hequal := congrArg CoinDTO.amount hsum
      simp only at hequal
      omega
    · exact hpanics
  · exact hunparsed
  · intro hfew
    refine hunparsed fun amounts hparses => ?_
    have henough := parses_enough _ _ _ _ hparses
    omega

/-- Every coin of a swap task is transferred out in its turn, swapped if it has to be, and the
responses are attributed to the coins they are for. -/
theorem coins_accounted (decodeMsgResponses : Data → Option (List Msg)) (parse : Msg → Option ℕ)
    (task : SwapTask Currency) :
    Transferred Local.phase (OutLocal.State.handle (exactAmountIn decodeMsgResponses parse))
        (localStart Data task) ∧
      Transferred Remote.phase (OutRemote.State.handle (exactAmountIn decodeMsgResponses parse))
        (remoteStart Data task) ∧
      (∀ (M : Type) (send : CoinDTO Currency → Outcome DexError M)
          (swapExactIn : CoinDTO Currency → Currency → Outcome DexError M),
        Handles (Local.phase : OutLocal.State Data task → Phase task)
            (OutLocal.State.handle (exactAmountIn decodeMsgResponses parse)) send swapExactIn ∧
          Handles (Remote.phase : OutRemote.State Data task → Phase task)
            (OutRemote.State.handle (exactAmountIn decodeMsgResponses parse)) send swapExactIn) ∧
      CoinsVisited task ∧
      ∀ data responses, decodeMsgResponses data = some responses →
        ResponsesDecoded decodeMsgResponses parse task data responses := by
  refine ⟨?_, ?_, fun M send swapExactIn => ⟨?_, ?_⟩, coins_visited task,
    responses_decoded decodeMsgResponses parse task⟩
  · exact sound_transferred (Local.sound _ task) _ (local_started Data task)
  · exact sound_transferred (Remote.sound _ task) _ (remote_started Data task)
  · exact passesOn_handles (Local.passes_on _ task) send swapExactIn
  · exact passesOn_handles (Remote.passes_on _ task) send swapExactIn

end Accounts

def fullTask : SwapTask ℕ where
  coins := [⟨0, 2 ^ 128 - 1⟩, ⟨1, 100⟩]
  outCurrency := 0
  some_coins := by simp
  few_coins := by simp

/-- A single unit swapped for is one too many next to a coin of the greatest amount. -/
theorem full_task_overflows :
    ¬ ∀ (task : SwapTask ℕ) (decodeMsgResponses : List ℕ → Option (List ℕ))
        (parse : ℕ → Option ℕ) (data responses amounts : List ℕ), task.passed ≠ [] →
      decodeMsgResponses data = some responses →
      Parses parse task.passed.length responses amounts →
      decodeResponseVisiting (exactAmountIn decodeMsgResponses parse) task data =
        .ok ⟨task.outCurrency, filteredSum task.outCurrency task.coins + amounts.sum⟩ := by
  intro h
  have hpassed : fullTask.passed = [⟨1, 100⟩] := by decide
  have hdecoded := h fullTask some some [1] [1] [1] (by simp [hpassed]) rfl
    (by rw [hpassed]; exact ⟨rfl, .cons rfl .nil⟩)
  obtain ⟨-, amounts, hresponses, hparses, hfits, hsum⟩ := (decoded_sum _ _ _ _ _).1 hdecoded
  have hequal := congrArg CoinDTO.amount hsum
  have hfiltered : filteredSum fullTask.outCurrency fullTask.coins = 2 ^ 128 - 1 := by decide
  simp only [hfiltered, List.sum_singleton] at hequal hfits
  simp only [amountBits] at hfits
  omega

end Nolus.Transfers
