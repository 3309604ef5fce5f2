import Notebook.Container.NestedMap
import Notebook.Cyber.Transport.Message.MessageInfo
import Notebook.Interleaving.Run

/-!
# Clients of a service

A `Client` (`service/client.h`) numbers its requests, sends each with its own writer id as the
spare id of the `MessageInfo`, and keeps a promise for each under its number. The `Service`
(`service/service.h`) queues the requests that arrive, computes the responses one after the other
and sends each with the `MessageInfo` of its request, in which it replaces only the sender id. A
client takes the responses that carry its writer id and a number for which it still has a promise.

The network keeps every message and delivers it to any receiver at any time: in any order, several
times, late or never. A message travels with the call that it belongs to, which no step reads.

## Main definitions

* `step` — the steps of the clients, the service and the network.
* `Move` — what a step can do.
* `Inv` — messages belong to their calls, and promises to calls that are not fulfilled.

## Main results

* `inv_run` — the invariant holds while no client makes more than `2 ^ 64` calls.
* `fulfilled_by_own_response` — a future is fulfilled once, by the response to its own request.
* `fulfilled_by_other_response` — the call with the number `2 ^ 64` gets another response.
-/

open Container Interleaving Function List

namespace Cyber.ClientService

/-- A call of `AsyncSendRequest`: the client, and the number of its calls before this one. -/
abbrev Call (C : Type*) : Type _ := C × ℕ

/-- A request on its way, with the call that made it. -/
structure Request (C Req : Type*) where
  call : Call C
  request : Req
  info : MessageInfo

/-- A response on its way, with the call whose request it answers. -/
structure Response (C Resp : Type*) where
  call : Call C
  response : Resp
  info : MessageInfo

/-- `Client`. The future in `pending_requests_` is named by the number of earlier calls, and `sent`
lists the requests of all calls. -/
structure Client (Req : Type*) where
  isInit : Bool
  sequenceNumber : UInt64
  pendingRequests : Map UInt64 ℕ
  sent : List Req

namespace Client

variable {Req : Type*}

/-- `AsyncSendRequest`: the `MessageInfo` that the request is transmitted with, and the client
afterwards. A client that is not initialised returns an invalid future. -/
def asyncSendRequest (writerId : Identity) (client : Client Req) (request : Req) :
    Option (MessageInfo × Client Req) :=
  if client.isInit then
    let sequenceNumber := client.sequenceNumber + 1
    let info : MessageInfo :=
      { senderId := writerId, seqNum := sequenceNumber, spareId := writerId }
    some (info,
      { client with
        sequenceNumber
        pendingRequests := client.pendingRequests.insert info.seqNum client.sent.length
        sent := client.sent ++ [request] })
  else none

/-- `HandleResponse`: the future whose promise is fulfilled, and the client afterwards. -/
def handleResponse (writerId : Identity) (client : Client Req) (info : MessageInfo) :
    Option (ℕ × Client Req) :=
  if info.spareId ≠ writerId then none
  else
    match client.pendingRequests.lookup info.seqNum with
    | none => none
    | some future =>
      some (future,
        { client with pendingRequests := client.pendingRequests.erase info.seqNum })

end Client

/-- The clients, the service and the network. `current` is the task that `Process` has taken;
`computed` lists the responses that the service callback has computed, each with the call and the
request, and `fulfilled` the futures with the responses that their promises were given. -/
structure State (C Req Resp : Type*) where
  client : C → Client Req
  requests : List (Request C Req)
  inited : Bool
  tasks : List (Request C Req)
  current : Option (Request C Req)
  responses : List (Response C Resp)
  computed : List (Call C × Req × Resp)
  fulfilled : List (Call C × Resp)

/-- A call of `AsyncSendRequest`, the arrival of a request at the service, a step of `Process`
(taking a task, or running it with what the callback finds in `env`), `destroy`, or the arrival of a
response at a client. -/
inductive Event (C Req E : Type*)
  | asyncSendRequest (c : C) (request : Req)
  | deliverRequest (i : ℕ)
  | process
  | handleRequest (env : E)
  | destroy
  | deliverResponse (c : C) (i : ℕ)

section Step

variable {C Req Resp E : Type*} [DecidableEq C]
variable (writerId : C → Identity) (serviceId : Identity) (serviceCallback : E → Req → Resp)

/-- The effect of a step. -/
def step (s : State C Req Resp) : Event C Req E → State C Req Resp
  | .asyncSendRequest c request =>
    match (s.client c).asyncSendRequest (writerId c) request with
    | none => s
    | some (info, client) =>
      { s with
        client := update s.client c client
        requests := s.requests ++ [⟨(c, (s.client c).sent.length), request, info⟩] }
  | .deliverRequest i =>
    match s.requests[i]? with
    | none => s
    | some r => { s with tasks := s.tasks ++ [r] }
  | .process =>
    match s.current, s.tasks with
    | none, r :: tasks => if s.inited then { s with tasks, current := some r } else s
    | _, _ => s
  | .handleRequest env =>
    match s.current with
    | none => s
    | some r =>
      let response := serviceCallback env r.request
      { s with
        current := none
        responses := s.responses ++ [⟨r.call, response, { r.info with senderId := serviceId }⟩]
        computed := s.computed ++ [(r.call, r.request, response)] }
  | .destroy => { s with inited := false, tasks := [] }
  | .deliverResponse c i =>
    match s.responses[i]? with
    | none => s
    | some r =>
      if !(s.client c).isInit then s
      else
        match (s.client c).handleResponse (writerId c) r.info with
        | none => s
        | some (future, client) =>
          { s with
            client := update s.client c client
            fulfilled := s.fulfilled ++ [((c, future), r.response)] }

/-- A sequence of steps. -/
def run (s : State C Req Resp) (es : List (Event C Req E)) : State C Req Resp :=
  es.foldl (step writerId serviceId serviceCallback) s

end Step

/-- Clients and a service that have not sent anything. -/
def init {C Req Resp : Type*} (isInit : C → Bool) : State C Req Resp where
  client c := ⟨isInit c, 0, ∅, []⟩
  requests := []
  inited := true
  tasks := []
  current := none
  responses := []
  computed := []
  fulfilled := []

section Moves

variable {C Req Resp E : Type*} {writerId : C → Identity} {serviceId : Identity}
  {serviceCallback : E → Req → Resp} {s s' : State C Req Resp}

/-! ### Where a response comes from -/

/-- The request of a call. -/
def State.requestOf (s : State C Req Resp) (call : Call C) : Option Req :=
  (s.client call.1).sent[call.2]?

/-- The `MessageInfo` carries the writer id of the client and the number of the call. -/
def Numbered (writerId : C → Identity) (call : Call C) (info : MessageInfo) : Prop :=
  info.spareId = writerId call.1 ∧ info.seqNum = UInt64.ofNat (call.2 + 1)

/-- A request on its way is the one of its call. -/
def Genuine (writerId : C → Identity) (s : State C Req Resp) (r : Request C Req) : Prop :=
  Numbered writerId r.call r.info ∧ s.requestOf r.call = some r.request

/-- The response was computed for the request of the call. -/
def Answers (s : State C Req Resp) (call : Call C) (response : Resp) : Prop :=
  ∃ request, s.requestOf call = some request ∧ (call, request, response) ∈ s.computed

/-- The invariant of the system. -/
structure Inv (writerId : C → Identity) (serviceCallback : E → Req → Resp)
    (s : State C Req Resp) : Prop where
  sequenceNumber : ∀ c, (s.client c).sequenceNumber = UInt64.ofNat (s.client c).sent.length
  requests : ∀ r ∈ s.requests, Genuine writerId s r
  tasks : ∀ r ∈ s.tasks, Genuine writerId s r
  current : ∀ r, s.current = some r → Genuine writerId s r
  responses : ∀ r ∈ s.responses, Numbered writerId r.call r.info ∧ Answers s r.call r.response
  pending : ∀ c seq k, (s.client c).pendingRequests.lookup seq = some k →
    seq = UInt64.ofNat (k + 1) ∧ k < (s.client c).sent.length ∧ (c, k) ∉ s.fulfilled.map Prod.fst
  nodup : (s.fulfilled.map Prod.fst).Nodup
  fulfilled : ∀ x ∈ s.fulfilled, Answers s x.1 x.2
  computed : ∀ y ∈ s.computed, ∃ env, y.2.2 = serviceCallback env y.2.1

theorem inv_init (isInit : C → Bool) :
    Inv writerId serviceCallback (init isInit : State C Req Resp) := by
  constructor <;> simp [init]

theorem eq_of_number_eq {n k k' : ℕ} (hn : n ≤ 2 ^ 64) (hk : k < n) (hk' : k' < n)
    (h : UInt64.ofNat (k + 1) = UInt64.ofNat (k' + 1)) : k = k' := by
  have hmod := congrArg UInt64.toNat h
  simp only [UInt64.toNat_ofNat'] at hmod
  omega

variable {call : Call C}

theorem lt_length_of_answers {response : Resp} (h : Answers s call response) :
    call.2 < (s.client call.1).sent.length := by
  obtain ⟨request, hrequest, -⟩ := h
  exact (List.getElem?_eq_some_iff.mp hrequest).1

/-- What is known of a call stays known when the histories grow. -/
structure Le (s s' : State C Req Resp) : Prop where
  sent : ∀ c, (s.client c).sent <+: (s'.client c).sent
  computed : s.computed ⊆ s'.computed

theorem Le.requestOf (h : Le s s') {request : Req}
    (hs : s.requestOf call = some request) : s'.requestOf call = some request :=
  getElem?_mono (h.sent call.1) hs

theorem Le.genuine (h : Le s s') {r : Request C Req} (hr : Genuine writerId s r) :
    Genuine writerId s' r :=
  ⟨hr.1, h.requestOf hr.2⟩

theorem Le.answers (h : Le s s') {response : Resp} (hs : Answers s call response) :
    Answers s' call response := by
  obtain ⟨request, hrequest, hcomputed⟩ := hs
  exact ⟨request, h.requestOf hrequest, h.computed hcomputed⟩

theorem Inv.call_eq (hwriter : Injective writerId)
    (hinv : Inv writerId serviceCallback s) (hcalls : ∀ c, (s.client c).sent.length ≤ 2 ^ 64)
    {r : Response C Resp} (hr : r ∈ s.responses) {c : C} (hid : r.info.spareId = writerId c)
    {k : ℕ} (hk : (s.client c).pendingRequests.lookup r.info.seqNum = some k) :
    r.call = (c, k) := by
  obtain ⟨⟨hspare, hseq⟩, hanswers⟩ := hinv.responses r hr
  obtain ⟨hnumber, hlt, -⟩ := hinv.pending c _ k hk
  have hc : r.call.1 = c := hwriter (hspare.symm.trans hid)
  have hsent := lt_length_of_answers hanswers
  rw [hc] at hsent
  exact Prod.ext hc (eq_of_number_eq (hcalls c) hsent hlt (hseq.symm.trans hnumber))

theorem Inv.notMem_fulfilled (hinv : Inv writerId serviceCallback s) (c : C) :
    (c, (s.client c).sent.length) ∉ s.fulfilled.map Prod.fst := by
  intro hmem
  obtain ⟨x, hx, hcall⟩ := mem_map.mp hmem
  have hlt := lt_length_of_answers (hinv.fulfilled x hx)
  rw [hcall] at hlt
  exact lt_irrefl _ hlt

/-! ### What a step can do -/

variable [DecidableEq C]

/-- The client after a request with the next number. -/
def Client.sendNext (client : Client Req) (request : Req) : Client Req :=
  { client with
    sequenceNumber := client.sequenceNumber + 1
    pendingRequests := client.pendingRequests.insert (client.sequenceNumber + 1) client.sent.length
    sent := client.sent ++ [request] }

/-- The state after a request of the client `c`. -/
def State.send (writerId : C → Identity) (s : State C Req Resp) (c : C) (request : Req) :
    State C Req Resp :=
  { s with
    client := update s.client c ((s.client c).sendNext request)
    requests := s.requests ++ [⟨(c, (s.client c).sent.length), request,
      { senderId := writerId c, seqNum := (s.client c).sequenceNumber + 1,
        spareId := writerId c }⟩] }

/-- The state after the response `r` has fulfilled a promise of the client `c`. -/
def State.fulfil (s : State C Req Resp) (c : C) (r : Response C Resp) (future : ℕ) :
    State C Req Resp :=
  { s with
    client := update s.client c
      { s.client c with pendingRequests := (s.client c).pendingRequests.erase r.info.seqNum }
    fulfilled := s.fulfilled ++ [((c, future), r.response)] }

/-- The effects of the steps. -/
inductive Move (writerId : C → Identity) (serviceId : Identity) (serviceCallback : E → Req → Resp)
    (s : State C Req Resp) : State C Req Resp → Prop
  | stay : Move writerId serviceId serviceCallback s s
  | send (c : C) (request : Req) : Move writerId serviceId serviceCallback s
      (s.send writerId c request)
  | arrive (r) (hr : r ∈ s.requests) : Move writerId serviceId serviceCallback s
      { s with tasks := s.tasks ++ [r] }
  | take (r) (tasks) (hr : s.tasks = r :: tasks) : Move writerId serviceId serviceCallback s
      { s with tasks, current := some r }
  | handle (r) (env) (hr : s.current = some r) : Move writerId serviceId serviceCallback s
      { s with
        current := none
        responses := s.responses ++ [⟨r.call, serviceCallback env r.request,
          { r.info with senderId := serviceId }⟩]
        computed := s.computed ++ [(r.call, r.request, serviceCallback env r.request)] }
  | destroy : Move writerId serviceId serviceCallback s { s with inited := false, tasks := [] }
  | fulfil (c) (r) (future) (hr : r ∈ s.responses) (hid : r.info.spareId = writerId c)
      (hfuture : (s.client c).pendingRequests.lookup r.info.seqNum = some future) :
      Move writerId serviceId serviceCallback s (s.fulfil c r future)

theorem step_asyncSendRequest (s : State C Req Resp) (c : C) (request : Req)
    (hinit : (s.client c).isInit = true) :
    step writerId serviceId serviceCallback s (.asyncSendRequest c request) =
      s.send writerId c request := by
  have hsend : (s.client c).asyncSendRequest (writerId c) request =
    some (_, (s.client c).sendNext request) := if_pos hinit
  simp only [step, hsend, State.send]

theorem move_step (s : State C Req Resp) (e : Event C Req E) :
    Move writerId serviceId serviceCallback s (step writerId serviceId serviceCallback s e) := by
  cases e with
  | asyncSendRequest c request =>
    cases hinit : (s.client c).isInit with
    | false => simpa [step, Client.asyncSendRequest, hinit] using Move.stay
    | true =>
      rw [step_asyncSendRequest s c request hinit]
      exact .send c request
  | deliverRequest i =>
    cases hr : s.requests[i]? with
    | none => simpa [step, hr] using Move.stay
    | some r => simpa [step, hr] using Move.arrive r (mem_of_getElem? hr)
  | process =>
    simp only [step]
    split
    next r tasks _ htasks =>
      split_ifs
      · exact .take r tasks htasks
      · exact .stay
    next => exact .stay
  | handleRequest env =>
    cases hr : s.current with
    | none => simpa [step, hr] using Move.stay
    | some r => simpa [step, hr] using Move.handle r env hr
  | destroy => exact .destroy
  | deliverResponse c i =>
    cases hr : s.responses[i]? with
    | none => simpa [step, hr] using Move.stay
    | some r =>
      simp only [step, hr, Client.handleResponse]
      split_ifs with hinit hid
      · exact .stay
      · exact .stay
      · cases hfuture : (s.client c).pendingRequests.lookup r.info.seqNum with
        | none => exact .stay
        | some future =>
          exact .fulfil c r future (mem_of_getElem? hr) (not_not.mp hid) hfuture

theorem Move.le (h : Move writerId serviceId serviceCallback s s') : Le s s' := by
  cases h with
  | send c request =>
    refine ⟨fun c' => ?_, List.Subset.refl _⟩
    by_cases hc : c' = c
    · subst hc
      simp [State.send, Client.sendNext]
    · simp [State.send, hc]
  | fulfil c r future hr hid hfuture =>
    refine ⟨fun c' => ?_, List.Subset.refl _⟩
    by_cases hc : c' = c
    · subst hc
      simp [State.fulfil]
    · simp [State.fulfil, hc]
  | handle r env hr => exact ⟨fun _ => prefix_rfl, subset_append_left _ _⟩
  | stay | arrive | take | destroy => exact ⟨fun _ => prefix_rfl, List.Subset.refl _⟩

section

variable (hinv : Inv writerId serviceCallback s)

include hinv

/-- A client makes a call with the next number. -/
theorem Inv.send {c : C} {request : Req} (hle : Le s (s.send writerId c request)) :
    Inv writerId serviceCallback (s.send writerId c request) := by
  have hnumber : (s.client c).sequenceNumber + 1 =
      UInt64.ofNat ((s.client c).sent.length + 1) := by
    rw [hinv.sequenceNumber c, UInt64.ofNat_add]
    rfl
  unfold State.send at hle ⊢
  refine
    { sequenceNumber := fun c' => ?_
      requests := forall_mem_append.mpr ⟨fun r hr => hle.genuine (hinv.requests r hr), ?_⟩
      tasks := fun r hr => hle.genuine (hinv.tasks r hr)
      current := fun r hr => hle.genuine (hinv.current r hr)
      responses := fun r hr => (hinv.responses r hr).imp_right hle.answers
      pending := fun c' seq k hk => ?_
      nodup := hinv.nodup
      fulfilled := fun x hx => hle.answers (hinv.fulfilled x hx)
      computed := hinv.computed }
  · by_cases hc : c' = c
    · subst hc
      simpa [Client.sendNext] using hnumber
    · simpa [update_of_ne hc] using hinv.sequenceNumber c'
  · refine forall_mem_singleton.mpr ⟨⟨rfl, hnumber⟩, ?_⟩
    simp [State.requestOf, Client.sendNext]
  · by_cases hc : c' = c
    · subst hc
      simp only [update_self, Client.sendNext] at hk ⊢
      rcases lookup_insert_eq_some_iff.mp hk with ⟨hseq, rfl⟩ | ⟨-, hk⟩
      · -- the new promise
        exact ⟨hseq.trans hnumber, by simp, hinv.notMem_fulfilled c'⟩
      · obtain ⟨hnum, hlt, hmem⟩ := hinv.pending c' seq k hk
        exact ⟨hnum, by simpa using hlt.trans (Nat.lt_succ_self _), hmem⟩
    · simp only [update_of_ne hc] at hk ⊢
      exact hinv.pending c' seq k hk

/-- A client takes a response to one of its open calls. -/
theorem Inv.fulfil {c : C} {r : Response C Resp} {k : ℕ}
    (hr : r ∈ s.responses) (hk : (s.client c).pendingRequests.lookup r.info.seqNum = some k)
    (hcall : r.call = (c, k)) (hle : Le s (s.fulfil c r k)) :
    Inv writerId serviceCallback (s.fulfil c r k) := by
  obtain ⟨hnumber, -, hfresh⟩ := hinv.pending c _ k hk
  unfold State.fulfil at hle ⊢
  refine
    { sequenceNumber := fun c' => ?_
      requests := fun r hr => hle.genuine (hinv.requests r hr)
      tasks := fun r hr => hle.genuine (hinv.tasks r hr)
      current := fun r hr => hle.genuine (hinv.current r hr)
      responses := fun r hr => (hinv.responses r hr).imp_right hle.answers
      pending := fun c' seq k' hk' => ?_
      nodup := ?_
      fulfilled := forall_mem_append.mpr
        ⟨fun x hx => hle.answers (hinv.fulfilled x hx), forall_mem_singleton.mpr ?_⟩
      computed := hinv.computed }
  · by_cases hc : c' = c
    · subst hc
      simpa using hinv.sequenceNumber c'
    · simpa [update_of_ne hc] using hinv.sequenceNumber c'
  · by_cases hc : c' = c
    · subst hc
      simp only [update_self] at hk' ⊢
      obtain ⟨hseq, hk'⟩ := lookup_erase_eq_some_iff.mp hk'
      obtain ⟨hnumber', hlt, hfresh'⟩ := hinv.pending c' seq k' hk'
      -- the promises that remain have other numbers, so they are of other calls
      have hne : k' ≠ k := by
        rintro rfl
        exact hseq (hnumber'.trans hnumber.symm)
      exact ⟨hnumber', hlt, by simpa [hne] using hfresh'⟩
    · simp only [update_of_ne hc] at hk' ⊢
      obtain ⟨hnumber', hlt, hfresh'⟩ := hinv.pending c' seq k' hk'
      exact ⟨hnumber', hlt, by simpa [hc] using hfresh'⟩
  · rw [map_append, map_singleton]
    exact nodup_append.mpr ⟨hinv.nodup, nodup_singleton _, by
      rintro x hx y hy rfl
      rw [mem_singleton] at hy
      subst hy
      exact hfresh hx⟩
  · exact hle.answers (hcall ▸ (hinv.responses r hr).2)

/-- No move confuses calls while each client makes at most `2 ^ 64` of them. -/
theorem Inv.move (hwriter : Injective writerId) (h : Move writerId serviceId serviceCallback s s')
    (hcalls : ∀ c, (s.client c).sent.length ≤ 2 ^ 64) : Inv writerId serviceCallback s' := by
  have hle := h.le
  cases h with
  | stay => exact hinv
  | send c request => exact hinv.send hle
  | arrive r hr =>
    refine { hinv with tasks := fun r' hr' => ?_ }
    rw [mem_append, mem_singleton] at hr'
    rcases hr' with hr' | rfl
    · exact hinv.tasks r' hr'
    · exact hinv.requests r' hr
  | take r tasks hr =>
    refine { hinv with tasks := fun r' hr' => ?_, current := fun r' hr' => ?_ }
    · exact hinv.tasks r' (hr ▸ mem_cons_of_mem r hr')
    · cases hr'
      exact hinv.tasks r (hr ▸ mem_cons_self)
  | handle r env hr =>
    obtain ⟨hnumbered, hrequest⟩ := hinv.current r hr
    refine { hinv with current := ?_, responses := fun r' hr' => ?_, fulfilled := fun x hx => ?_,
                       computed := fun y hy => ?_ }
    · intro r' hr'
      cases hr'
    · rw [mem_append, mem_singleton] at hr'
      rcases hr' with hr' | rfl
      · exact (hinv.responses r' hr').imp_right hle.answers
      · exact ⟨hnumbered, r.request, hle.requestOf hrequest, by simp⟩
    · exact hle.answers (hinv.fulfilled x hx)
    · rw [mem_append, mem_singleton] at hy
      rcases hy with hy | rfl
      · exact hinv.computed y hy
      · exact ⟨env, rfl⟩
  | destroy => exact { hinv with tasks := fun r hr => absurd hr not_mem_nil }
  | fulfil c r k hr hid hk =>
    exact hinv.fulfil hr hk (hinv.call_eq hwriter hcalls hr hid hk) hle

end

/-- The invariant holds after every run in which no client has made more than `2 ^ 64` calls. -/
theorem inv_run (hwriter : Injective writerId) (isInit : C → Bool)
    (es : List (Event C Req E))
    (hcalls : ∀ c, ((run writerId serviceId serviceCallback
      (init isInit : State C Req Resp) es).client c).sent.length ≤ 2 ^ 64) :
    Inv writerId serviceCallback (run writerId serviceId serviceCallback (init isInit) es) := by
  induction es using List.reverseRecOn with
  | nil => exact inv_init isInit
  | append_singleton es e ih =>
    rw [run, foldl_append, foldl_cons, foldl_nil] at hcalls ⊢
    have hmove : Move writerId serviceId serviceCallback _ _ :=
      move_step (run writerId serviceId serviceCallback (init isInit) es) e
    have hbefore c := (hmove.le.sent c).length_le.trans (hcalls c)
    exact (ih hbefore).move hwriter hmove hbefore

/-- A response to another client's call, or to a call whose promise is fulfilled, changes
nothing. -/
theorem Inv.step_deliverResponse (hwriter : Injective writerId)
    (hinv : Inv writerId serviceCallback s) (hcalls : ∀ c, (s.client c).sent.length ≤ 2 ^ 64)
    {c : C} {i : ℕ} {r : Response C Resp} (hr : s.responses[i]? = some r)
    (hother : r.call.1 ≠ c ∨ r.call ∈ s.fulfilled.map Prod.fst) :
    step writerId serviceId serviceCallback s (.deliverResponse c i) = s := by
  have hmem := mem_of_getElem? hr
  simp only [step, hr, Client.handleResponse]
  split_ifs with hinit hid
  · rfl
  · rfl
  · cases hk : (s.client c).pendingRequests.lookup r.info.seqNum with
    | none => rfl
    | some k =>
      have hcall := hinv.call_eq hwriter hcalls hmem (not_not.mp hid) hk
      rw [hcall] at hother
      exact absurd hother (not_or.mpr ⟨not_not.mpr rfl, (hinv.pending c _ k hk).2.2⟩)

/-- In every run in which no client makes more than `2 ^ 64` calls, a future is fulfilled at most
once, and with a response that the service callback has computed for the request of its own call.
Responses to the calls of other clients and to calls that are answered change nothing. -/
theorem fulfilled_by_own_response {C Req Resp E : Type*} [DecidableEq C] (writerId : C → Identity)
    (hwriter : Injective writerId) (serviceId : Identity)
    (serviceCallback : E → Req → Resp) (isInit : C → Bool) (es : List (Event C Req E))
    (s : State C Req Resp)
    (hs : s = run writerId serviceId serviceCallback (init isInit) es)
    (hcalls : ∀ c, (s.client c).sent.length ≤ 2 ^ 64) :
    (s.fulfilled.map Prod.fst).Nodup ∧
      (∀ x ∈ s.fulfilled, ∃ request env, s.requestOf x.1 = some request ∧
        (x.1, request, x.2) ∈ s.computed ∧ x.2 = serviceCallback env request) ∧
      ∀ c i r, s.responses[i]? = some r → r.call.1 ≠ c ∨ r.call ∈ s.fulfilled.map Prod.fst →
        step writerId serviceId serviceCallback s (.deliverResponse c i) = s := by
  subst hs
  have hinv := inv_run hwriter isInit es hcalls
  refine ⟨hinv.nodup, fun x hx => ?_, fun c i r hr hother => ?_⟩
  · obtain ⟨request, hrequest, hcomputed⟩ := hinv.fulfilled x hx
    obtain ⟨env, henv⟩ := hinv.computed _ hcomputed
    exact ⟨request, env, hrequest, hcomputed, henv⟩
  · exact hinv.step_deliverResponse hwriter hcalls hr hother

/-- An identity of eight equal bytes. -/
def identityOf (b : UInt8) : Identity := ⟨List.replicate idSize b, length_replicate⟩

/-- Two clients send the same number; the requests arrive in the other order and one of them twice,
and one response is delivered to both clients and then again. -/
def twoClients : List (Event Bool ℕ Unit) :=
  [.asyncSendRequest true 5, .asyncSendRequest false 8, .deliverRequest 1, .deliverRequest 0,
    .deliverRequest 1, .process, .handleRequest (), .process, .handleRequest (),
    .process, .handleRequest (), .deliverResponse true 0, .deliverResponse false 0,
    .deliverResponse false 2, .deliverResponse true 1]

/-- The writer ids of two clients. -/
def writerIdOf (c : Bool) : Identity := identityOf (if c then 1 else 2)

theorem fulfilled_by_own_response_of_two :
    ∃ s, s = run writerIdOf (identityOf 3) (fun _ n => n + 100) (init fun _ => true) twoClients ∧
      s.fulfilled = [((false, 0), 108), ((true, 0), 105)] ∧ (s.fulfilled.map Prod.fst).Nodup :=
  ⟨_, rfl, by decide +kernel, (fulfilled_by_own_response writerIdOf (by decide) (identityOf 3)
    (fun _ n => n + 100) (fun _ => true) twoClients _ rfl (by decide +kernel)).1⟩

variable (writerId serviceId serviceCallback) in
theorem run_replicate_send (c : C) (request : Req) (n : ℕ) (s : State C Req Resp)
    (hinit : (s.client c).isInit = true) :
    ∃ s', s' = run writerId serviceId serviceCallback s
        (List.replicate n (.asyncSendRequest c request)) ∧
      (s'.client c).isInit = true ∧
      (s'.client c).sequenceNumber = (s.client c).sequenceNumber + UInt64.ofNat n ∧
      (s'.client c).sent.length = (s.client c).sent.length + n ∧
      s'.responses = s.responses ∧ s'.computed = s.computed ∧ s'.fulfilled = s.fulfilled := by
  induction n generalizing s with
  | zero => exact ⟨s, rfl, hinit, by simp, rfl, rfl, rfl, rfl⟩
  | succ n ih =>
    have hstep := @step_asyncSendRequest C Req Resp E writerId serviceId serviceCallback
      _ s c request hinit
    rw [State.send] at hstep
    obtain ⟨s', hs', hinit', hseq, hlen, hresponses, hcomputed, hfulfilled⟩ :=
      ih (step writerId serviceId serviceCallback s (.asyncSendRequest c request)) (by
        rw [hstep]
        simpa [Client.sendNext] using hinit)
    rw [hstep] at hseq hlen hresponses hcomputed hfulfilled
    refine ⟨s', hs', hinit', ?_, ?_, hresponses, hcomputed, hfulfilled⟩
    · rw [hseq, add_comm n 1, UInt64.ofNat_add]
      simp only [update_self, Client.sendNext, UInt64.add_assoc]
      rfl
    · rw [hlen]
      simp [Client.sendNext, add_assoc, add_comm]

variable (writerId serviceId serviceCallback) in
/-- A response on its way that carries the number of the next call fulfils its promise. -/
theorem deliver_after_send (c : C) (request : Req) (s : State C Req Resp)
    (hinit : (s.client c).isInit = true) {i : ℕ} {r : Response C Resp}
    (hr : s.responses[i]? = some r) (hid : r.info.spareId = writerId c)
    (hseq : r.info.seqNum = (s.client c).sequenceNumber + 1) :
    ∃ s', s' = run writerId serviceId serviceCallback s
        [.asyncSendRequest c request, .deliverResponse c i] ∧
      s'.requestOf (c, (s.client c).sent.length) = some request ∧
      s'.fulfilled = s.fulfilled ++ [((c, (s.client c).sent.length), r.response)] ∧
      s'.computed = s.computed := by
  obtain ⟨next, hnext⟩ : ∃ next, next = (s.client c).sendNext request := ⟨_, rfl⟩
  have hlookup : next.pendingRequests.lookup r.info.seqNum = some (s.client c).sent.length := by
    rw [hnext, hseq]
    exact AList.lookup_insert _
  have hhandle : next.handleResponse (writerId c) r.info = some ((s.client c).sent.length,
      { next with pendingRequests := next.pendingRequests.erase r.info.seqNum }) := by
    simp [Client.handleResponse, hid, hlookup]
  have hinit' : next.isInit = true := hnext ▸ hinit
  refine ⟨_, rfl, ?_⟩
  simp only [run, foldl_cons, foldl_nil]
  rw [step_asyncSendRequest s c request hinit, State.send, ← hnext]
  simp only [step, hr, update_self, hinit', hhandle, State.requestOf]
  simp [hnext, Client.sendNext]

end Moves

/-- The number of the call after `2 ^ 64` calls is that of the first call: its promise is fulfilled
with the response to the first request, which arrives late, and the service has computed no
response for it. -/
theorem fulfilled_by_other_response :
    ∃ es : List (Event Bool ℕ Unit), ∃ s, s = run writerIdOf (identityOf 3) (fun _ n => n + 100)
        (init fun _ => true) es ∧
      s.requestOf (true, 2 ^ 64) = some 8 ∧ s.fulfilled = [((true, 2 ^ 64), 105)] ∧
      s.computed = [((true, 0), 5, 105)] := by
  -- the first call is served, but the response does not arrive yet
  obtain ⟨s₁, hs₁⟩ : ∃ s₁, s₁ = run writerIdOf (identityOf 3) (fun (_ : Unit) (n : ℕ) => n + 100)
    (init fun _ => true)
    [.asyncSendRequest true 5, .deliverRequest 0, .process, .handleRequest ()] := ⟨_, rfl⟩
  have hinit₁ : (s₁.client true).isInit = true := by subst hs₁; rfl
  have hseq₁ : (s₁.client true).sequenceNumber = 1 := by subst hs₁; rfl
  have hlen₁ : (s₁.client true).sent.length = 1 := by subst hs₁; rfl
  have hresponses₁ : s₁.responses = [⟨(true, 0), 105,
    { senderId := identityOf 3, seqNum := 1, spareId := writerIdOf true }⟩] := by subst hs₁; rfl
  have hcomputed₁ : s₁.computed = [((true, 0), 5, 105)] := by subst hs₁; rfl
  have hfulfilled₁ : s₁.fulfilled = [] := by subst hs₁; rfl
  -- all other numbers are used
  obtain ⟨s₂, hs₂, hinit₂, hseq₂, hlen₂, hresponses₂, hcomputed₂, hfulfilled₂⟩ :=
    run_replicate_send writerIdOf (identityOf 3) (fun (_ : Unit) (n : ℕ) => n + 100) true 0
      (2 ^ 64 - 1) s₁ hinit₁
  rw [hseq₁] at hseq₂
  rw [hresponses₁] at hresponses₂
  -- the next call has the first number again
  obtain ⟨s₃, hs₃, hrequest, hfulfilled, hcomputed⟩ :=
    deliver_after_send writerIdOf (identityOf 3) (fun (_ : Unit) (n : ℕ) => n + 100) true 8 s₂
      hinit₂ (congrArg (·[0]?) hresponses₂) rfl (by rw [hseq₂]; decide)
  rw [hlen₂, hlen₁] at hrequest hfulfilled
  rw [hs₂, hs₁, run, run, run, ← foldl_append, ← foldl_append] at hs₃
  refine ⟨_, s₃, hs₃, hrequest, ?_, ?_⟩
  · rw [hfulfilled, hfulfilled₂, hfulfilled₁]
    rfl
  · rw [hcomputed, hcomputed₂, hcomputed₁]

end Cyber.ClientService
