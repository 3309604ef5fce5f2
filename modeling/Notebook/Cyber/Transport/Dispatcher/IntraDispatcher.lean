import Notebook.Cyber.Transport.Message.ListenerHandler
import Notebook.Interleaving.Run

/-!
# The dispatcher for readers in the same process

`IntraDispatcher` (`transport/dispatcher/intra_dispatcher.h`) hands a message to the readers of its
channel in the same process, which may expect different message types. The readers are registered
in a `ChannelChain` with one handler for each message type. The chain is run from a wrapper that
is connected in `msg_listeners_`, to a handler for the type of the first reader of the channel. The
model is that of one channel, with the overloads of `AddListener` and `RemoveListener` for one
reader.

`RemoveListener` takes the handler of the reader's type out of the chain, with all its readers, and
disconnects the wrapper if it was connected for this reader. A wrapper is connected only together
with a new handler of the chain, and only for the type of the first reader. So the readers of a
channel depend on each other.

## Main definitions

* `IntraDispatcher.onMessage` — the readers that are called, with the messages that they get.
* `Delivers` — every message calls each live reader once, and nobody else.
* `Independent` — the condition on a call under which it affects no other reader.
* `Inv` — the chain and the wrappers agree with the live readers.

## Main results

* `Inv.step`, `Inv.delivers` — independent calls keep the invariant, and it gives delivery.
* `delivers_iff_independent` — the readers get their messages exactly in independent runs.
-/

open Interleaving List Option

namespace Cyber

variable {Ty : Type*}

/-- The messages of each type, and their conversion to and from strings. `serialize` stands for
`FullByteSize` and `SerializeToHC`, `parse` for `ParseFromHC` into a new message. -/
structure Codec (Ty : Type*) where
  Msg : Ty → Type
  serialize : (T : Ty) → Msg T → Option (List UInt8)
  parse : (T : Ty) → List UInt8 → Option (Msg T)

/-- Messages exist, and their serialization and parsing between the types succeed; a serialized
message starts with a header. -/
structure Codec.Total (c : Codec Ty) : Prop where
  nonempty : ∀ T, Nonempty (c.Msg T)
  serialize : ∀ T m, ∃ str, c.serialize T m = some str ∧ str ≠ [] ∧
    ∀ T', ∃ m', c.parse T' str = some m'

/-- A reader that is called, with the message that it gets. -/
abbrev Invocation (c : Codec Ty) : Type _ := ℕ × Σ T, c.Msg T

/-- `ListenerHandler::Run` of a handler for messages of type `T`. -/
def ListenerHandler.invoke (h : ListenerHandler) (c : Codec Ty) (T : Ty) (m : c.Msg T) :
    List (Invocation c) :=
  h.run.map fun id => (id, ⟨T, m⟩)

/-- `ListenerHandler::RunFromString` of a handler for messages of type `T`. -/
def ListenerHandler.runFromString (h : ListenerHandler) (c : Codec Ty) (T : Ty)
    (str : List UInt8) : List (Invocation c) :=
  match c.parse T str with
  | some m => h.invoke c T m
  | none => []

/-- The parts of the dispatcher for one channel: the entry of `msg_listeners_`, with the type of
its handler, and the handlers of the chain. -/
structure IntraDispatcher (Ty : Type*) where
  msgListeners : Option (Ty × ListenerHandler)
  chain : AList fun _ : Ty => ListenerHandler

namespace IntraDispatcher

variable [DecidableEq Ty]

/-- A channel without readers. -/
def empty (Ty : Type*) : IntraDispatcher Ty := ⟨none, ∅⟩

/-- The loop of `ChannelChain::Run` over the handlers, for a message of type `T₀`; `msg` is the
string that the message was serialized to, if it was. -/
def chainLoop (c : Codec Ty) (T₀ : Ty) (m : c.Msg T₀) :
    List UInt8 → List (Sigma fun _ : Ty => ListenerHandler) → List (Invocation c)
  | _, [] => []
  | msg, ⟨T, handler⟩ :: rest =>
    if T₀ = T then handler.invoke c T₀ m ++ chainLoop c T₀ m msg rest
    else
      let msg := if msg = [] then (c.serialize T₀ m).getD [] else msg
      (if msg ≠ [] then handler.runFromString c T msg else []) ++ chainLoop c T₀ m msg rest

/-- `ChannelChain::Run` -/
def chainRun (d : IntraDispatcher Ty) (c : Codec Ty) (T₀ : Ty) (m : c.Msg T₀) :
    List (Invocation c) :=
  chainLoop c T₀ m [] d.chain.entries

/-- `OnMessage` of a message of type `T`. The handler of `msg_listeners_` calls the wrappers that
are connected to it, and each of them runs the chain. -/
def onMessage (d : IntraDispatcher Ty) (c : Codec Ty) (T : Ty) (m : c.Msg T) :
    List (Invocation c) :=
  match d.msgListeners with
  | none => []
  | some (T₀, handler) =>
    if h : T = T₀ then handler.run.flatMap fun _ => d.chainRun c T₀ (h ▸ m)
    else
      match c.serialize T m with
      | none => []
      | some str =>
        match c.parse T₀ str with
        | none => []
        | some m₀ => handler.run.flatMap fun _ => d.chainRun c T₀ m₀

/-- `ChannelChain::AddListener` and `ChannelChain::GetHandler`: the new chain, and whether the
handler for the type was created. -/
def chainAddListener (d : IntraDispatcher Ty) (T : Ty) (selfId : ℕ) :
    (AList fun _ : Ty => ListenerHandler) × Bool :=
  match d.chain.lookup T with
  | none => (d.chain.insert T (ListenerHandler.empty.connect selfId), true)
  | some handler => (d.chain.insert T (handler.connect selfId), false)

/-- `AddListener<MessageT>` for a reader of messages of type `T`. -/
def addListener (d : IntraDispatcher Ty) (T : Ty) (selfId : ℕ) : IntraDispatcher Ty :=
  let r := d.chainAddListener T selfId
  match d.msgListeners with
  | none =>
    ⟨some (T, if r.2 then ListenerHandler.empty.connect selfId else .empty), r.1⟩
  | some (T₀, handler) =>
    ⟨some (T₀, if T = T₀ ∧ r.2 then handler.connect selfId else handler), r.1⟩

/-- `RemoveListener<MessageT>` of a reader of messages of type `T`: the reader is disconnected in
`msg_listeners_`, and `ChannelChain::RemoveHandler` erases the handler of its type. -/
def removeListener (d : IntraDispatcher Ty) (T : Ty) (selfId : ℕ) : IntraDispatcher Ty :=
  ⟨d.msgListeners.map fun r => (r.1, r.2.disconnect selfId), d.chain.erase T⟩

/-! ### Sequences of calls -/

/-- The dispatcher, with the readers that were added and, of these, the readers that were not
removed since. -/
structure Channel (Ty : Type*) where
  dispatcher : IntraDispatcher Ty
  added : List (ℕ × Ty)
  live : List (ℕ × Ty)

/-- A call of `AddListener` or `RemoveListener` for a reader and its message type. -/
inductive Event (Ty : Type*)
  | add (T : Ty) (selfId : ℕ)
  | remove (T : Ty) (selfId : ℕ)
deriving DecidableEq, Repr

/-- A channel without readers. -/
def init (Ty : Type*) : Channel Ty := ⟨empty Ty, [], []⟩

/-- One call. The readers have different ids, and a reader that is removed was added before. -/
def step (s : Channel Ty) : Event Ty → Option (Channel Ty)
  | .add T selfId =>
    if selfId ∈ s.added.map Prod.fst then none
    else some ⟨s.dispatcher.addListener T selfId, s.added ++ [(selfId, T)],
      s.live ++ [(selfId, T)]⟩
  | .remove T selfId =>
    if (selfId, T) ∈ s.added then
      some ⟨s.dispatcher.removeListener T selfId, s.added, s.live.filter (·.1 ≠ selfId)⟩
    else none

/-- Every message calls each live reader once, and nobody else. -/
def Delivers (c : Codec Ty) (s : Channel Ty) : Prop :=
  ∀ T m id, ((s.dispatcher.onMessage c T m).map Prod.fst).count id =
    if id ∈ s.live.map Prod.fst then 1 else 0

/-- The condition on a call. A reader of another type than the first one is added only while a
reader of the type of the first one is live. A reader is removed only when no other reader of its
type is live and, if its type is that of the first reader, no other reader at all. -/
def Independent (s : Channel Ty) : Event Ty → Prop
  | .add T _ => ∀ r ∈ s.dispatcher.msgListeners, T = r.1 ∨ ∃ id, (id, r.1) ∈ s.live
  | .remove T selfId =>
    (∀ id, (id, T) ∈ s.live → id = selfId) ∧
      ∀ r ∈ s.dispatcher.msgListeners, T = r.1 → ∀ p ∈ s.live, p.1 = selfId

/-! ### Who is called -/

variable {c : Codec Ty} {d : IntraDispatcher Ty} {T : Ty} {id : ℕ}

/-- The readers of the chain. -/
def chainIds (d : IntraDispatcher Ty) : List ℕ := d.chain.entries.flatMap fun e => e.2.run

/-- The wrappers that a message calls, by the readers that they were connected for. -/
def wrappers (d : IntraDispatcher Ty) : List ℕ :=
  match d.msgListeners with
  | none => []
  | some r => r.2.run

omit [DecidableEq Ty] in
theorem map_fst_invoke (h : ListenerHandler) (m : c.Msg T) :
    (h.invoke c T m).map Prod.fst = h.run := by
  simp [ListenerHandler.invoke, Function.comp_def]

theorem map_fst_chainLoop (hc : c.Total) {T₀ : Ty} (m : c.Msg T₀) {str msg : List UInt8}
    (hstr : c.serialize T₀ m = some str) (hmsg : msg = [] ∨ msg = str)
    (l : List (Sigma fun _ : Ty => ListenerHandler)) :
    (chainLoop c T₀ m msg l).map Prod.fst = l.flatMap fun e => e.2.run := by
  obtain ⟨str', hstr', hne, hparse⟩ := hc.serialize T₀ m
  obtain rfl : str = str' := some.inj (hstr.symm.trans hstr')
  induction l generalizing msg with
  | nil => rfl
  | cons e l ih =>
    obtain ⟨T, handler⟩ := e
    rw [chainLoop, flatMap_cons]
    by_cases hT : T₀ = T
    · rw [if_pos hT, map_append, map_fst_invoke, ih hmsg]
    · rw [if_neg hT]
      have hcache : (if msg = [] then (c.serialize T₀ m).getD [] else msg) = str := by
        rcases hmsg with rfl | rfl
        · rw [if_pos rfl, hstr, getD_some]
        · rw [if_neg hne]
      obtain ⟨m', hm'⟩ := hparse T
      simp only [hcache, ne_eq, hne, not_false_eq_true, if_true, map_append, ih (.inr rfl),
        ListenerHandler.runFromString, hm', map_fst_invoke]

theorem map_fst_onMessage (hc : c.Total) (d : IntraDispatcher Ty) (m : c.Msg T) :
    (d.onMessage c T m).map Prod.fst = d.wrappers.flatMap fun _ => d.chainIds := by
  have hrun : ∀ {T₀ : Ty} (m₀ : c.Msg T₀), (d.chainRun c T₀ m₀).map Prod.fst = d.chainIds := by
    intro T₀ m₀
    obtain ⟨str, hstr, -⟩ := hc.serialize T₀ m₀
    exact map_fst_chainLoop hc m₀ hstr (.inl rfl) d.chain.entries
  rw [onMessage, wrappers]
  cases d.msgListeners with
  | none => rfl
  | some r =>
    obtain ⟨T₀, handler⟩ := r
    simp only
    split_ifs with hT
    · rw [map_flatMap]
      simp only [hrun]
    · obtain ⟨str, hstr, -, hparse⟩ := hc.serialize T m
      obtain ⟨m₀, hm₀⟩ := hparse T₀
      simp only [hstr, hm₀, map_flatMap, hrun]

/-- **How often a reader is called.** -/
theorem count_onMessage (hc : c.Total) (d : IntraDispatcher Ty) (m : c.Msg T) (id : ℕ) :
    ((d.onMessage c T m).map Prod.fst).count id = d.wrappers.length * d.chainIds.count id := by
  rw [map_fst_onMessage hc]
  induction d.wrappers with
  | nil => simp
  | cons w l ih =>
    rw [flatMap_cons, count_append, ih, length_cons, Nat.succ_mul, Nat.add_comm]

theorem mem_chainIds : id ∈ d.chainIds ↔ ∃ T h, d.chain.lookup T = some h ∧ id ∈ h.run := by
  simp only [chainIds, mem_flatMap, Sigma.exists, ← mem_def, AList.mem_lookup_iff]

/-- A live reader that the chain does not have, or a live reader without a wrapper, gets no
message. -/
theorem not_delivers {s : Channel Ty} (hc : c.Total) (T : Ty) (id : ℕ)
    (hid : id ∈ s.live.map Prod.fst) (h : s.dispatcher.wrappers = [] ∨ id ∉ s.dispatcher.chainIds) :
    ¬Delivers c s := by
  intro hdel
  obtain ⟨m⟩ := hc.nonempty T
  have hcount := hdel T m id
  rw [count_onMessage hc, if_pos hid] at hcount
  rcases h with h | h
  · simp [h] at hcount
  · simp [count_eq_zero.mpr h] at hcount

/-! ### The invariant -/

/-- The live readers of messages of type `T`. -/
def Channel.idsOf (s : Channel Ty) (T : Ty) : List ℕ := (s.live.filter (·.2 = T)).map Prod.fst

variable {s s' : Channel Ty} {e : Event Ty}

theorem Channel.mem_idsOf : id ∈ s.idsOf T ↔ (id, T) ∈ s.live := by
  simp [Channel.idsOf]

/-- The two registers of the dispatcher agree: the chain has the live readers of every type, and
there is one wrapper, of a live reader of the first type, exactly when there are live readers. -/
structure Inv (s : Channel Ty) : Prop where
  live_added : ∀ p ∈ s.live, p ∈ s.added
  added_inj : ∀ p ∈ s.added, ∀ q ∈ s.added, p.1 = q.1 → p = q
  live_nodup : (s.live.map Prod.fst).Nodup
  chain : ∀ T, match s.dispatcher.chain.lookup T with
    | none => s.idsOf T = []
    | some h => h.WF ∧ h.run = s.idsOf T ∧ s.idsOf T ≠ []
  first : s.dispatcher.msgListeners = none → s.added = []
  wrapper : ∀ r ∈ s.dispatcher.msgListeners, r.2.WF ∧
    (s.live = [] ∧ r.2.run = [] ∨ ∃ id, r.2.run = [id] ∧ (id, r.1) ∈ s.live)

theorem inv_init : Inv (init Ty) where
  live_added := by simp [init]
  added_inj := by simp [init]
  live_nodup := by simp [init]
  chain := by simp [init, empty, Channel.idsOf]
  first := fun _ => rfl
  wrapper := by simp [init, empty]

theorem Inv.type_unique (h : Inv s) {T' : Ty} (h₁ : (id, T) ∈ s.added) (h₂ : (id, T') ∈ s.added) :
    T = T' :=
  (Prod.mk.inj (h.added_inj _ h₁ _ h₂ rfl)).2

theorem Inv.mem_chainIds (h : Inv s) :
    id ∈ s.dispatcher.chainIds ↔ id ∈ s.live.map Prod.fst := by
  rw [IntraDispatcher.mem_chainIds]
  constructor
  · rintro ⟨T, handler, hT, hid⟩
    have hchain := h.chain T
    rw [hT] at hchain
    rw [hchain.2.1, Channel.mem_idsOf] at hid
    exact mem_map.mpr ⟨_, hid, rfl⟩
  · intro hid
    obtain ⟨⟨_, T⟩, hlive, rfl⟩ := mem_map.mp hid
    have hchain := h.chain T
    have hmem := Channel.mem_idsOf.mpr hlive
    cases hT : s.dispatcher.chain.lookup T with
    | none =>
      rw [hT] at hchain
      rw [hchain] at hmem
      exact absurd hmem not_mem_nil
    | some handler =>
      rw [hT] at hchain
      exact ⟨T, handler, hT, by rwa [hchain.2.1]⟩

theorem Inv.nodup_chainIds (h : Inv s) : s.dispatcher.chainIds.Nodup := by
  have hentry : ∀ e ∈ s.dispatcher.chain.entries, e.2.run = s.idsOf e.1 := by
    intro e he
    have hchain := h.chain e.1
    rw [mem_def.mp (AList.mem_lookup_iff.mpr he)] at hchain
    exact hchain.2.1
  rw [chainIds, nodup_flatMap]
  refine ⟨fun e he => ?_, s.dispatcher.chain.nodupKeys.pairwise_ne.imp_of_mem fun he he' hne => ?_⟩
  · rw [hentry e he]
    exact h.live_nodup.sublist (filter_sublist.map _)
  · rw [Function.onFun, hentry _ he, hentry _ he']
    intro id hid hid'
    rw [Channel.mem_idsOf] at hid hid'
    exact hne (h.type_unique (h.live_added _ hid) (h.live_added _ hid'))

/-- **In the good states every message is delivered.** -/
theorem Inv.delivers (hc : c.Total) (h : Inv s) : Delivers c s := by
  intro T m id
  rw [count_onMessage hc, h.nodup_chainIds.count]
  simp only [h.mem_chainIds]
  cases hr : s.dispatcher.msgListeners with
  | none =>
    have hlive : s.live = [] := eq_nil_iff_forall_not_mem.mpr fun p hp => by
      simpa [h.first hr] using h.live_added p hp
    simp [hlive]
  | some r =>
    rcases (h.wrapper r hr).2 with ⟨hlive, -⟩ | ⟨owner, hrun, -⟩
    · simp [hlive]
    · simp [wrappers, hr, hrun]

/-! ### One call -/

theorem chain_addListener (d : IntraDispatcher Ty) (T : Ty) (id : ℕ) :
    (d.addListener T id).chain =
      d.chain.insert T (((d.chain.lookup T).getD .empty).connect id) := by
  rw [addListener, chainAddListener]
  cases d.chain.lookup T <;> cases d.msgListeners <;> rfl

/-- The new entry of `msg_listeners_`: a wrapper is connected when the handler of the chain was
created and has the type of the first reader. -/
theorem msgListeners_addListener (d : IntraDispatcher Ty) (T : Ty) (id : ℕ) :
    (d.addListener T id).msgListeners = some
      (let r := d.msgListeners.getD (T, .empty)
       (r.1, if T = r.1 ∧ d.chain.lookup T = none then r.2.connect id else r.2)) := by
  rw [addListener, chainAddListener]
  cases d.chain.lookup T <;> cases d.msgListeners <;> simp

theorem idsOf_append (T' : Ty) {s' : Channel Ty} (hs' : s'.live = s.live ++ [(id, T)]) :
    s'.idsOf T' = s.idsOf T' ++ if T = T' then [id] else [] := by
  rw [Channel.idsOf, hs', filter_append, map_append, Channel.idsOf]
  by_cases hT : T = T' <;> simp [hT]

section

variable (h : Inv s)

include h

private theorem Inv.chain_add (hid : id ∉ s.added.map Prod.fst) (T' : Ty)
    {s' : Channel Ty} (hs' : s'.live = s.live ++ [(id, T)])
    (hd : s'.dispatcher = s.dispatcher.addListener T id) :
    match s'.dispatcher.chain.lookup T' with
    | none => s'.idsOf T' = []
    | some h => h.WF ∧ h.run = s'.idsOf T' ∧ s'.idsOf T' ≠ [] := by
  have hnew : ∀ T, id ∉ s.idsOf T := fun T hmem =>
    hid (mem_map.mpr ⟨_, h.live_added _ (Channel.mem_idsOf.mp hmem), rfl⟩)
  have hchain := h.chain T'
  rw [hd, chain_addListener, idsOf_append T' hs']
  by_cases hT : T' = T
  · subst hT
    rw [AList.lookup_insert, if_pos rfl]
    cases hlook : s.dispatcher.chain.lookup T' with
    | none =>
      rw [hlook] at hchain
      refine ⟨ListenerHandler.wf_empty.connect (by simp), ?_, by simp⟩
      simp [hchain]
    | some handler =>
      rw [hlook] at hchain
      refine ⟨hchain.1.connect ?_, ?_, by simp⟩
      · rw [hchain.2.1]
        exact hnew T'
      · rw [getD_some, ListenerHandler.run_connect, hchain.2.1]
  · rw [AList.lookup_insert_ne hT, if_neg (Ne.symm hT), append_nil]
    exact hchain

private theorem Inv.lookup_eq_none (hT : s.idsOf T = []) : s.dispatcher.chain.lookup T = none := by
  have hchain := h.chain T
  cases hlook : s.dispatcher.chain.lookup T with
  | none => rfl
  | some handler =>
    rw [hlook] at hchain
    exact absurd hT hchain.2.2

/-- The wrapper after a reader was added: the first reader of the first type gets one. -/
private theorem Inv.wrapper_add (he : Independent s (.add T id)) :
    let r := s.dispatcher.msgListeners.getD (T, .empty)
    let handler := if T = r.1 ∧ s.dispatcher.chain.lookup T = none then r.2.connect id else r.2
    handler.WF ∧ (s.live ++ [(id, T)] = [] ∧ handler.run = [] ∨
      ∃ owner, handler.run = [owner] ∧ (owner, r.1) ∈ s.live ++ [(id, T)]) := by
  cases hr : s.dispatcher.msgListeners with
  | none =>
    have hlive : s.live = [] := eq_nil_iff_forall_not_mem.mpr fun p hp => by
      simpa [h.first hr] using h.live_added p hp
    have hlook : s.dispatcher.chain.lookup T = none :=
      h.lookup_eq_none (by simp [Channel.idsOf, hlive])
    simp only [getD_none, hlook, and_self, if_true]
    exact ⟨ListenerHandler.wf_empty.connect (by simp), .inr ⟨id, by simp, by simp⟩⟩
  | some r =>
    obtain ⟨hwf, hrun⟩ := h.wrapper r hr
    simp only [getD_some]
    split
    case isTrue hnew =>
      rcases hrun with ⟨-, hrun⟩ | ⟨owner, -, howner⟩
      · refine ⟨hwf.connect (by simp [hrun]), .inr ⟨id, by simp [hrun], ?_⟩⟩
        rw [hnew.1]
        simp
      · have hchain := h.chain r.1
        rw [← hnew.1, hnew.2] at hchain
        rw [← hnew.1, ← Channel.mem_idsOf, hchain] at howner
        exact absurd howner not_mem_nil
    case isFalse hold =>
      rcases hrun with ⟨hlive, -⟩ | ⟨owner, hrun, howner⟩
      · -- without a live reader the call must have been for the first type and a new handler
        rcases he r hr with hT | ⟨j, hj⟩
        · exact absurd ⟨hT, h.lookup_eq_none (by simp [Channel.idsOf, hlive])⟩ hold
        · simp [hlive] at hj
      · exact ⟨hwf, .inr ⟨owner, hrun, mem_append_left _ howner⟩⟩

private theorem Inv.add (he : Independent s (.add T id))
    (hstep : step s (.add T id) = some s') : Inv s' := by
  rw [step] at hstep
  split at hstep
  · simp at hstep
  rename_i hid
  obtain rfl := some.inj hstep
  have hnew : id ∉ s.live.map Prod.fst := fun hmem => by
    obtain ⟨p, hp, rfl⟩ := mem_map.mp hmem
    exact hid (mem_map.mpr ⟨p, h.live_added p hp, rfl⟩)
  refine ⟨?_, ?_, ?_, fun T' => h.chain_add hid T' rfl rfl, ?_, ?_⟩
  · intro p hp
    rcases mem_append.mp hp with hp | hp
    · exact mem_append_left _ (h.live_added p hp)
    · exact mem_append_right _ hp
  · intro p hp q hq hpq
    have hfst : ∀ r ∈ s.added, r.1 ≠ id := fun r hr heq => hid (mem_map.mpr ⟨r, hr, heq⟩)
    rcases mem_append.mp hp with hp | hp <;> rcases mem_append.mp hq with hq | hq
    · exact h.added_inj p hp q hq hpq
    · rw [mem_singleton.mp hq] at hpq
      exact absurd hpq (hfst p hp)
    · rw [mem_singleton.mp hp] at hpq
      exact absurd hpq.symm (hfst q hq)
    · rw [mem_singleton.mp hp, mem_singleton.mp hq]
  · rw [map_append]
    exact h.live_nodup.append (nodup_singleton _) (by simpa using hnew)
  · intro hnone
    rw [msgListeners_addListener] at hnone
    simp at hnone
  · intro r hr
    rw [msgListeners_addListener, mem_def, some.injEq] at hr
    subst hr
    exact h.wrapper_add he

/-- The wrapper after a reader was removed: it goes with the last reader of the first type. -/
private theorem Inv.wrapper_remove (hadded : (id, T) ∈ s.added)
    (he : Independent s (.remove T id)) {r : Ty × ListenerHandler}
    (hr : r ∈ s.dispatcher.msgListeners) :
    s.live.filter (·.1 ≠ id) = [] ∧ (r.2.disconnect id).run = [] ∨
      ∃ owner, (r.2.disconnect id).run = [owner] ∧ (owner, r.1) ∈ s.live.filter (·.1 ≠ id) := by
  obtain ⟨hwf, hrun⟩ := h.wrapper r hr
  rw [hwf.run_disconnect]
  rcases hrun with ⟨hlive, hrun⟩ | ⟨owner, hrun, howner⟩
  · exact .inl ⟨by rw [hlive]; rfl, by rw [hrun]; rfl⟩
  · rw [hrun]
    by_cases hid : owner = id
    · -- the owner of the wrapper goes, so its type is the first one and it is the last reader
      subst hid
      have hT : T = r.1 := h.type_unique hadded (h.live_added _ howner)
      refine .inl ⟨filter_eq_nil_iff.mpr fun p hp => ?_, by simp⟩
      simpa using he.2 r hr hT p hp
    · exact .inr ⟨owner, by simp [hid], mem_filter.mpr ⟨howner, by simpa using hid⟩⟩

private theorem Inv.remove (he : Independent s (.remove T id))
    (hstep : step s (.remove T id) = some s') : Inv s' := by
  rw [step] at hstep
  split at hstep
  case isFalse => simp at hstep
  rename_i hadded
  obtain rfl := some.inj hstep
  refine ⟨fun p hp => h.live_added p (mem_of_mem_filter hp), h.added_inj,
    h.live_nodup.sublist (filter_sublist.map _), fun T' => ?_, fun hnone => ?_, ?_⟩
  · have hchain := h.chain T'
    simp only [removeListener]
    by_cases hT : T' = T
    · subst hT
      rw [AList.lookup_erase]
      refine eq_nil_iff_forall_not_mem.mpr fun j hj => ?_
      obtain ⟨hlive, hne⟩ := mem_filter.mp (Channel.mem_idsOf.mp hj)
      exact absurd (he.1 j hlive) (by simpa using hne)
    · rw [AList.lookup_erase_ne hT]
      -- the removed reader has another type, so nothing changes for this one
      have hids : (s.live.filter (·.1 ≠ id)).filter (·.2 = T') = s.live.filter (·.2 = T') := by
        rw [List.filter_filter]
        refine filter_congr fun p hp => ?_
        by_cases hp2 : p.2 = T'
        · have hp1 : p.1 ≠ id := fun heq =>
            hT (h.type_unique (hp2 ▸ heq ▸ h.live_added p hp) hadded)
          simp [hp1, hp2]
        · simp [hp2]
      simp only [Channel.idsOf, hids]
      exact hchain
  · refine h.first ?_
    simpa [removeListener] using hnone
  · intro r hr
    obtain ⟨r₀, hr₀, rfl⟩ := map_eq_some_iff.mp hr
    exact ⟨(h.wrapper r₀ hr₀).1.disconnect id, h.wrapper_remove hadded he hr₀⟩

/-- **A call under the condition keeps the registers in agreement.** -/
theorem Inv.step (he : Independent s e) (hstep : step s e = some s') : Inv s' := by
  cases e with
  | add T id => exact h.add he hstep
  | remove T id => exact h.remove he hstep

/-- A reader of another type, added when no reader of the first type is live, has no wrapper. -/
private theorem Inv.not_delivers_add (hc : c.Total) (he : ¬Independent s (.add T id))
    (hstep : IntraDispatcher.step s (.add T id) = some s') :
    ¬Delivers c s' := by
  simp only [Independent, not_forall, not_or, not_exists] at he
  obtain ⟨r, hr, hT, hnone⟩ := he
  rw [IntraDispatcher.step] at hstep
  split at hstep
  · simp at hstep
  obtain rfl := some.inj hstep
  refine not_delivers hc T id (by simp) (.inl ?_)
  rcases (h.wrapper r hr).2 with ⟨-, hrun⟩ | ⟨owner, -, howner⟩
  · simp [wrappers, msgListeners_addListener, mem_def.mp hr, hT, hrun]
  · exact absurd howner (hnone owner)

/-- A removal against the condition takes the handler of another reader, or the wrapper. -/
private theorem Inv.not_delivers_remove (hc : c.Total) (he : ¬Independent s (.remove T id))
    (hstep : IntraDispatcher.step s (.remove T id) = some s') : ¬Delivers c s' := by
  rw [IntraDispatcher.step] at hstep
  split at hstep
  case isFalse => simp at hstep
  rename_i hadded
  obtain rfl := some.inj hstep
  by_cases htype : ∀ j, (j, T) ∈ s.live → j = id
  · simp only [Independent, not_and, not_forall] at he
    obtain ⟨r, hr, hT, p, hp, hne⟩ := he htype
    refine not_delivers hc T p.1 ?_ (.inl ?_)
    · exact mem_map.mpr ⟨p, mem_filter.mpr ⟨hp, by simpa using hne⟩, rfl⟩
    · obtain ⟨hwf, hrun⟩ := h.wrapper r hr
      rcases hrun with ⟨hlive, -⟩ | ⟨owner, hrun, howner⟩
      · simp [hlive] at hp
      · have hid : owner = id := htype owner (hT ▸ howner)
        simp [wrappers, removeListener, mem_def.mp hr, hwf.run_disconnect, hrun, hid]
  · simp only [not_forall, exists_prop] at htype
    obtain ⟨j, hj, hne⟩ := htype
    refine not_delivers hc T j ?_ (.inr fun hmem => ?_)
    · exact mem_map.mpr ⟨(j, T), mem_filter.mpr ⟨hj, by simpa using hne⟩, rfl⟩
    · obtain ⟨T', handler, hlook, hrun⟩ := IntraDispatcher.mem_chainIds.mp hmem
      simp only [removeListener] at hlook
      have hT : T' ≠ T := by
        rintro rfl
        simp at hlook
      rw [AList.lookup_erase_ne hT] at hlook
      have hchain := h.chain T'
      rw [hlook] at hchain
      rw [hchain.2.1, Channel.mem_idsOf] at hrun
      exact hT (h.type_unique (h.live_added _ hrun) (h.live_added _ hj))

end

/-- **When messages are delivered.** For every sequence of registrations and removals of readers
of one channel, with different ids and removals of readers that were added before, and messages
whose serialization and parsing succeed: a following message calls each live reader once and
nobody else, after every part of the sequence, exactly when every call meets the condition. -/
theorem delivers_iff_independent (c : Codec Ty) (hc : c.Total) (es : List (Event Ty))
    (s : Channel Ty) (h : exec IntraDispatcher.step (init Ty) es = some s) :
    (∀ es', es' <+: es → ∀ s', exec IntraDispatcher.step (init Ty) es' = some s' →
      Delivers c s') ↔ AllSteps IntraDispatcher.step Independent (init Ty) es := by
  refine forall_prefix_iff_allSteps Inv (fun _ hs => hs.delivers hc)
    (fun _ _ _ hs he hstep => hs.step he hstep) (fun s e s' hs he hstep => ?_) inv_init h
  cases e with
  | add T id => exact hs.not_delivers_add hc he hstep
  | remove T id => exact hs.not_delivers_remove hc he hstep

/-- Types of messages with one message each. -/
def unitCodec (Ty : Type*) : Codec Ty where
  Msg := fun _ => Unit
  serialize := fun _ _ => some [0]
  parse := fun _ _ => some ()

theorem total_unitCodec (Ty : Type*) : (unitCodec Ty).Total where
  nonempty := fun _ => ⟨()⟩
  serialize := fun _ _ => ⟨[0], rfl, by simp, fun _ => ⟨(), rfl⟩⟩

/-- Readers of two types are added, and the only one of the second type is removed: the two others
get the messages. -/
theorem delivers_to_two_readers :
    ∃ s, exec IntraDispatcher.step (init Bool)
        [.add true 1, .add false 2, .add true 3, .remove false 2] = some s ∧
      s.live = [(1, true), (3, true)] ∧ Delivers (unitCodec Bool) s :=
  exists_exec_mono (P := fun s => s.live = [(1, true), (3, true)]) ⟨_, rfl, rfl⟩ fun _ hs hP =>
    ⟨hP, (delivers_iff_independent _ (total_unitCodec Bool) _ _ hs).mpr
      (by simp [AllSteps, IntraDispatcher.step, Independent, init, empty, addListener])
      _ prefix_rfl _ hs⟩

/-- **Removing one reader cuts off another.** Of two readers of one type, the one that stays gets
no message after the other was removed. -/
theorem removal_drops_other :
    (unitCodec Unit).Total ∧ ∃ s, exec IntraDispatcher.step (init Unit)
        [.add () 1, .add () 2, .remove () 1] = some s ∧
      s.live = [(2, ())] ∧ s.dispatcher.onMessage (unitCodec Unit) () () = [] :=
  ⟨total_unitCodec Unit, _, rfl, rfl, rfl⟩

end IntraDispatcher

end Cyber
