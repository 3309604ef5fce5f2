import Notebook.Container.NestedMap
import Notebook.Cyber.Transport.Message.ListenerHandler
import Notebook.Interleaving.Run

/-!
# Listener handlers with listeners for single peers

A `ListenerHandler` (`transport/message/listener_handler.h`) calls some listeners for every message
and others only for the messages of one peer: besides the signal of a `Cyber.ListenerHandler` it has
a signal for each peer, and the connections to these by the id of the peer and the id of the reader.

Connecting an id again appends a slot and replaces the connection in the map. `Disconnect` removes
the slot of the connection in the map only, so an older listener of the same id is called ever
after.

Listeners are given by numbers. A message is given by the hash of its sender's id.

## Main definitions

* `PeerListenerHandler.run` — the listeners that a message calls.
* `AsExpected` — a message reaches the listeners that are connected, once each.
* `SingleConn` — an id that is disconnected has at most one connection.

## Main results

* `PeerListenerHandler.run_fst` — a message calls the slots for all messages and for its sender.
* `asExpected_iff` — listeners are called as expected exactly with single connections.
-/

open Container Interleaving List Option

namespace Cyber

instance : Inhabited Signal := ⟨.empty⟩

/-- `Connect` of any listener. -/
def ListenerHandler.connectListener (h : ListenerHandler) (selfId listener : ℕ) :
    ListenerHandler :=
  let r := h.signal.connect listener
  ⟨r.2, h.signalConns.insert selfId r.1⟩

/-- A `ListenerHandler` with the signals and the connections for single peers. -/
structure PeerListenerHandler extends ListenerHandler where
  signals : Map ℕ Signal
  signalsConns : Map ℕ (Map ℕ ℕ)

namespace PeerListenerHandler

/-- A new handler. -/
def empty : PeerListenerHandler := ⟨.empty, ∅, ∅⟩

variable (h : PeerListenerHandler) (selfId oppoId listener : ℕ)

/-- `Connect(self_id, listener)` -/
def connect : PeerListenerHandler :=
  { h with toListenerHandler := h.toListenerHandler.connectListener selfId listener }

/-- `Connect(self_id, oppo_id, listener)` -/
def connectPeer : PeerListenerHandler :=
  let signals := if oppoId ∈ h.signals then h.signals else h.signals.insert oppoId .empty
  let r := (valueAt signals oppoId).connect listener
  let signalsConns :=
    if oppoId ∈ h.signalsConns then h.signalsConns else h.signalsConns.insert oppoId ∅
  { h with
    signals := signals.insert oppoId r.2
    signalsConns := signalsConns.insert oppoId ((valueAt signalsConns oppoId).insert selfId r.1) }

/-- `Disconnect(self_id)` -/
def disconnect : PeerListenerHandler :=
  { h with toListenerHandler := h.toListenerHandler.disconnect selfId }

/-- `Disconnect(self_id, oppo_id)` -/
def disconnectPeer : PeerListenerHandler :=
  match h.signalsConns.lookup oppoId with
  | none => h
  | some conns =>
    match conns.lookup selfId with
    | none => h
    | some addr =>
      { h with
        signals := h.signals.insert oppoId ((valueAt h.signals oppoId).disconnect addr)
        signalsConns := h.signalsConns.insert oppoId (conns.erase selfId) }

/-- `Run` for a message whose sender has the hash `oppoId`: the listeners that are called. A signal
forgets its disconnected slots after it was called. -/
def run : List ℕ × PeerListenerHandler :=
  let called := h.signal.call
  let h := { h with signal := h.signal.clearDisconnectedSlots }
  match h.signals.lookup oppoId with
  | none => (called, h)
  | some signal =>
    (called ++ signal.call,
      { h with signals := h.signals.insert oppoId signal.clearDisconnectedSlots })

/-- The signal and the connections for a peer, or for all messages. -/
def board : Option ℕ → ListenerHandler
  | none => h.toListenerHandler
  | some oppoId => ⟨valueAt h.signals oppoId, valueAt h.signalsConns oppoId⟩

variable {h selfId oppoId listener} {k : Option ℕ}

theorem board_empty : empty.board k = .empty := by
  cases k <;> rfl

theorem board_connect : (h.connect selfId listener).board k =
    if k = none then (h.board none).connectListener selfId listener else h.board k := by
  cases k <;> rfl

theorem board_connectPeer : (h.connectPeer selfId oppoId listener).board k =
    if k = some oppoId then (h.board (some oppoId)).connectListener selfId listener
    else h.board k := by
  have hsignals : ∀ i, valueAt (if oppoId ∈ h.signals then h.signals else
      h.signals.insert oppoId .empty) i = valueAt h.signals i := valueAt_enter h.signals oppoId
  have hconns : ∀ i, valueAt (if oppoId ∈ h.signalsConns then h.signalsConns else
      h.signalsConns.insert oppoId ∅) i = valueAt h.signalsConns i :=
    valueAt_enter h.signalsConns oppoId
  cases k with
  | none => rfl
  | some i =>
    by_cases hi : i = oppoId
    · subst hi
      simp [board, connectPeer, ListenerHandler.connectListener, hsignals, hconns]
    · simp [board, connectPeer, valueAt_insert_of_ne _ _ hi, hsignals, hconns, hi]

theorem board_disconnect : (h.disconnect selfId).board k =
    if k = none then (h.board none).disconnect selfId else h.board k := by
  cases k <;> rfl

theorem board_disconnectPeer : (h.disconnectPeer selfId oppoId).board k =
    if k = some oppoId then (h.board (some oppoId)).disconnect selfId else h.board k := by
  cases k with
  | none =>
    unfold disconnectPeer
    split
    · rfl
    · split <;> rfl
  | some i =>
    by_cases hi : i = oppoId
    · subst hi
      rw [if_pos rfl, ListenerHandler.disconnect, disconnectPeer]
      cases hconns : h.signalsConns.lookup i with
      | none =>
        simp only [board, valueAt, hconns, getD_none]
        rfl
      | some conns =>
        cases haddr : conns.lookup selfId with
        | none | some => simp [board, valueAt_of_lookup hconns, haddr]
    · rw [if_neg (by simpa using hi)]
      unfold disconnectPeer
      split
      · rfl
      · split
        · rfl
        · simp [board, valueAt_insert_of_ne _ _ hi]

/-- A message reaches the listeners for all messages and those for its sender. -/
theorem run_fst :
    (h.run oppoId).1 = (h.board none).signal.call ++ (h.board (some oppoId)).signal.call := by
  simp only [run, board, valueAt]
  cases h.signals.lookup oppoId with
  | none => exact (append_nil _).symm
  | some signal => rfl

theorem board_run (hclear : ∀ k, (h.board k).signal.clearDisconnectedSlots = (h.board k).signal) :
    (h.run oppoId).2.board k = h.board k := by
  have hall : h.signal.clearDisconnectedSlots = h.signal := hclear none
  simp only [run, hall]
  cases hsignal : h.signals.lookup oppoId with
  | none => rfl
  | some signal =>
    have hpeer : signal.clearDisconnectedSlots = signal := by
      have hvalue := hclear (some oppoId)
      rwa [board, valueAt_of_lookup hsignal] at hvalue
    cases k with
    | none => rfl
    | some i =>
      by_cases hi : i = oppoId
      · subst hi
        simp [board, hpeer, valueAt_of_lookup hsignal]
      · simp [board, valueAt_insert_of_ne _ _ hi]

end PeerListenerHandler

/-! ### One signal -/

/-- The slots of a signal, tagged with the ids that they were connected for, are the connections of
the list `live`. The connection in the map of an id is the last one that was made for it. -/
structure Tagged (b : ListenerHandler) (live : List (ℕ × ℕ)) (tagged : List (ℕ × Slot)) : Prop where
  slots : b.signal.slots = tagged.map Prod.snd
  live : live = tagged.map fun t => (t.1, t.2.cb)
  connected : ∀ t ∈ tagged, t.2.connected = true
  addr_lt : ∀ t ∈ tagged, t.2.addr < b.signal.next
  nodup : (tagged.map fun t => t.2.addr).Nodup
  lookup : ∀ selfId, b.signalConns.lookup selfId =
    ((tagged.filter fun t => t.1 = selfId).getLast?).map fun t => t.2.addr

variable {b : ListenerHandler} {live : List (ℕ × ℕ)} {tagged : List (ℕ × Slot)}
  {selfId listener : ℕ}

theorem tagged_empty : Tagged .empty [] [] where
  slots := rfl
  live := rfl
  connected := fun _ h => absurd h not_mem_nil
  addr_lt := fun _ h => absurd h not_mem_nil
  nodup := nodup_nil
  lookup := fun _ => rfl

section

variable (h : Tagged b live tagged)

include h

theorem Tagged.slots_connected : ∀ slot ∈ b.signal.slots, slot.connected = true := by
  intro slot hslot
  rw [h.slots] at hslot
  obtain ⟨t, ht, rfl⟩ := mem_map.mp hslot
  exact h.connected t ht

theorem Tagged.call_eq : b.signal.call = live.map Prod.snd := by
  rw [Signal.call, List.filter_eq_self.mpr h.slots_connected, h.slots, h.live, List.map_map,
    List.map_map]
  rfl

theorem Tagged.clear_eq : b.signal.clearDisconnectedSlots = b.signal := by
  rw [Signal.clearDisconnectedSlots, filter_eq_self.mpr h.slots_connected]

theorem Tagged.connect : Tagged (b.connectListener selfId listener) (live ++ [(selfId, listener)])
      (tagged ++ [(selfId, ⟨b.signal.next, listener, true⟩)]) where
  slots := by
    rw [map_append, ← h.slots]
    rfl
  live := by
    rw [map_append, ← h.live]
    rfl
  connected := by
    intro t ht
    rcases mem_append.mp ht with ht | ht
    · exact h.connected t ht
    · rw [mem_singleton.mp ht]
  addr_lt := by
    intro t ht
    rcases mem_append.mp ht with ht | ht
    · exact Nat.lt_succ_of_lt (h.addr_lt t ht)
    · rw [mem_singleton.mp ht]
      exact Nat.lt_succ_self _
  nodup := by
    rw [map_append]
    refine nodup_append.mpr ⟨h.nodup, nodup_singleton _, fun a ha a' ha' => ?_⟩
    obtain ⟨t, ht, rfl⟩ := mem_map.mp ha
    rw [mem_singleton.mp ha']
    exact (h.addr_lt t ht).ne
  lookup := by
    intro id
    rw [filter_append]
    by_cases hid : id = selfId
    · subst hid
      simp [ListenerHandler.connectListener, Signal.connect]
    · rw [ListenerHandler.connectListener, AList.lookup_insert_ne hid, h.lookup,
        filter_singleton]
      simp [Ne.symm hid]

theorem Tagged.exists_last {addr : ℕ} (haddr : b.signalConns.lookup selfId = some addr) :
    ∃ t ∈ tagged, t.1 = selfId ∧ t.2.addr = addr := by
  rw [h.lookup, map_eq_some_iff] at haddr
  obtain ⟨t, ht, haddr⟩ := haddr
  obtain ⟨ht, hself⟩ := mem_filter.mp (mem_of_getLast? ht)
  exact ⟨t, ht, of_decide_eq_true hself, haddr⟩

theorem Tagged.slots_disconnect {addr : ℕ} : (b.signal.disconnect addr).slots =
      (tagged.filter fun t => t.2.addr ≠ addr).map Prod.snd := by
  rw [ListenerHandler.slots_disconnect h.slots_connected, h.slots, List.filter_map]
  rfl

theorem Tagged.filter_live (p : ℕ → Bool) :
    (live.filter fun c => p c.1) = (tagged.filter fun t => p t.1).map fun t => (t.1, t.2.cb) := by
  rw [h.live, List.filter_map]
  rfl

theorem Tagged.slots_disconnect_self (hle : (live.filter fun c => c.1 = selfId).length ≤ 1) :
    (b.disconnect selfId).signal.slots = (tagged.filter fun t => t.1 ≠ selfId).map Prod.snd := by
  rw [h.filter_live (· = selfId), length_map] at hle
  unfold ListenerHandler.disconnect
  split
  · next hnone =>
    rw [h.lookup, map_eq_none_iff, getLast?_eq_none_iff,
      filter_eq_nil_iff] at hnone
    rw [h.slots, filter_eq_self.mpr]
    exact fun t ht => decide_eq_true (by simpa using hnone t ht)
  · next addr haddr =>
    obtain ⟨t₀, ht₀, hself, rfl⟩ := h.exists_last haddr
    rw [h.slots_disconnect]
    refine congrArg _ (filter_congr fun t ht => decide_eq_decide.mpr (not_congr ⟨?_, ?_⟩))
    · intro heq
      rw [inj_on_of_nodup_map h.nodup ht ht₀ heq, hself]
    · intro hself'
      have hmem : ∀ t ∈ tagged, t.1 = selfId → t ∈ tagged.filter fun t => t.1 = selfId :=
        fun t ht h => mem_filter.mpr ⟨ht, decide_eq_true h⟩
      have hpos := length_pos_of_mem (hmem t ht hself')
      obtain ⟨t₁, ht₁⟩ := length_eq_one_iff.mp (le_antisymm hle hpos)
      rw [ht₁] at hmem
      rw [mem_singleton.mp (hmem t ht hself'), mem_singleton.mp (hmem t₀ ht₀ hself)]

theorem Tagged.disconnect (hle : (live.filter fun c => c.1 = selfId).length ≤ 1) :
    Tagged (b.disconnect selfId) (live.filter fun c => c.1 ≠ selfId)
      (tagged.filter fun t => t.1 ≠ selfId) where
  slots := h.slots_disconnect_self hle
  live := h.filter_live (· ≠ selfId)
  connected := fun t ht => h.connected t (mem_of_mem_filter ht)
  addr_lt := fun t ht => by
    rw [ListenerHandler.next_disconnect]
    exact h.addr_lt t (mem_of_mem_filter ht)
  nodup := h.nodup.sublist (filter_sublist.map _)
  lookup := by
    intro id
    rw [ListenerHandler.signalConns_disconnect, List.filter_filter]
    by_cases hid : id = selfId
    · subst hid
      simp
    · rw [AList.lookup_erase_ne hid, h.lookup]
      refine congrArg (fun l => (List.getLast? l).map _) (filter_congr fun t _ => ?_)
      by_cases ht : t.1 = id
      · simp [ht, hid]
      · simp [ht]

theorem Tagged.length_call_disconnect (hlt : 1 < (live.filter fun c => c.1 = selfId).length) :
    (b.disconnect selfId).signal.call.length + 1 = live.length := by
  rw [h.filter_live (· = selfId), length_map] at hlt
  unfold ListenerHandler.disconnect
  split
  · next hnone =>
    rw [h.lookup, map_eq_none_iff, getLast?_eq_none_iff] at hnone
    simp [hnone] at hlt
  · next addr haddr =>
    obtain ⟨t₀, ht₀, -, rfl⟩ := h.exists_last haddr
    have hkept : ∀ slot ∈ (b.signal.disconnect t₀.2.addr).slots, slot.connected = true := by
      intro slot hslot
      rw [h.slots_disconnect] at hslot
      obtain ⟨t, ht, rfl⟩ := mem_map.mp hslot
      exact h.connected t (mem_of_mem_filter ht)
    -- the addresses are different, so one slot has the address
    have hone : (tagged.countP fun t => t.2.addr = t₀.2.addr) = 1 := by
      have hcount := count_eq_one_of_mem h.nodup (mem_map_of_mem ht₀)
      rwa [List.count, countP_map] at hcount
    rw [Signal.call, filter_eq_self.mpr hkept, h.slots_disconnect, h.live, length_map,
      length_map, length_map, ← countP_eq_length_filter,
      length_eq_countP_add_countP (fun t => decide (t.2.addr = t₀.2.addr)), hone, add_comm]
    simp

end

/-! ### Histories -/

/-- A connection of a listener for an id, and for a peer if there is one. -/
structure Conn where
  selfId : ℕ
  oppoId : Option ℕ
  listener : ℕ
deriving DecidableEq, Repr

/-- The calls to a handler; `none` is for the overloads without `oppo_id`. -/
inductive HandlerCall
  | connect (selfId : ℕ) (oppoId : Option ℕ) (listener : ℕ)
  | disconnect (selfId : ℕ) (oppoId : Option ℕ)
  | run (oppoId : ℕ)
deriving DecidableEq, Repr

/-- The handler after a call. -/
def PeerListenerHandler.apply (h : PeerListenerHandler) : HandlerCall → PeerListenerHandler
  | .connect selfId none listener => h.connect selfId listener
  | .connect selfId (some oppoId) listener => h.connectPeer selfId oppoId listener
  | .disconnect selfId none => h.disconnect selfId
  | .disconnect selfId (some oppoId) => h.disconnectPeer selfId oppoId
  | .run oppoId => (h.run oppoId).2

/-- The connections that have been made and not disconnected, after a call. -/
def track (live : List Conn) : HandlerCall → List Conn
  | .connect selfId oppoId listener => live ++ [⟨selfId, oppoId, listener⟩]
  | .disconnect selfId oppoId =>
    live.filter fun c => ¬(c.selfId = selfId ∧ c.oppoId = oppoId)
  | .run _ => live

/-- A handler with the connections that have been made and not disconnected. -/
structure Tracked where
  handler : PeerListenerHandler
  live : List Conn

namespace Tracked

/-- A new handler. -/
def init : Tracked := ⟨.empty, []⟩

/-- One call. -/
def step (s : Tracked) (c : HandlerCall) : Option Tracked :=
  some ⟨s.handler.apply c, track s.live c⟩

/-- The ids and listeners that are connected for a peer, or for all messages. -/
def connsOf (live : List Conn) (k : Option ℕ) : List (ℕ × ℕ) :=
  (live.filter fun c => c.oppoId = k).map fun c => (c.selfId, c.listener)

/-- Every message reaches the listeners that are connected for all messages and for its sender, each
of them once. -/
def AsExpected (s : Tracked) : Prop := ∀ oppoId, (s.handler.run oppoId).1 =
  (connsOf s.live none).map Prod.snd ++ (connsOf s.live (some oppoId)).map Prod.snd

/-- An id that is disconnected has at most one connection. -/
def SingleConn (s : Tracked) : HandlerCall → Prop
  | .disconnect selfId oppoId =>
    (s.live.filter fun c => c.selfId = selfId ∧ c.oppoId = oppoId).length ≤ 1
  | _ => True

/-- Every signal has the slots of its connections. -/
def Inv (s : Tracked) : Prop :=
  ∀ k, ∃ tagged, Tagged (s.handler.board k) (connsOf s.live k) tagged

theorem inv_init : Inv init := fun _ => ⟨[], PeerListenerHandler.board_empty ▸ tagged_empty⟩

variable {s s' : Tracked} {c : HandlerCall} {live : List Conn} {selfId listener : ℕ}
  {oppoId k : Option ℕ}

theorem connsOf_connect : connsOf (track live (.connect selfId oppoId listener)) k =
    if k = oppoId then connsOf live oppoId ++ [(selfId, listener)] else connsOf live k := by
  by_cases hk : k = oppoId
  · subst hk
    simp [connsOf, track]
  · simp [connsOf, track, hk, Ne.symm hk]

theorem connsOf_disconnect : connsOf (track live (.disconnect selfId oppoId)) k =
    if k = oppoId then (connsOf live oppoId).filter fun c => c.1 ≠ selfId else connsOf live k := by
  by_cases hk : k = oppoId
  · subst hk
    rw [if_pos rfl, connsOf, connsOf, track, List.filter_map, List.filter_filter,
      List.filter_filter]
    refine congrArg _ (filter_congr fun c _ => ?_)
    by_cases hc : c.oppoId = k <;> simp [hc]
  · rw [if_neg hk, connsOf, connsOf, track, List.filter_filter]
    refine congrArg _ (filter_congr fun c _ => ?_)
    by_cases hc : c.oppoId = k <;> simp [hc, hk]

theorem length_filter_connsOf :
    ((connsOf live oppoId).filter fun c => c.1 = selfId).length =
      (live.filter fun c => c.selfId = selfId ∧ c.oppoId = oppoId).length := by
  rw [connsOf, List.filter_map, List.length_map, List.filter_filter]
  simp

theorem board_connect {h : PeerListenerHandler} :
    (h.apply (.connect selfId oppoId listener)).board k =
      if k = oppoId then (h.board oppoId).connectListener selfId listener else h.board k := by
  cases oppoId
  · exact PeerListenerHandler.board_connect
  · exact PeerListenerHandler.board_connectPeer

theorem board_disconnect {h : PeerListenerHandler} :
    (h.apply (.disconnect selfId oppoId)).board k =
      if k = oppoId then (h.board oppoId).disconnect selfId else h.board k := by
  cases oppoId
  · exact PeerListenerHandler.board_disconnect
  · exact PeerListenerHandler.board_disconnectPeer

theorem Inv.asExpected (hs : Inv s) : AsExpected s := by
  intro oppoId
  obtain ⟨_, hall⟩ := hs none
  obtain ⟨_, hpeer⟩ := hs (some oppoId)
  rw [PeerListenerHandler.run_fst, hall.call_eq, hpeer.call_eq]

theorem Inv.step (hs : Inv s) (hc : SingleConn s c) (h : step s c = some s') : Inv s' := by
  obtain rfl := some.inj h
  intro k
  obtain ⟨tagged, htagged⟩ := hs k
  cases c with
  | connect selfId oppoId listener =>
    simp only [board_connect, connsOf_connect]
    split_ifs with hk
    · subst hk
      exact ⟨_, htagged.connect⟩
    · exact ⟨tagged, htagged⟩
  | disconnect selfId oppoId =>
    simp only [board_disconnect, connsOf_disconnect]
    split_ifs with hk
    · subst hk
      exact ⟨_, htagged.disconnect (length_filter_connsOf.trans_le hc)⟩
    · exact ⟨tagged, htagged⟩
  | run oppoId =>
    refine ⟨tagged, ?_⟩
    have hclear : ∀ k, (s.handler.board k).signal.clearDisconnectedSlots =
        (s.handler.board k).signal := fun k => by
      obtain ⟨_, h⟩ := hs k
      exact h.clear_eq
    exact (PeerListenerHandler.board_run hclear).symm ▸ htagged

/-- A `Disconnect` of an id with two connections leaves a listener behind. -/
theorem Inv.not_asExpected (hs : Inv s) (hc : ¬SingleConn s c) (h : Tracked.step s c = some s') :
    ¬AsExpected s' := by
  obtain rfl := some.inj h
  cases c with
  | disconnect selfId oppoId =>
    have hlt : 1 < ((connsOf s.live oppoId).filter fun c => c.1 = selfId).length :=
      length_filter_connsOf ▸ not_le.mp hc
    intro hrun
    have hlength := congrArg List.length (hrun (oppoId.getD 0))
    simp only [PeerListenerHandler.run_fst, length_append, length_map, board_disconnect,
      connsOf_disconnect] at hlength
    -- the signals of other keys call what they should, the one of `oppoId` calls more
    have hmore : ((connsOf s.live oppoId).filter fun c => c.1 ≠ selfId).length <
        ((s.handler.board oppoId).disconnect selfId).signal.call.length := by
      obtain ⟨_, htagged⟩ := hs oppoId
      have hcall := htagged.length_call_disconnect hlt
      have hsum := length_eq_length_filter_add (l := connsOf s.live oppoId)
        fun c => decide (c.1 = selfId)
      simp only [ne_eq, decide_not]
      omega
    have hsame : ∀ k, (s.handler.board k).signal.call.length = (connsOf s.live k).length := by
      intro k
      obtain ⟨_, htagged⟩ := hs k
      rw [htagged.call_eq, length_map]
    cases oppoId with
    | none =>
      simp only [if_pos, reduceCtorEq, if_false, hsame] at hlength
      omega
    | some o =>
      simp only [getD_some, if_pos, reduceCtorEq, if_false, hsame] at hlength
      omega
  | _ => exact absurd trivial hc

/-- **Listeners are called as they are connected.** After every part of a history of calls, `Run`
calls exactly once each listener that has been connected, for all messages or for the sender, and
whose ids have not been disconnected since, and no other listener, exactly if every `Disconnect`
finds at most one such connection of its ids. -/
theorem asExpected_iff {cs : List HandlerCall} (h : exec Tracked.step init cs = some s) :
    (∀ cs', cs' <+: cs → ∀ s', exec Tracked.step init cs' = some s' → AsExpected s') ↔
      AllSteps Tracked.step SingleConn init cs :=
  forall_prefix_iff_allSteps Inv (fun _ hs => hs.asExpected) (fun _ _ _ hs hc h => hs.step hc h)
    (fun _ _ _ hs hc h => hs.not_asExpected hc h) inv_init h

instance (s : Tracked) : (c : HandlerCall) → Decidable (SingleConn s c)
  | .disconnect selfId oppoId => inferInstanceAs (Decidable
      ((s.live.filter fun c => c.selfId = selfId ∧ c.oppoId = oppoId).length ≤ 1))
  | .connect .. | .run _ => .isTrue trivial

/-- Two readers, one of them for a single peer; the second listener of a reader is called after the
first one was disconnected. -/
theorem run_after_reconnect : ∃ s : Tracked, exec Tracked.step init
    [.connect 1 none 10, .connect 2 (some 7) 20, .disconnect 1 none, .connect 1 none 11,
      .run 7] = some s ∧ (s.handler.run 7).1 = [11, 20] :=
  exists_exec_mono (P := fun s : Tracked => (connsOf s.live none).map Prod.snd ++
      (connsOf s.live (some 7)).map Prod.snd = [11, 20]) (by decide +kernel) fun s hs hexpected =>
    ((asExpected_iff hs).mpr (by decide +kernel) _ prefix_rfl s hs 7).trans hexpected

/-- An id that is connected twice and disconnected: its first listener is still called. -/
theorem run_after_disconnect : ∃ s : Tracked, exec Tracked.step init
    [.connect 1 none 10, .connect 1 none 11, .disconnect 1 none] = some s ∧
    s.live = [] ∧ (s.handler.run 0).1 = [10] := by
  decide +kernel

end Tracked

end Cyber
