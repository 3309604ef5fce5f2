import Notebook.Cyber.Transport.HybridTransport
import Notebook.Interleaving.Run

/-!
# Readers and writers of a channel find each other

When a reader or a writer is initialised (`JoinTheTopology` in `node/reader.h` and `node/writer.h`),
it connects a listener to its `ChannelManager`, asks the manager for the registered peers, enables
each of them in its receiver or transmitter, and joins. The manager registers who joins, and then
calls the listeners that are connected, which enable the newcomer; when somebody leaves they disable
it. Roles of other processes are registered when their messages arrive. The steps of all roles are
interleaved.

All readers of a channel in one process share one receiver (`ReceiverManager`) and with it their
attributes. When one of them leaves, the writers disable the receiver, also for the readers that
remain.

## Main definitions

* `step` — the steps of `JoinTheTopology` and `LeaveTheTopology`.
* `Complete` — everybody who has asked has enabled all registered peers, or will do so.
* `KeepsShared` — no listener disables a receiver that is still in use.

## Main results

* `Inv.step`, `calls_complete_iff` — nobody is missed exactly while no shared receiver is disabled.
* `one_mode_of_joined` — a writer and a reader that have joined are connected in one mode.
-/

open Interleaving Function List Option

namespace Cyber.JoinTheTopology

open Hybrid

/-- `OperateType` -/
inductive OperateType
  | join
  | leave
deriving DecidableEq, Repr

/-- What `OnChannelChange` calls for a peer. -/
def OperateType.call : OperateType → EndpointAttributes → PeerCall
  | .join => .enable
  | .leave => .disable

/-- How far a role is. In `telling` the registry has changed, and the listeners are still to be
copied from the signal, or those in the list are still to be called; a role whose list is empty has
joined or left. -/
inductive Pc (E : Type*)
  | out
  | listening
  | enabling (peers : List E)
  | telling (op : OperateType) (listeners : Option (List E))
deriving DecidableEq, Repr

/-- The roles of one channel at the `ChannelManager` of a process. `calls` are the calls that were
made on the receiver or transmitter with the given attributes. -/
structure State (E : Type*) where
  registered : List E
  listeners : List E
  pc : E → Pc E
  calls : EndpointAttributes → List PeerCall

/-- A channel that nobody has joined. -/
def init (E : Type*) : State E := ⟨[], [], fun _ => .out, fun _ => []⟩

/-- The steps of `JoinTheTopology` and `LeaveTheTopology`. -/
inductive Event (E : Type*)
  | addChangeListener (e : E)
  | getPeers (e : E)
  | enable (e : E)
  | join (e : E)
  | copySlots (e : E)
  | onChannelChange (e : E)
  | removeChangeListener (e : E)
  | leave (e : E)
deriving DecidableEq, Repr

variable {E : Type*} (attr : E → EndpointAttributes)

/-- A call on the receiver or transmitter of a role. -/
def addCall (calls : EndpointAttributes → List PeerCall) (l : E) (c : PeerCall) :
    EndpointAttributes → List PeerCall :=
  update calls (attr l) (calls (attr l) ++ [c])

/-- The role `l` has enabled `x`. -/
def Enabled (calls : EndpointAttributes → List PeerCall) (l x : E) : Prop :=
  attr x ∈ enabledPeers (calls (attr l))

section Calls

variable {attr} {l x p : E} {c c' : PeerCall} {calls : EndpointAttributes → List PeerCall}

theorem enabled_addCall_self (hl : attr l = attr p) :
    Enabled attr (addCall attr calls p c) l x ↔
      attr x ∈ trackPeers (enabledPeers (calls (attr l))) c := by
  rw [Enabled, addCall, hl, update_self, enabledPeers, foldl_append]
  rfl

theorem enabled_addCall_of_ne (hl : attr l ≠ attr p) :
    Enabled attr (addCall attr calls p c) l x ↔ Enabled attr calls l x := by
  rw [Enabled, addCall, update_of_ne hl, Enabled]

theorem Enabled.addCall_enable (h : Enabled attr calls l x) (p : E) (peer : EndpointAttributes) :
    Enabled attr (addCall attr calls p (.enable peer)) l x := by
  by_cases hl : attr l = attr p
  · exact (enabled_addCall_self hl).mpr (Finset.mem_insert_of_mem h)
  · exact (enabled_addCall_of_ne hl).mpr h

theorem enabled_addCall_enable (hl : attr l = attr p) :
    Enabled attr (addCall attr calls p (.enable (attr x))) l x :=
  (enabled_addCall_self hl).mpr (Finset.mem_insert_self _ _)

theorem mem_addCall {a : EndpointAttributes} (h : c ∈ addCall attr calls l c' a) :
    c ∈ calls a ∨ c = c' := by
  by_cases ha : a = attr l
  · simpa [addCall, ha] using h
  · exact .inl (by simpa [addCall, ha] using h)

end Calls

variable [DecidableEq E] (writer own : E → Bool)

/-- The listener of `l` is called for a change of `e`; a listener that was disconnected since is
not. -/
def State.onChannelChange (s : State E) (l : E) (op : OperateType) (e : E) :
    EndpointAttributes → List PeerCall :=
  if l ∈ s.listeners ∧ writer e ≠ writer l then addCall attr s.calls l (op.call (attr e))
  else s.calls

/-- One step. A role of another process joins and leaves by its messages alone. `DisposeLeave`
removes every stored role that matches the one that leaves in its id and its node. Only two readers
of one node would match each other, and `Node::CreateReader` refuses the second one. -/
def step (s : State E) : Event E → Option (State E)
  | .addChangeListener e =>
    if own e ∧ s.pc e = .out then
      some { s with listeners := s.listeners ++ [e], pc := update s.pc e .listening }
    else none
  | .getPeers e =>
    if s.pc e = .listening then
      let peers := s.registered.filter fun x => writer x ≠ writer e
      some { s with pc := update s.pc e (.enabling peers) }
    else none
  | .enable e =>
    match s.pc e with
    | .enabling (x :: peers) =>
      some { s with
        pc := update s.pc e (.enabling peers), calls := addCall attr s.calls e (.enable (attr x)) }
    | _ => none
  | .join e =>
    if s.pc e = .enabling [] ∨ ¬own e ∧ s.pc e = .out then
      some { s with
        registered := s.registered ++ [e], pc := update s.pc e (.telling .join none) }
    else none
  | .copySlots e =>
    match s.pc e with
    | .telling op none => some { s with pc := update s.pc e (.telling op (some s.listeners)) }
    | _ => none
  | .onChannelChange e =>
    match s.pc e with
    | .telling op (some (l :: listeners)) =>
      some { s with
        pc := update s.pc e (.telling op (some listeners))
        calls := s.onChannelChange attr writer l op e }
    | _ => none
  | .removeChangeListener e =>
    if s.pc e = .telling .join (some []) then
      some { s with listeners := s.listeners.filter (· ≠ e) }
    else none
  | .leave e =>
    if s.pc e = .telling .join (some []) ∧ e ∉ s.listeners then
      some { s with
        registered := s.registered.filter (· ≠ e), pc := update s.pc e (.telling .leave none) }
    else none

/-! ### Who is known -/

/-- The role `l` hears of changes, and has asked for its peers. -/
def State.Asked (s : State E) (l : E) : Prop := l ∈ s.listeners ∧ s.pc l ≠ .listening

/-- The peer `x` is in the list that the role has asked for. -/
def Pc.willEnable (x : E) : Pc E → Bool
  | .enabling peers => x ∈ peers
  | _ => false

/-- The role has joined, and will call the listener of `l`. -/
def Pc.willTell (l : E) : Pc E → Bool
  | .telling .join none => true
  | .telling .join (some listeners) => l ∈ listeners
  | _ => false

/-- The role is registered. -/
def Pc.isRegistered : Pc E → Bool
  | .telling op _ => op = .join
  | _ => false

/-- The role `l` will enable `x`. -/
def Coming (pc : E → Pc E) (l x : E) : Prop := (pc l).willEnable x ∨ (pc x).willTell l
deriving Decidable

/-- Everybody who has asked has enabled all registered peers, or will do so. -/
def Complete (s : State E) : Prop :=
  ∀ l x, s.Asked l → x ∈ s.registered → writer x ≠ writer l →
    Enabled attr s.calls l x ∨ Coming s.pc l x

/-- When a listener disables the peer `e` that has left, every registered role with the attributes
of `e` will be enabled again. -/
def KeepsShared (s : State E) : Event E → Prop
  | .onChannelChange e =>
    match s.pc e with
    | .telling .leave (some (p :: _)) =>
      p ∈ s.listeners → writer e ≠ writer p → ∀ l x, attr l = attr p → attr x = attr e →
        s.Asked l → x ∈ s.registered → writer x ≠ writer l → Coming s.pc l x
    | _ => True
  | _ => True

instance (s : State E) (l : E) : Decidable (s.Asked l) := by
  unfold State.Asked
  infer_instance

instance [Fintype E] (s : State E) (a : Event E) : Decidable (KeepsShared attr writer s a) := by
  unfold KeepsShared
  split
  · split <;> infer_instance
  · infer_instance

section Steps

variable {attr writer own} {s s' : State E} {e l x p : E}

/-- A listener keeps what is enabled, unless it disables just that. -/
theorem Enabled.onChannelChange (h : Enabled attr s.calls l x) (p : E) (op : OperateType) (e : E) :
    Enabled attr (s.onChannelChange attr writer p op e) l x ∨
      op = .leave ∧ p ∈ s.listeners ∧ writer e ≠ writer p ∧ attr l = attr p ∧ attr x = attr e := by
  rw [State.onChannelChange]
  split_ifs with hp
  · cases op with
    | join => exact .inl (h.addCall_enable p _)
    | leave =>
      by_cases hl : attr l = attr p
      · by_cases hx : attr x = attr e
        · exact .inr ⟨rfl, hp.1, hp.2, hl, hx⟩
        · exact .inl ((enabled_addCall_self hl).mpr (Finset.mem_erase_of_ne_of_mem hx h))
      · exact .inl ((enabled_addCall_of_ne hl).mpr h)
  · exact .inl h

/-- The registry has those who have joined and not left, and everybody is known who ought to be. -/
structure Inv (attr : E → EndpointAttributes) (writer : E → Bool) (s : State E) : Prop where
  mem_registered : ∀ x, x ∈ s.registered ↔ (s.pc x).isRegistered
  complete : Complete attr writer s

/-- The listener that is called enables the newcomer. -/
theorem Inv.complete_join {listeners : List E} (hs : Inv attr writer s)
    (hpc : s.pc e = .telling .join (some (p :: listeners))) :
    Complete attr writer { s with
      pc := update s.pc e (.telling .join (some listeners))
      calls := s.onChannelChange attr writer p .join e } := by
  intro l x hasked hx hne
  have hasked' : s.Asked l := ⟨hasked.1, by grind [State.Asked]⟩
  by_cases hcalled : x = e ∧ l = p
  · obtain ⟨rfl, rfl⟩ := hcalled
    refine .inl ?_
    rw [State.onChannelChange, if_pos ⟨hasked'.1, hne⟩]
    exact enabled_addCall_enable rfl
  · refine (hs.complete l x hasked' hx hne).imp (fun henabled => ?_) fun hcoming => ?_
    · exact (henabled.onChannelChange p .join e).resolve_right fun h => by cases h.1
    · grind [Coming, Pc.willEnable, Pc.willTell]

/-- The listener that disables a role that has left keeps the others known. -/
theorem Inv.complete_leave {listeners : List E} (hs : Inv attr writer s)
    (hpc : s.pc e = .telling .leave (some (p :: listeners)))
    (hkeeps : KeepsShared attr writer s (.onChannelChange e)) :
    Complete attr writer { s with
      pc := update s.pc e (.telling .leave (some listeners))
      calls := s.onChannelChange attr writer p .leave e } := by
  rw [KeepsShared, hpc] at hkeeps
  intro l x hasked hx hne
  have hasked' : s.Asked l := ⟨hasked.1, by grind [State.Asked]⟩
  have hstays : Coming s.pc l x →
      Coming (update s.pc e (.telling .leave (some listeners))) l x := by
    grind [Coming, Pc.willEnable, Pc.willTell]
  rcases hs.complete l x hasked' hx hne with henabled | hcoming
  · refine (henabled.onChannelChange p .leave e).imp_right ?_
    rintro ⟨-, hp, hpe, hlp, hxe⟩
    exact hstays (hkeeps hp hpe l x hlp hxe hasked' hx hne)
  · exact .inr (hstays hcoming)

/-- A step keeps that everybody is known: a pair that is to be known afterwards was to be known
before, or is known by the step itself. -/
theorem Complete.of_known (hs : Complete attr writer s)
    (hknown : ∀ l x, Enabled attr s.calls l x ∨ Coming s.pc l x → s'.Asked l → x ∈ s'.registered →
      Enabled attr s'.calls l x ∨ Coming s'.pc l x)
    (hpairs : ∀ l x, s'.Asked l → x ∈ s'.registered → writer x ≠ writer l →
      s.Asked l ∧ x ∈ s.registered ∨ Coming s'.pc l x) : Complete attr writer s' := by
  intro l x hasked hx hne
  rcases hpairs l x hasked hx hne with ⟨hasked', hx'⟩ | hcoming
  · exact hknown l x (hs l x hasked' hx' hne) hasked hx
  · exact .inr hcoming

/-- A step leads from a state in which nobody is missed to such a state, unless it disables a role
that is still in use. -/
theorem Inv.step {a : Event E} (hs : Inv attr writer s) (hkeeps : KeepsShared attr writer s a)
    (h : step attr writer own s a = some s') : Inv attr writer s' := by
  have hregistered := hs.mem_registered
  cases a with
  | addChangeListener e =>
    -- the new listener has not asked
    obtain ⟨hpc, ⟨⟩⟩ := ite_none_right_eq_some.mp h
    refine ⟨by grind [Pc.isRegistered], hs.complete.of_known ?_ ?_⟩
    · grind [Coming, Pc.willEnable, Pc.willTell]
    · grind [State.Asked]
  | getPeers e =>
    -- the role that asks will enable all that are registered
    obtain ⟨hpc, ⟨⟩⟩ := ite_none_right_eq_some.mp h
    refine ⟨by grind [Pc.isRegistered], hs.complete.of_known ?_ ?_⟩
    · grind [Coming, Pc.willEnable, Pc.willTell]
    · grind [State.Asked, Coming, Pc.willEnable]
  | enable e =>
    simp only [JoinTheTopology.step] at h
    split at h <;> obtain ⟨⟩ := h
    rename_i peer peers hpc
    refine ⟨by grind [Pc.isRegistered], hs.complete.of_known ?_ ?_⟩
    · rintro l x (henabled | hcoming) - -
      · exact .inl (henabled.addCall_enable e _)
      · grind [Coming, Pc.willEnable, Pc.willTell, enabled_addCall_enable]
    · grind [State.Asked]
  | join e =>
    -- the listeners will be told of the newcomer
    obtain ⟨hpc, ⟨⟩⟩ := ite_none_right_eq_some.mp h
    refine ⟨by grind [Pc.isRegistered], hs.complete.of_known ?_ ?_⟩
    · grind [Coming, Pc.willEnable, Pc.willTell]
    · grind [State.Asked, Coming, Pc.willTell]
  | copySlots e =>
    -- everybody who has asked is among the listeners that are copied
    simp only [JoinTheTopology.step] at h
    split at h <;> obtain ⟨⟩ := h
    rename_i op hpc
    refine ⟨by grind [Pc.isRegistered], hs.complete.of_known ?_ ?_⟩
    · grind [State.Asked, Coming, Pc.willEnable, Pc.willTell]
    · grind [State.Asked]
  | onChannelChange e =>
    simp only [JoinTheTopology.step] at h
    split at h <;> obtain ⟨⟩ := h
    rename_i op p listeners hpc
    refine ⟨by grind [Pc.isRegistered], ?_⟩
    cases op with
    | join => exact hs.complete_join hpc
    | leave => exact hs.complete_leave hpc hkeeps
  | removeChangeListener e =>
    obtain ⟨hpc, ⟨⟩⟩ := ite_none_right_eq_some.mp h
    exact ⟨hregistered, hs.complete.of_known (fun _ _ hknown _ _ => hknown)
      fun l x hasked hx _ => .inl ⟨⟨mem_of_mem_filter hasked.1, hasked.2⟩, hx⟩⟩
  | leave e =>
    obtain ⟨hpc, ⟨⟩⟩ := ite_none_right_eq_some.mp h
    refine ⟨by grind [Pc.isRegistered], hs.complete.of_known ?_ ?_⟩
    · grind [Coming, Pc.willEnable, Pc.willTell]
    · grind [State.Asked]

theorem not_complete_of_not_keepsShared {a : Event E} (hs : Inv attr writer s)
    (hkeeps : ¬KeepsShared attr writer s a) (h : step attr writer own s a = some s') :
    ¬Complete attr writer s' := by
  cases a with
  | onChannelChange e =>
    rw [KeepsShared] at hkeeps
    split at hkeeps
    · rename_i p listeners hpc
      push Not at hkeeps
      obtain ⟨hp, hpe, l, x, hlp, hxe, hasked, hx, hne, hcoming⟩ := hkeeps
      rw [JoinTheTopology.step, hpc] at h
      obtain ⟨⟩ := h
      intro hcomplete
      rcases hcomplete l x ⟨hasked.1, by grind [State.Asked]⟩ hx hne with henabled | hcoming'
      · simp only [State.onChannelChange, if_pos (And.intro hp hpe)] at henabled
        exact Finset.ne_of_mem_erase ((enabled_addCall_self hlp).mp henabled) hxe
      · have hreg := hs.mem_registered x
        exact hcoming (by grind [Coming, Pc.willEnable, Pc.willTell, Pc.isRegistered])
    · exact absurd trivial hkeeps
  | _ => exact absurd trivial hkeeps

end Steps

/-! ### Runs -/

variable {attr writer own} {s : State E} {es : List (Event E)}

theorem inv_init : Inv attr writer (init E) :=
  ⟨fun _ => by simp [init, Pc.isRegistered], fun _ _ hasked => absurd hasked.1 not_mem_nil⟩

/-- **Nobody is missed.** However the steps of the roles are interleaved, everybody who has asked
for the peers has enabled all registered ones, or will do so, exactly as long as no listener
disables the receiver or transmitter of a role that remains registered. -/
theorem calls_complete_iff (h : exec (step attr writer own) (init E) es = some s) :
    (∀ es', es' <+: es → ∀ s₁, exec (step attr writer own) (init E) es' = some s₁ →
        Complete attr writer s₁) ↔
      AllSteps (step attr writer own) (KeepsShared attr writer) (init E) es :=
  forall_prefix_iff_allSteps (Inv attr writer) (fun _ hs => hs.complete)
    (fun _ _ _ hs hkeeps hstep => hs.step hkeeps hstep)
    (fun _ _ _ hs hkeeps hstep => not_complete_of_not_keepsShared hs hkeeps hstep) inv_init h

/-- A writer (`true`) and a reader on different hosts. -/
def pair (e : Bool) : EndpointAttributes :=
  ⟨e.toNat, "channel", if e then "10.0.0.1" else "10.0.0.2", 7⟩

/-- The role `e` joins in its process; the other one is registered just after `e` has asked. -/
def joining (e : Bool) : List (Event Bool) :=
  [.addChangeListener e, .getPeers e, .join !e, .copySlots !e, .onChannelChange !e, .join e,
    .copySlots e, .onChannelChange e]

/-- The reader leaves the writer. -/
theorem complete_of_reader_leaves : ∃ s, exec (step pair id id) (init Bool)
    (joining true ++ [.leave false, .copySlots false, .onChannelChange false]) = some s ∧
    Complete pair id s :=
  exists_exec_mono (P := fun _ => AllSteps (step pair id id) (KeepsShared pair id) (init Bool) _)
    (by decide +kernel) fun s hs hkeeps =>
      (calls_complete_iff hs).mpr hkeeps _ prefix_rfl s hs

/-- A role that has joined, and listens if it is one of the process. -/
def State.Joined (s : State E) (own : E → Bool) (x : E) : Prop :=
  s.pc x = .telling .join (some []) ∧ (own x → x ∈ s.listeners)

instance (s : State E) (own : E → Bool) (x : E) : Decidable (s.Joined own x) := by
  unfold State.Joined
  infer_instance

section

variable (h : exec (step attr writer own) (init E) es = some s)

include h

theorem enabled_of_joined
    (hkeeps : AllSteps (step attr writer own) (KeepsShared attr writer) (init E) es) {l x : E}
    (hl : s.Joined own l) (hown : own l) (hx : s.Joined own x) (hne : writer x ≠ writer l) :
    Enabled attr s.calls l x := by
  have hs : Inv attr writer s := exec_invariant_of_allSteps (Inv attr writer)
    (fun _ _ _ hs hkeeps hstep => hs.step hkeeps hstep) inv_init hkeeps h
  have hasked : s.Asked l := ⟨hl.2 hown, by simp [hl.1]⟩
  have hregistered := (hs.mem_registered x).mpr (by rw [hx.1]; rfl)
  refine (hs.complete l x hasked hregistered hne).resolve_right ?_
  simp [Coming, hl.1, hx.1, Pc.willEnable, Pc.willTell]

/-- Receivers and transmitters are called for roles. -/
theorem exists_peer_eq : ∀ a, ∀ c ∈ s.calls a, ∃ x, c.peer = attr x := by
  refine exec_invariant (fun s => ∀ a, ∀ c ∈ s.calls a, ∃ x, c.peer = attr x) ?_
    (fun _ _ hc => absurd hc not_mem_nil) h
  intro s e s' hs hstep a c hc
  revert hstep
  fun_cases step attr writer own s e <;> rintro ⟨⟩ <;> try exact hs a c hc
  · rcases mem_addCall hc with hc | rfl
    · exact hs a c hc
    · exact ⟨_, rfl⟩
  · rename_i op l _ _
    simp only [State.onChannelChange] at hc
    split_ifs at hc
    · rcases mem_addCall hc with hc | rfl
      · exact hs a c hc
      · cases op <;> exact ⟨_, rfl⟩
    · exact hs a c hc

theorem fixedAttributes_calls (hid : ∀ x y, (attr x).id = (attr y).id → attr x = attr y)
    (a : EndpointAttributes) : FixedAttributes (s.calls a) := by
  refine fixedAttributes_iff.mpr fun c hc c' hc' heq => ?_
  obtain ⟨x, hx⟩ := exists_peer_eq h a c hc
  obtain ⟨y, hy⟩ := exists_peer_eq h a c' hc'
  rw [hx, hy] at heq ⊢
  exact hid x y heq

end

/-- **A writer and a reader are connected.** The roles are of one channel, and roles with equal ids
have equal attributes. Let a writer have joined in its process and a reader in its own, and let each
have been registered in the process of the other, in runs in which nobody is missed. Then there is
exactly one mode in which the writer sends and the reader listens for it. -/
theorem one_mode_of_joined (conf : Option TransportConf)
    (hid : ∀ x y, (attr x).id = (attr y).id → attr x = attr y)
    (hchannel : ∀ x y, (attr x).channelName = (attr y).channelName)
    (h : exec (step attr writer own) (init E) es = some s)
    (hkeeps : AllSteps (step attr writer own) (KeepsShared attr writer) (init E) es)
    {own' : E → Bool} {es' : List (Event E)} {s' : State E}
    (h' : exec (step attr writer own') (init E) es' = some s')
    (hkeeps' : AllSteps (step attr writer own') (KeepsShared attr writer) (init E) es')
    {w r : E} (hne : writer w ≠ writer r) (hw : own w) (hr : own' r)
    (hjoined : s.Joined own w ∧ s.Joined own r) (hjoined' : s'.Joined own' w ∧ s'.Joined own' r) :
    ∃! m, (HybridTransmitter.run conf (attr w) (s.calls (attr w))).IsEnabled m ∧
      (attr w).id ∈ (HybridReceiver.run conf (attr r) (s'.calls (attr r))).listening m := by
  have hreader := enabled_of_joined h hkeeps hjoined.1 hw hjoined.2 hne.symm
  have hwriter := enabled_of_joined h' hkeeps' hjoined'.2 hr hjoined'.1 hne
  have hfixed := fixedAttributes_calls h' hid (attr r)
  have htransmitter := transmitterInv_run conf (attr w) (fixedAttributes_calls h hid (attr w))
  have hreceiver := receiverInv_run conf (attr r) hfixed
  obtain ⟨m, hm⟩ := exists_modeOf (.obtainConfig conf) (hchannel w r)
  have hlistening : ∀ k,
      (attr w).id ∈ (HybridReceiver.run conf (attr r) (s'.calls (attr r))).listening k ↔ k = m := by
    intro k
    rw [hreceiver.mem_listening_iff hwriter (hfixed.eq_of_enabled hwriter), modeOf_comm, hm,
      some_inj, eq_comm]
  exact ⟨m, ⟨htransmitter.isEnabled_iff.mpr ⟨_, hreader, hm⟩, (hlistening m).mpr rfl⟩,
    fun k hk => (hlistening k).mp hk.2⟩

/-- The pair, each in a process of its own. -/
theorem one_mode_of_pair : ∃ s s', exec (step pair id id) (init Bool) (joining true) = some s ∧
    exec (step pair id not) (init Bool) (joining false) = some s' ∧
    ∃! m, (HybridTransmitter.run none (pair true) (s.calls (pair true))).IsEnabled m ∧
      1 ∈ (HybridReceiver.run none (pair false) (s'.calls (pair false))).listening m := by
  obtain ⟨s, hs, hkeeps, hjoined⟩ : ∃ s, exec (step pair id id) (init Bool) (joining true) =
      some s ∧ AllSteps (step pair id id) (KeepsShared pair id) (init Bool) (joining true) ∧
      ∀ x, s.Joined id x := by decide +kernel
  obtain ⟨s', hs', hkeeps', hjoined'⟩ : ∃ s, exec (step pair id not) (init Bool) (joining false) =
      some s ∧ AllSteps (step pair id not) (KeepsShared pair id) (init Bool) (joining false) ∧
      ∀ x, s.Joined not x := by decide +kernel
  exact ⟨s, s', hs, hs', one_mode_of_joined none (by decide) (by decide) hs hkeeps hs' hkeeps'
    (by decide) rfl rfl ⟨hjoined true, hjoined false⟩ ⟨hjoined' true, hjoined' false⟩⟩

end Cyber.JoinTheTopology
