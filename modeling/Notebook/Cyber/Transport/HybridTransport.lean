import Notebook.Container.NestedMap
import Mathlib.Data.Fintype.Basic

/-!
# Hybrid transmitters and receivers

A writer sends through a `HybridTransmitter` and a reader receives through a `HybridReceiver`
(`transport/transmitter/hybrid_transmitter.h`, `transport/receiver/hybrid_receiver.h`). Each of them
has one underlying transmitter or receiver for every communication mode of the configuration. The
mode for a peer depends on whether the peer is in the same process, in another process of the host,
or on another host. The transmitter of a mode is enabled with the first peer of the mode and
disabled with the last; the receiver of the mode is enabled and disabled for each peer alone.

An underlying receiver is given by the ids that its dispatcher has listeners for. Enabling and
disabling the underlying transmitters and receivers succeeds. The history messages of `Enable` go
through transmitters of their own and are left out, and so are `Enable()` and `Disable()` without a
peer. The mode `HYBRID` is carried by RTPS like the mode `RTPS`.

## Main definitions

* `HybridTransmitter`, `HybridReceiver` — the two ends, with `enable` and `disable`.
* `TransmitterInv`, `ReceiverInv` — their states, given the enabled peers.
* `Passes` — a message passes between the transmitter and the receiver of two modes.

## Main results

* `transmitterInv_run`, `receiverInv_run` — the invariants hold after all calls.
* `delivered_once_iff` — when a message passes exactly once.
-/

open Container Function List Option

namespace Cyber.Hybrid

/-- `OptionalMode` -/
inductive OptionalMode
  | hybrid
  | intra
  | shm
  | rtps
deriving DecidableEq, Repr

/-- What the transmitter or receiver of a mode uses. -/
inductive Transport
  | intra
  | shm
  | rtps
deriving DecidableEq, Repr

/-- The cases of `InitTransmitters` and `InitReceivers`. -/
def OptionalMode.transport : OptionalMode → Transport
  | .intra => .intra
  | .shm => .shm
  | .hybrid | .rtps => .rtps

/-- `CommunicationMode`; every field is optional. -/
structure CommunicationMode where
  sameProc : Option OptionalMode := none
  diffProc : Option OptionalMode := none
  diffHost : Option OptionalMode := none
deriving DecidableEq, Repr

/-- The part of `TransportConf` that is read here. -/
structure TransportConf where
  communicationMode : Option CommunicationMode := none
deriving DecidableEq, Repr

/-- `Relation` -/
inductive Relation
  | noRelation
  | diffHost
  | diffProc
  | sameProc
deriving DecidableEq, Repr

namespace CommunicationMode

variable (mode : CommunicationMode)

/-- `same_proc()` -/
def getSameProc : OptionalMode := mode.sameProc.getD .intra

/-- `diff_proc()` -/
def getDiffProc : OptionalMode := mode.diffProc.getD .shm

/-- `diff_host()` -/
def getDiffHost : OptionalMode := mode.diffHost.getD .rtps

/-- `mapping_table_`; there is no entry for `NO_RELATION`. -/
def mappingTable : Relation → Option OptionalMode
  | .noRelation => none
  | .sameProc => some mode.getSameProc
  | .diffProc => some mode.getDiffProc
  | .diffHost => some mode.getDiffHost

/-- The modes for which there is a transmitter or receiver. -/
def modes : Finset OptionalMode := {mode.getSameProc, mode.getDiffProc, mode.getDiffHost}

/-- `InitMode` and `ObtainConfig` -/
def obtainConfig : Option TransportConf → CommunicationMode
  | none => {}
  | some conf => conf.communicationMode.getD {}

end CommunicationMode

/-- The fields of `RoleAttributes` that are read here. -/
structure EndpointAttributes where
  id : ℕ
  channelName : String
  hostIp : String
  processId : ℤ
deriving DecidableEq, Repr

/-- `GetRelation`, which is the same function of a transmitter and of a receiver. -/
def getRelation (attr oppositeAttr : EndpointAttributes) : Relation :=
  if oppositeAttr.channelName ≠ attr.channelName then .noRelation
  else if oppositeAttr.hostIp ≠ attr.hostIp then .diffHost
  else if oppositeAttr.processId ≠ attr.processId then .diffProc
  else .sameProc

/-- The mode for a peer. -/
def modeOf (mode : CommunicationMode) (attr oppositeAttr : EndpointAttributes) :
    Option OptionalMode :=
  mode.mappingTable (getRelation attr oppositeAttr)

/-- An underlying transmitter. -/
structure Transmitter where
  transport : Transport
  enabled : Bool
deriving DecidableEq, Repr

/-- An underlying receiver, with the ids for which it listens. -/
structure Receiver where
  transport : Transport
  listening : List ℕ
deriving DecidableEq, Repr

/-- `HybridTransmitter`; the set of receivers of a mode without a transmitter is empty. -/
structure HybridTransmitter where
  attr : EndpointAttributes
  mode : CommunicationMode
  transmitters : OptionalMode → Option Transmitter
  receivers : OptionalMode → Finset ℕ

/-- `HybridReceiver` -/
structure HybridReceiver where
  attr : EndpointAttributes
  mode : CommunicationMode
  receivers : OptionalMode → Option Receiver
  transmitters : OptionalMode → Map ℕ EndpointAttributes

variable (conf : Option TransportConf)

namespace HybridTransmitter

/-- `HybridTransmitter::HybridTransmitter` -/
def init (attr : EndpointAttributes) : HybridTransmitter where
  attr
  mode := .obtainConfig conf
  transmitters := fun m =>
    if m ∈ (CommunicationMode.obtainConfig conf).modes then some ⟨m.transport, false⟩ else none
  receivers := fun _ => ∅

variable (t : HybridTransmitter) (oppositeAttr : EndpointAttributes)

/-- The transmitter of a mode is enabled or disabled. -/
def setEnabled (m : OptionalMode) (enabled : Bool) : HybridTransmitter :=
  { t with
    transmitters := update t.transmitters m
      ((t.transmitters m).map fun transmitter => { transmitter with enabled }) }

/-- `Enable` -/
def enable : HybridTransmitter :=
  match modeOf t.mode t.attr oppositeAttr with
  | none => t
  | some m =>
    let t := { t with
      receivers := update t.receivers m (insert oppositeAttr.id (t.receivers m)) }
    t.setEnabled m true

/-- `Disable` -/
def disable : HybridTransmitter :=
  match modeOf t.mode t.attr oppositeAttr with
  | none => t
  | some m =>
    let t := { t with
      receivers := update t.receivers m ((t.receivers m).erase oppositeAttr.id) }
    if t.receivers m = ∅ then t.setEnabled m false else t

end HybridTransmitter

namespace HybridReceiver

/-- `HybridReceiver::HybridReceiver` -/
def init (attr : EndpointAttributes) : HybridReceiver where
  attr
  mode := .obtainConfig conf
  receivers := fun m =>
    if m ∈ (CommunicationMode.obtainConfig conf).modes then some ⟨m.transport, []⟩ else none
  transmitters := fun _ => ∅

variable (r : HybridReceiver) (oppositeAttr : EndpointAttributes)

/-- The receiver of a mode changes the ids for which it listens. -/
def setListening (m : OptionalMode) (f : List ℕ → List ℕ) : HybridReceiver :=
  { r with
    receivers := update r.receivers m
      ((r.receivers m).map fun receiver => { receiver with listening := f receiver.listening }) }

/-- `Enable` -/
def enable : HybridReceiver :=
  match modeOf r.mode r.attr oppositeAttr with
  | none => r
  | some m =>
    if oppositeAttr.id ∉ r.transmitters m then
      let r := { r with
        transmitters := update r.transmitters m
          ((r.transmitters m).insert oppositeAttr.id oppositeAttr) }
      r.setListening m (oppositeAttr.id :: ·)
    else r

/-- `Disable` -/
def disable : HybridReceiver :=
  match modeOf r.mode r.attr oppositeAttr with
  | none => r
  | some m =>
    if oppositeAttr.id ∈ r.transmitters m then
      let r := { r with
        transmitters := update r.transmitters m
          ((r.transmitters m).erase oppositeAttr.id) }
      r.setListening m (·.erase oppositeAttr.id)
    else r

end HybridReceiver

/-! ### Both ends choose the same mode -/

theorem modeOf_comm (mode : CommunicationMode) (attr oppositeAttr : EndpointAttributes) :
    modeOf mode attr oppositeAttr = modeOf mode oppositeAttr attr := by
  simp only [modeOf, getRelation, ne_comm]

theorem mem_modes_of_modeOf {mode : CommunicationMode} {attr oppositeAttr : EndpointAttributes}
    {m : OptionalMode} (h : modeOf mode attr oppositeAttr = some m) : m ∈ mode.modes := by
  unfold modeOf at h
  cases hrelation : getRelation attr oppositeAttr <;>
    simp [hrelation, CommunicationMode.mappingTable] at h <;> simp [CommunicationMode.modes, h]

/-! ### Calls -/

/-- `Enable(opposite_attr)` and `Disable(opposite_attr)` -/
inductive PeerCall
  | enable (peer : EndpointAttributes)
  | disable (peer : EndpointAttributes)
deriving DecidableEq, Repr

/-- The peer of a call. -/
def PeerCall.peer : PeerCall → EndpointAttributes
  | .enable peer | .disable peer => peer

/-- The transmitter after a call. -/
def HybridTransmitter.apply (t : HybridTransmitter) : PeerCall → HybridTransmitter
  | .enable peer => t.enable peer
  | .disable peer => t.disable peer

/-- The receiver after a call. -/
def HybridReceiver.apply (r : HybridReceiver) : PeerCall → HybridReceiver
  | .enable peer => r.enable peer
  | .disable peer => r.disable peer

/-- The transmitter after a list of calls. -/
def HybridTransmitter.run (attr : EndpointAttributes) (cs : List PeerCall) : HybridTransmitter :=
  cs.foldl HybridTransmitter.apply (.init conf attr)

/-- The receiver after a list of calls. -/
def HybridReceiver.run (attr : EndpointAttributes) (cs : List PeerCall) : HybridReceiver :=
  cs.foldl HybridReceiver.apply (.init conf attr)

/-- The enabled peers after a call. -/
def trackPeers (S : Finset EndpointAttributes) : PeerCall → Finset EndpointAttributes
  | .enable peer => insert peer S
  | .disable peer => S.erase peer

/-- The peers that have been enabled and not disabled since. -/
def enabledPeers (cs : List PeerCall) : Finset EndpointAttributes := cs.foldl trackPeers ∅

/-- The peers of the calls in a list. -/
def calledPeers (cs : List PeerCall) : Set EndpointAttributes := {peer | ∃ c ∈ cs, c.peer = peer}

/-- The attributes of a peer are the same in all calls. -/
def FixedAttributes (cs : List PeerCall) : Prop :=
  (calledPeers cs).InjOn EndpointAttributes.id

theorem fixedAttributes_iff {cs : List PeerCall} : FixedAttributes cs ↔
    ∀ c ∈ cs, ∀ c' ∈ cs, c.peer.id = c'.peer.id → c.peer = c'.peer := by
  constructor
  · exact fun h c hc c' hc' => h ⟨c, hc, rfl⟩ ⟨c', hc', rfl⟩
  · rintro h _ ⟨c, hc, rfl⟩ _ ⟨c', hc', rfl⟩
    exact h c hc c' hc'

instance (cs : List PeerCall) : Decidable (FixedAttributes cs) :=
  decidable_of_iff' _ fixedAttributes_iff

section Runs

variable {σ : Type*} {S : Finset EndpointAttributes} {cs : List PeerCall} {s : σ}

theorem trackPeers_subset {peers : Set EndpointAttributes} {c : PeerCall} (hS : ↑S ⊆ peers)
    (hc : c.peer ∈ peers) : ↑(trackPeers S c) ⊆ peers := by
  cases c with
  | enable peer =>
    rw [trackPeers, Finset.coe_insert]
    exact Set.insert_subset hc hS
  | disable peer => exact (Finset.coe_subset.mpr (Finset.erase_subset peer S)).trans hS

/-- A property of the enabled peers and of a transmitter or receiver that every call keeps holds
after all calls. -/
theorem foldl_inv (apply : σ → PeerCall → σ) (peers : Set EndpointAttributes)
    (I : Finset EndpointAttributes → σ → Prop)
    (hstep : ∀ S s c, ↑S ⊆ peers → c.peer ∈ peers → I S s → I (trackPeers S c) (apply s c))
    (hcs : ∀ c ∈ cs, c.peer ∈ peers) (hS : ↑S ⊆ peers) (h : I S s) :
    I (cs.foldl trackPeers S) (cs.foldl apply s) := by
  induction cs generalizing S s with
  | nil => exact h
  | cons c cs ih =>
    rw [forall_mem_cons] at hcs
    exact ih hcs.2 (trackPeers_subset hS hcs.1) (hstep S s c hS hcs.1 h)

theorem enabledPeers_subset (cs : List PeerCall) : ↑(enabledPeers cs) ⊆ calledPeers cs :=
  foldl_inv (s := ()) (fun _ _ => ()) (calledPeers cs) (fun S _ => ↑S ⊆ calledPeers cs)
    (fun _ _ _ hS hc _ => trackPeers_subset hS hc) (fun c hc => ⟨c, hc, rfl⟩) (by simp) (by simp)

theorem FixedAttributes.eq_of_enabled (hcs : FixedAttributes cs) {peer : EndpointAttributes}
    (hpeer : peer ∈ enabledPeers cs) : ∀ q ∈ enabledPeers cs, q.id = peer.id → q = peer :=
  fun _ hq hid => hcs (enabledPeers_subset cs hq) (enabledPeers_subset cs hpeer) hid

end Runs

/-- The ids of the peers of a mode. -/
def peerIds (mode : CommunicationMode) (attr : EndpointAttributes) (S : Finset EndpointAttributes)
    (m : OptionalMode) : Finset ℕ :=
  (S.filter fun peer => modeOf mode attr peer = some m).image EndpointAttributes.id

section PeerIds

variable {mode : CommunicationMode} {attr peer : EndpointAttributes}
  {S : Finset EndpointAttributes} {m : OptionalMode} {id : ℕ}

theorem mem_peerIds :
    id ∈ peerIds mode attr S m ↔ ∃ peer ∈ S, modeOf mode attr peer = some m ∧ peer.id = id := by
  simp [peerIds, and_assoc]

theorem peerIds_insert_of_none (hnone : modeOf mode attr peer = none) :
    peerIds mode attr (insert peer S) = peerIds mode attr S := by
  funext k
  rw [peerIds, Finset.filter_insert, hnone, if_neg (some_ne_none k).symm, peerIds]

theorem peerIds_insert_of_some (hm : modeOf mode attr peer = some m) (k : OptionalMode) :
    peerIds mode attr (insert peer S) k =
      if k = m then insert peer.id (peerIds mode attr S m) else peerIds mode attr S k := by
  rw [peerIds, Finset.filter_insert, hm]
  by_cases hk : k = m
  · subst hk
    simp [peerIds]
  · simp [peerIds, hk, Ne.symm hk]

theorem peerIds_erase_of_ne {k : OptionalMode} (hk : modeOf mode attr peer ≠ some k) :
    peerIds mode attr (S.erase peer) k = peerIds mode attr S k := by
  ext id
  simp only [mem_peerIds, Finset.mem_erase]
  refine exists_congr fun q => and_congr_left fun hq => and_iff_right_of_imp fun _ => ?_
  rintro rfl
  exact hk hq.1

theorem peerIds_erase_of_some (hfixed : ∀ q ∈ S, q.id = peer.id → q = peer)
    (hm : modeOf mode attr peer = some m) (k : OptionalMode) :
    peerIds mode attr (S.erase peer) k =
      if k = m then (peerIds mode attr S m).erase peer.id else peerIds mode attr S k := by
  split_ifs with hk
  · subst hk
    ext id
    simp only [mem_peerIds, Finset.mem_erase]
    constructor
    · rintro ⟨q, ⟨hne, hq⟩, hqm, rfl⟩
      exact ⟨fun hid => hne (hfixed q hq hid), q, hq, hqm, rfl⟩
    · rintro ⟨hne, q, hq, hqm, rfl⟩
      exact ⟨q, ⟨fun h => hne (h ▸ rfl), hq⟩, hqm, rfl⟩
  · exact peerIds_erase_of_ne fun h => hk (some.inj (h.symm.trans hm))

end PeerIds

/-! ### The transmitter -/

/-- The transmitter of a mode is enabled, so that it sends the messages. -/
def HybridTransmitter.IsEnabled (t : HybridTransmitter) (m : OptionalMode) : Prop :=
  ∃ transmitter ∈ t.transmitters m, transmitter.enabled = true

/-- The transmitter of a mode is enabled while there is an enabled peer of the mode. -/
structure TransmitterInv (mode : CommunicationMode) (attr : EndpointAttributes)
    (S : Finset EndpointAttributes) (t : HybridTransmitter) : Prop where
  mode_eq : t.mode = mode
  attr_eq : t.attr = attr
  receivers : ∀ m, t.receivers m = peerIds mode attr S m
  transmitters : ∀ m, t.transmitters m = if m ∈ mode.modes then
    some ⟨m.transport, (peerIds mode attr S m).Nonempty⟩ else none

section Transmitter

variable {mode : CommunicationMode} {attr peer : EndpointAttributes}
  {S S' : Finset EndpointAttributes} {t : HybridTransmitter} {m : OptionalMode}

theorem TransmitterInv.of_update {t' : HybridTransmitter} {ids : Finset ℕ}
    (h : TransmitterInv mode attr S t) (hmode : t'.mode = t.mode) (hattr : t'.attr = t.attr)
    (hids : ∀ k, peerIds mode attr S' k = if k = m then ids else peerIds mode attr S k)
    (hreceivers : t'.receivers = update t.receivers m ids)
    (htransmitters : t'.transmitters =
      update t.transmitters m (some ⟨m.transport, ids.Nonempty⟩))
    (hm : m ∈ mode.modes) : TransmitterInv mode attr S' t' := by
  refine ⟨hmode.trans h.mode_eq, hattr.trans h.attr_eq, fun k => ?_, fun k => ?_⟩
  · rw [hreceivers, hids]
    by_cases hk : k = m
    · subst hk
      simp
    · simp [hk, h.receivers]
  · rw [htransmitters, hids]
    by_cases hk : k = m
    · subst hk
      simp [hm]
    · simp [hk, h.transmitters]

theorem TransmitterInv.enable (h : TransmitterInv mode attr S t) :
    TransmitterInv mode attr (insert peer S) (t.enable peer) := by
  have hmode : modeOf t.mode t.attr peer = modeOf mode attr peer := by rw [h.mode_eq, h.attr_eq]
  unfold HybridTransmitter.enable
  rw [hmode]
  split
  · next hnone =>
    have hids := peerIds_insert_of_none (S := S) hnone
    exact ⟨h.mode_eq, h.attr_eq, hids ▸ h.receivers, hids ▸ h.transmitters⟩
  · next m hm =>
    have hmem := mem_modes_of_modeOf hm
    refine h.of_update rfl rfl (peerIds_insert_of_some hm) ?_ ?_ hmem
    · rw [← h.receivers]
      rfl
    · simp [HybridTransmitter.setEnabled, h.transmitters, hmem]

theorem TransmitterInv.disable (h : TransmitterInv mode attr S t)
    (hfixed : ∀ q ∈ S, q.id = peer.id → q = peer) :
    TransmitterInv mode attr (S.erase peer) (t.disable peer) := by
  have hmode : modeOf t.mode t.attr peer = modeOf mode attr peer := by rw [h.mode_eq, h.attr_eq]
  unfold HybridTransmitter.disable
  rw [hmode]
  split
  · next hnone =>
    have hids : peerIds mode attr (S.erase peer) = peerIds mode attr S :=
      funext fun k => peerIds_erase_of_ne (hnone ▸ (some_ne_none k).symm)
    exact ⟨h.mode_eq, h.attr_eq, hids ▸ h.receivers, hids ▸ h.transmitters⟩
  · next m hm =>
    have hmem := mem_modes_of_modeOf hm
    have hids := peerIds_erase_of_some hfixed hm
    dsimp only
    split_ifs with hempty <;> rw [update_self, h.receivers] at hempty
    · refine h.of_update rfl rfl hids ?_ ?_ hmem
      · rw [← h.receivers]
        rfl
      · simp [HybridTransmitter.setEnabled, h.transmitters, hmem, hempty]
    · -- another peer of the mode is left, so the transmitter stays enabled
      have hleft := Finset.nonempty_iff_ne_empty.mpr hempty
      have hbefore := hleft.mono (Finset.erase_subset _ _)
      refine h.of_update rfl rfl hids ?_ (update_eq_self_iff.mpr ?_).symm hmem
      · rw [← h.receivers]
      · simp [h.transmitters, hmem, hleft, hbefore]

theorem transmitterInv_run {cs : List PeerCall} (attr : EndpointAttributes)
    (hcs : FixedAttributes cs) :
    TransmitterInv (.obtainConfig conf) attr (enabledPeers cs) (.run conf attr cs) := by
  refine foldl_inv _ (calledPeers cs) _ (fun S t c hS hc h => ?_) (fun c hc => ⟨c, hc, rfl⟩)
    (by simp) ⟨rfl, rfl, fun _ => rfl, fun _ => rfl⟩
  cases c with
  | enable peer => exact h.enable
  | disable peer => exact h.disable fun q hq hid => hcs (hS hq) hc hid

theorem TransmitterInv.isEnabled_iff (h : TransmitterInv mode attr S t) :
    t.IsEnabled m ↔ ∃ peer ∈ S, modeOf mode attr peer = some m := by
  have hids : (peerIds mode attr S m).Nonempty ↔ ∃ peer ∈ S, modeOf mode attr peer = some m := by
    simp [peerIds, Finset.filter_nonempty_iff]
  rw [HybridTransmitter.IsEnabled, h.transmitters, ← hids]
  constructor
  · rintro ⟨transmitter, htransmitter, henabled⟩
    split_ifs at htransmitter
    · obtain rfl := some.inj htransmitter
      exact of_decide_eq_true henabled
    · cases htransmitter
  · intro hne
    obtain ⟨peer, -, hpeer⟩ := hids.mp hne
    rw [if_pos (mem_modes_of_modeOf hpeer)]
    exact ⟨_, rfl, decide_eq_true hne⟩

end Transmitter

/-! ### The receiver -/

/-- The ids for which the receiver of a mode listens. -/
def HybridReceiver.listening (r : HybridReceiver) (m : OptionalMode) : List ℕ :=
  (r.receivers m).elim [] Receiver.listening

/-- The receiver of a mode listens once for each enabled peer of the mode. -/
structure ReceiverInv (mode : CommunicationMode) (attr : EndpointAttributes)
    (S : Finset EndpointAttributes) (r : HybridReceiver) : Prop where
  mode_eq : r.mode = mode
  attr_eq : r.attr = attr
  transmitters : ∀ m id, id ∈ r.transmitters m ↔ id ∈ peerIds mode attr S m
  transport : ∀ m, (r.receivers m).map Receiver.transport =
    if m ∈ mode.modes then some m.transport else none
  listening : ∀ m id, (r.listening m).count id = if id ∈ peerIds mode attr S m then 1 else 0

section Receiver

variable {mode : CommunicationMode} {attr peer : EndpointAttributes}
  {S S' : Finset EndpointAttributes} {r r' : HybridReceiver} {m : OptionalMode}

section

variable (h : ReceiverInv mode attr S r)

include h

theorem ReceiverInv.congr (hids : peerIds mode attr S' = peerIds mode attr S) :
    ReceiverInv mode attr S' r :=
  ⟨h.mode_eq, h.attr_eq, hids ▸ h.transmitters, h.transport, hids ▸ h.listening⟩

theorem ReceiverInv.of_update {ids : Finset ℕ} (f : List ℕ → List ℕ)
    (hmode : r'.mode = r.mode) (hattr : r'.attr = r.attr)
    (hids : ∀ k, peerIds mode attr S' k = if k = m then ids else peerIds mode attr S k)
    (hreceivers : r'.receivers = (r.setListening m f).receivers) (hm : m ∈ mode.modes)
    (hother : ∀ k, k ≠ m → r'.transmitters k = r.transmitters k)
    (htransmitters : ∀ id, id ∈ r'.transmitters m ↔ id ∈ ids)
    (hlistening : ∀ id, (f (r.listening m)).count id = if id ∈ ids then 1 else 0) :
    ReceiverInv mode attr S' r' := by
  obtain ⟨receiver, hreceiver, -⟩ :=
    map_eq_some_iff.mp ((h.transport m).trans (if_pos hm))
  refine ⟨hmode.trans h.mode_eq, hattr.trans h.attr_eq, fun k id => ?_, fun k => ?_, fun k id => ?_⟩
  · rw [hids]
    by_cases hk : k = m
    · subst hk
      simp [htransmitters]
    · simp [hk, hother k hk, h.transmitters]
  · rw [hreceivers, ← h.transport]
    by_cases hk : k = m
    · subst hk
      simp [HybridReceiver.setListening, hreceiver]
    · simp [HybridReceiver.setListening, hk]
  · rw [HybridReceiver.listening, hreceivers, hids]
    by_cases hk : k = m
    · subst hk
      have hcount := hlistening id
      rw [HybridReceiver.listening, hreceiver] at hcount
      simpa [HybridReceiver.setListening, hreceiver] using hcount
    · have hcount := h.listening k id
      rw [HybridReceiver.listening] at hcount
      simpa [HybridReceiver.setListening, hk] using hcount

theorem ReceiverInv.enable : ReceiverInv mode attr (insert peer S) (r.enable peer) := by
  have hmode : modeOf r.mode r.attr peer = modeOf mode attr peer := by rw [h.mode_eq, h.attr_eq]
  unfold HybridReceiver.enable
  rw [hmode]
  split
  · next hnone => exact h.congr (peerIds_insert_of_none hnone)
  · next m hm =>
    have hids := peerIds_insert_of_some (S := S) hm
    split_ifs with hold <;> rw [h.transmitters] at hold
    · refine h.congr (funext fun k => ?_)
      rw [hids k]
      split_ifs with hk
      · rw [hk, Finset.insert_eq_of_mem hold]
      · rfl
    · refine h.of_update (peer.id :: ·) rfl rfl hids rfl (mem_modes_of_modeOf hm) (fun k hk => ?_)
        (fun id => ?_) fun id => ?_
      · exact update_of_ne hk ..
      · simp [HybridReceiver.setListening, h.transmitters]
      · rw [count_cons, h.listening]
        by_cases hid : id = peer.id
        · subst hid
          simp [hold]
        · simp [hid, Ne.symm hid]

theorem ReceiverInv.disable (hfixed : ∀ q ∈ S, q.id = peer.id → q = peer) :
    ReceiverInv mode attr (S.erase peer) (r.disable peer) := by
  have hmode : modeOf r.mode r.attr peer = modeOf mode attr peer := by rw [h.mode_eq, h.attr_eq]
  unfold HybridReceiver.disable
  rw [hmode]
  split
  · next hnone =>
    exact h.congr (funext fun k => peerIds_erase_of_ne (hnone ▸ (some_ne_none k).symm))
  · next m hm =>
    have hids := peerIds_erase_of_some hfixed hm
    split_ifs with hold <;> rw [h.transmitters] at hold
    · refine h.of_update (·.erase peer.id) rfl rfl hids rfl (mem_modes_of_modeOf hm)
        (fun k hk => ?_) (fun id => ?_) fun id => ?_
      · exact update_of_ne hk ..
      · simp [HybridReceiver.setListening, h.transmitters]
      · by_cases hid : id = peer.id
        · subst hid
          simp [h.listening, hold]
        · rw [count_erase_of_ne hid, h.listening]
          simp [hid]
    · refine h.congr (funext fun k => ?_)
      rw [hids k]
      split_ifs with hk
      · rw [hk, Finset.erase_eq_of_notMem hold]
      · rfl

end

theorem receiverInv_init (attr : EndpointAttributes) :
    ReceiverInv (.obtainConfig conf) attr ∅ (.init conf attr) := by
  refine ⟨rfl, rfl, fun m id => ?_, fun m => ?_, fun m id => ?_⟩
  · simp [HybridReceiver.init, peerIds]
  · by_cases hm : m ∈ (CommunicationMode.obtainConfig conf).modes <;>
      simp [HybridReceiver.init, hm]
  · by_cases hm : m ∈ (CommunicationMode.obtainConfig conf).modes <;>
      simp [HybridReceiver.listening, HybridReceiver.init, hm, peerIds]

theorem receiverInv_run {cs : List PeerCall} (attr : EndpointAttributes)
    (hcs : FixedAttributes cs) :
    ReceiverInv (.obtainConfig conf) attr (enabledPeers cs) (.run conf attr cs) := by
  refine foldl_inv _ (calledPeers cs) _ (fun S r c hS hc h => ?_) (fun c hc => ⟨c, hc, rfl⟩)
    (by simp) (receiverInv_init conf attr)
  cases c with
  | enable peer => exact h.enable
  | disable peer => exact h.disable fun q hq hid => hcs (hS hq) hc hid

theorem ReceiverInv.mem_listening_iff (h : ReceiverInv mode attr S r) (hpeer : peer ∈ S)
    (hfixed : ∀ q ∈ S, q.id = peer.id → q = peer) :
    peer.id ∈ r.listening m ↔ modeOf mode attr peer = some m := by
  have hlistening : peer.id ∈ r.listening m ↔ peer.id ∈ peerIds mode attr S m := by
    rw [← count_pos_iff, h.listening]
    split_ifs with hmem <;> simp [hmem]
  rw [hlistening, mem_peerIds]
  constructor
  · rintro ⟨q, hq, hmode, hid⟩
    exact hfixed q hq hid ▸ hmode
  · exact fun hmode => ⟨peer, hpeer, hmode, rfl⟩

end Receiver

/-! ### Writers and readers -/

theorem exists_modeOf (mode : CommunicationMode) {attr peer : EndpointAttributes}
    (h : attr.channelName = peer.channelName) : ∃ m, modeOf mode attr peer = some m := by
  unfold modeOf getRelation
  rw [if_neg (not_not.mpr h.symm)]
  split_ifs <;> exact ⟨_, rfl⟩

end Cyber.Hybrid
