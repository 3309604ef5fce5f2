import Notebook.Container.MultiMap
import Notebook.Cyber.ServiceDiscovery.Graph

/-!
# The channel manager

`ChannelManager` (`service_discovery/specific_manager/channel_manager.cc`) keeps the writers and
the readers of all channels. Each role is stored twice, under the id of its node and under the id
of its channel, and the names of its node and its channel are a half-edge of the topology graph.
Changes come as messages: from the functions `Join` and `Leave` of this process, from other
processes (`OnRemoteChange`), and when a process disappears, as a `Leave` for each role that is
found to belong to it (`OnTopoModuleLeave`).

A `Leave` removes, in each of the two warehouses, the roles under the key of the message that match
its attributes (`RoleWriter::Match`): an attribute that the message does not carry matches
everything, but a key that it does not carry is `0`. The warehouses are unordered, so only their
contents count.

## Main definitions

* `ChannelManager` — the two warehouses of each side and the graph; `step` is a call.
* `Agree` — the two warehouses of each side hold the same roles.
* `Covers` — of the messages of a call that match a role, one carries the id of its node.

## Main results

* `Indexed.agree_step_iff` — a call keeps the agreement exactly if its messages cover the roles.
* `indexes_agree_iff` — the two indexes agree exactly along the runs of such calls.
-/

open Interleaving Function List Option

namespace Cyber

/-! ### Roles -/

/-- The fields of `RoleAttributes` that the managers read; every field is optional. -/
structure RoleAttributes where
  hostName : Option String := none
  processId : Option ℤ := none
  nodeName : Option String := none
  nodeId : Option ℕ := none
  channelName : Option String := none
  channelId : Option ℕ := none
  id : Option ℕ := none
  serviceName : Option String := none
  serviceId : Option ℕ := none
deriving DecidableEq, Repr

namespace RoleAttributes

variable (a : RoleAttributes)

/-- `host_name()` -/
def getHostName : String := a.hostName.getD ""

/-- `process_id()` -/
def getProcessId : ℤ := a.processId.getD 0

/-- `node_name()` -/
def getNodeName : String := a.nodeName.getD ""

/-- `node_id()` -/
def getNodeId : ℕ := a.nodeId.getD 0

/-- `channel_name()` -/
def getChannelName : String := a.channelName.getD ""

/-- `channel_id()` -/
def getChannelId : ℕ := a.channelId.getD 0

/-- `id()` -/
def getId : ℕ := a.id.getD 0

/-- `service_id()` -/
def getServiceId : ℕ := a.serviceId.getD 0

end RoleAttributes

/-- `RoleBase` -/
structure RoleBase where
  attributes : RoleAttributes
  timestampNs : ℕ := 0
deriving DecidableEq, Repr

/-- `RoleBase::Match` -/
def RoleBase.matches (r : RoleBase) (target : RoleAttributes) : Bool :=
  if target.nodeId.isSome && target.getNodeId != r.attributes.getNodeId then false
  else if target.processId.isSome && target.getProcessId != r.attributes.getProcessId then false
  else if target.hostName.isSome && target.getHostName != r.attributes.getHostName then false
  else true

/-- `RoleWriter`, of which `RoleReader` is another name. -/
abbrev RoleWriter : Type := RoleBase

/-- `RoleWriter::Match` -/
def RoleWriter.matches (r : RoleWriter) (target : RoleAttributes) : Bool :=
  if target.channelId.isSome && target.getChannelId != r.attributes.getChannelId then false
  else if target.id.isSome && target.getId != r.attributes.getId then false
  else RoleBase.matches r target

/-- `RoleType` -/
inductive RoleType
  | node
  | writer
  | reader
  | server
  | client
  | participant
deriving DecidableEq, Repr

/-- `OperateType` -/
inductive OperateType
  | join
  | leave
deriving DecidableEq, Repr

/-- `ChangeMsg` -/
structure ChangeMsg where
  timestamp : ℕ
  operateType : OperateType
  roleType : RoleType
  roleAttr : RoleAttributes
deriving DecidableEq, Repr

namespace ChangeMsg

/-- A writer is at the source of its channel, everything else is treated as a reader. -/
def side (msg : ChangeMsg) : Side := if msg.roleType = .writer then .src else .dst

/-- The half-edge from or to the node of the role through its channel. -/
def edge (msg : ChangeMsg) : Edge :=
  (⟨⟨""⟩, ⟨""⟩, msg.roleAttr.getChannelName⟩ : Edge).setVertice ⟨msg.roleAttr.getNodeName⟩ msg.side

end ChangeMsg

/-! ### The manager -/

/-- The two warehouses of a side. -/
inductive Index
  | node
  | channel
deriving DecidableEq, Repr

/-- The key of a role in a warehouse. -/
def Index.key : Index → RoleAttributes → ℕ
  | .node, a => a.getNodeId
  | .channel, a => a.getChannelId

/-- `MultiValueWarehouse` -/
abbrev MultiValueWarehouse : Type := MultiMap ℕ RoleWriter

namespace MultiValueWarehouse

/-- `Remove(key, role)` -/
def remove (w : MultiValueWarehouse) (key : ℕ) (role : RoleWriter) : MultiValueWarehouse :=
  MultiMap.remove w key fun r => RoleWriter.matches r role.attributes

/-- `Search(target_attr, &matched_roles)` -/
def search (w : MultiValueWarehouse) (target : RoleAttributes) : List RoleWriter :=
  w.values.filter fun r => RoleWriter.matches r target

end MultiValueWarehouse

/-! ### What the managers have in common -/

/-- The fields of `Manager` that the managers use: the host and the process that it belongs to, and
whether it listens for other processes. -/
structure Manager where
  hostName : String
  processId : ℤ
  isDiscoveryStarted : Bool
deriving DecidableEq, Repr

namespace Manager

/-- A call of `Join`, `Leave`, `OnRemoteChange` or `OnTopoModuleLeave`, with the time at which it is
made. -/
inductive Event
  | join (attr : RoleAttributes) (role : RoleType) (timestamp : ℕ)
  | leave (attr : RoleAttributes) (role : RoleType) (timestamp : ℕ)
  | onRemoteChange (msg : ChangeMsg)
  | onTopoModuleLeave (hostName : String) (processId : ℤ) (timestamp : ℕ)
deriving DecidableEq, Repr

variable (m : Manager)

/-- `Convert` -/
def convert (attr : RoleAttributes) (role : RoleType) (opt : OperateType)
    (timestamp : ℕ) : ChangeMsg where
  timestamp := timestamp
  operateType := opt
  roleType := role
  roleAttr := { attr with
    hostName := some (attr.hostName.getD m.hostName)
    processId := some (attr.processId.getD m.processId) }

/-- `IsFromSameProcess` -/
def isFromSameProcess (msg : ChangeMsg) : Bool :=
  msg.roleAttr.getProcessId = m.processId && msg.roleAttr.getHostName = m.hostName

/-- The message that `Join`, `Leave` or `OnRemoteChange` passes to `Dispose`, if any: `isAllowed`
and `check` are `allowed_role_` and `Check` of the manager. -/
def accepted (isAllowed : RoleType → Bool) (check : RoleAttributes → Bool) :
    Event → Option ChangeMsg
  | .join attr role timestamp =>
    if !isAllowed role then none else if !check attr then none
    else some (m.convert attr role .join timestamp)
  | .leave attr role timestamp =>
    if !isAllowed role then none else if !check attr then none
    else some (m.convert attr role .leave timestamp)
  | .onRemoteChange msg =>
    if m.isFromSameProcess msg then none else if !check msg.roleAttr then none else some msg
  | .onTopoModuleLeave _ _ _ => none

end Manager

/-! ### The manager -/

/-- `ChannelManager` -/
structure ChannelManager extends Manager where
  warehouse : Side → Index → MultiValueWarehouse := fun _ _ => []
  nodeGraph : Graph := {}

namespace ChannelManager

/-- `node_writers_` -/
def nodeWriters (m : ChannelManager) : MultiValueWarehouse := m.warehouse .src .node

/-- `channel_writers_` -/
def channelWriters (m : ChannelManager) : MultiValueWarehouse := m.warehouse .src .channel

/-- `node_readers_` -/
def nodeReaders (m : ChannelManager) : MultiValueWarehouse := m.warehouse .dst .node

/-- `channel_readers_` -/
def channelReaders (m : ChannelManager) : MultiValueWarehouse := m.warehouse .dst .channel

/-- `Check` -/
def check (a : RoleAttributes) : Bool := a.channelName.isSome && a.channelId.isSome && a.id.isSome

/-- `DisposeJoin` -/
def disposeJoin (m : ChannelManager) (msg : ChangeMsg) : ChannelManager :=
  let role : RoleWriter := ⟨msg.roleAttr, msg.timestamp⟩
  { m with
    warehouse := update m.warehouse msg.side fun index =>
      (m.warehouse msg.side index).add (index.key role.attributes) role
    nodeGraph := m.nodeGraph.insert msg.edge }

/-- `DisposeLeave` -/
def disposeLeave (m : ChannelManager) (msg : ChangeMsg) : ChannelManager :=
  let role : RoleWriter := { attributes := msg.roleAttr }
  { m with
    warehouse := update m.warehouse msg.side fun index =>
      MultiValueWarehouse.remove (m.warehouse msg.side index) (index.key role.attributes) role
    nodeGraph := m.nodeGraph.delete msg.edge }

/-- `Dispose` -/
def dispose (m : ChannelManager) (msg : ChangeMsg) : ChannelManager :=
  if msg.operateType = .join then m.disposeJoin msg else m.disposeLeave msg

/-- The roles in `allowed_role_`. -/
def isAllowed (role : RoleType) : Bool := role = .writer || role = .reader

/-- The messages that a call disposes of, in their order. -/
def messages (m : ChannelManager) : Manager.Event → List ChangeMsg
  | .onTopoModuleLeave hostName processId timestamp =>
    if !m.isDiscoveryStarted then []
    else
      let attr : RoleAttributes := { hostName := some hostName, processId := some processId }
      -- both searches are made before the first role is removed
      ((m.channelWriters.search attr).map fun r =>
          m.convert r.attributes .writer .leave timestamp) ++
        (m.channelReaders.search attr).map fun r =>
          m.convert r.attributes .reader .leave timestamp
  | e => (m.accepted isAllowed check e).toList

/-- The effect of a call. -/
def step (m : ChannelManager) (e : Manager.Event) : ChannelManager :=
  (m.messages e).foldl dispose m

/-- A manager without roles. -/
def init (hostName : String) (processId : ℤ) (isDiscoveryStarted : Bool) : ChannelManager :=
  { hostName, processId, isDiscoveryStarted }

/-- A sequence of calls. -/
def run (m : ChannelManager) (es : List Manager.Event) : ChannelManager := es.foldl step m

/-! ### What a call does to the warehouses -/

/-- The attributes of the `Leave` messages for one side. -/
def leaving (msgs : List ChangeMsg) (side : Side) : List RoleAttributes :=
  (msgs.filter fun msg => msg.operateType = .leave ∧ msg.side = side).map (·.roleAttr)

/-- Every role is stored under its own key, and has passed `Check`. -/
structure Indexed (m : ChannelManager) : Prop where
  keyed : ∀ side index, MultiMap.Keyed (fun r => index.key r.attributes) (m.warehouse side index)
  checked : ∀ side index, ∀ r ∈ (m.warehouse side index).values, check r.attributes

variable {m m' : ChannelManager} {msg : ChangeMsg} {msgs : List ChangeMsg} {e : Manager.Event}
  {side : Side} {index : Index}

theorem indexed_init (hostName : String) (processId : ℤ) (isDiscoveryStarted : Bool) :
    (init hostName processId isDiscoveryStarted).Indexed where
  keyed _ _ item h := by cases h
  checked _ _ r h := by cases h

theorem leaving_cons_of_leave (h : msg.operateType = .leave) : leaving (msg :: msgs) side =
    if msg.side = side then msg.roleAttr :: leaving msgs side else leaving msgs side := by
  by_cases hside : msg.side = side <;> simp [leaving, h, hside]

theorem dispose_of_leave (h : msg.operateType = .leave) : m.dispose msg = m.disposeLeave msg := by
  simp [dispose, h]

theorem warehouse_foldl_dispose (h : ∀ msg ∈ msgs, msg.operateType = .leave) :
    (msgs.foldl dispose m).warehouse side index =
      (m.warehouse side index).removeAll index.key (fun a r => RoleWriter.matches r a)
        (leaving msgs side) := by
  induction msgs generalizing m with
  | nil => rfl
  | cons msg msgs ih =>
    obtain ⟨hmsg, hmsgs⟩ := forall_mem_cons.mp h
    rw [foldl_cons, ih hmsgs, dispose_of_leave hmsg, leaving_cons_of_leave hmsg]
    by_cases hside : msg.side = side
    · subst hside
      simp [disposeLeave, MultiValueWarehouse.remove, MultiMap.removeAll]
    · simp [disposeLeave, hside, update_of_ne (Ne.symm hside)]

theorem values_disposeJoin : ((m.disposeJoin msg).warehouse side index).values =
    if msg.side = side then
      (m.warehouse side index).values ++ [⟨msg.roleAttr, msg.timestamp⟩]
    else (m.warehouse side index).values := by
  by_cases hside : msg.side = side
  · subst hside
    simp [disposeJoin]
  · simp [disposeJoin, hside, update_of_ne (Ne.symm hside)]

theorem check_of_accepted (h : m.accepted isAllowed check e = some msg) : check msg.roleAttr := by
  cases e with
  | join attr role timestamp | leave attr role timestamp =>
    simp only [Manager.accepted] at h
    split_ifs at h with hrole hcheck
    obtain rfl := some.inj h
    -- `Convert` fills in the host and the process alone
    change check attr = true
    simpa using hcheck
  | onRemoteChange msg' =>
    simp only [Manager.accepted] at h
    split_ifs at h with hsame hcheck
    obtain rfl := some.inj h
    simpa using hcheck
  | onTopoModuleLeave => cases h

/-- **The messages of a call.** A call disposes of one `Join` message, or of `Leave` messages only,
and their attributes pass `Check`. -/
theorem messages_cases (h : m.Indexed) (e : Manager.Event) :
    (∃ msg, m.messages e = [msg] ∧ msg.operateType = .join ∧ check msg.roleAttr) ∨
      ∀ msg ∈ m.messages e, msg.operateType = .leave ∧ check msg.roleAttr := by
  cases e with
  | onTopoModuleLeave hostName processId timestamp =>
    simp only [messages]
    split_ifs with hstarted
    · exact .inr (by simp)
    · refine .inr fun msg hmsg => ?_
      rcases mem_append.mp hmsg with hmsg | hmsg
      · obtain ⟨r, hr, rfl⟩ := mem_map.mp hmsg
        exact ⟨rfl, h.checked .src .channel r (mem_of_mem_filter hr)⟩
      · obtain ⟨r, hr, rfl⟩ := mem_map.mp hmsg
        exact ⟨rfl, h.checked .dst .channel r (mem_of_mem_filter hr)⟩
  | join | leave | onRemoteChange =>
    simp only [messages]
    cases haccepted : m.accepted isAllowed check _ with
    | none => exact .inr (by simp)
    | some msg =>
      have hcheck := check_of_accepted haccepted
      cases hopt : msg.operateType with
      | join => exact .inl ⟨msg, rfl, hopt, hcheck⟩
      | leave => exact .inr (forall_mem_singleton.mpr ⟨hopt, hcheck⟩)

theorem Indexed.disposeJoin (h : m.Indexed) (hcheck : check msg.roleAttr) :
    (m.disposeJoin msg).Indexed where
  keyed side index := by
    by_cases hside : msg.side = side
    · subst hside
      simpa [ChannelManager.disposeJoin] using
        (h.keyed msg.side index).add ⟨msg.roleAttr, msg.timestamp⟩
    · simpa [ChannelManager.disposeJoin, update_of_ne (Ne.symm hside)] using
        h.keyed side index
  checked side index r hr := by
    rw [values_disposeJoin] at hr
    split_ifs at hr
    · rcases mem_append.mp hr with hr | hr
      · exact h.checked side index r hr
      · obtain rfl := mem_singleton.mp hr
        exact hcheck
    · exact h.checked side index r hr

theorem Indexed.values_foldl_dispose (h : m.Indexed)
    (hmsgs : ∀ msg ∈ msgs, msg.operateType = .leave) :
    ((msgs.foldl dispose m).warehouse side index).values =
      (m.warehouse side index).values.filter fun r => (leaving msgs side).all fun a =>
        !(decide (index.key r.attributes = index.key a) && RoleWriter.matches r a) := by
  rw [warehouse_foldl_dispose hmsgs]
  exact (h.keyed side index).values_removeAll _ _ _

theorem Indexed.foldl_dispose (h : m.Indexed) (hmsgs : ∀ msg ∈ msgs, msg.operateType = .leave) :
    (msgs.foldl dispose m).Indexed where
  keyed side index := by
    rw [warehouse_foldl_dispose hmsgs]
    exact (h.keyed side index).removeAll _ _ _
  checked side index r hr := by
    rw [h.values_foldl_dispose hmsgs] at hr
    exact h.checked side index r (mem_of_mem_filter hr)

theorem step_eq_disposeJoin (hmsg : m.messages e = [msg]) (hjoin : msg.operateType = .join) :
    m.step e = m.disposeJoin msg := by
  simp [step, hmsg, dispose, hjoin]

theorem Indexed.step (h : m.Indexed) (e : Manager.Event) : (m.step e).Indexed := by
  rcases messages_cases h e with ⟨msg, hmsg, hjoin, hcheck⟩ | hleave
  · rw [step_eq_disposeJoin hmsg hjoin]
    exact h.disposeJoin hcheck
  · exact h.foldl_dispose fun msg hmsg => (hleave msg hmsg).1

/-! ### The two indexes -/

/-- The two warehouses of each side hold the same roles. -/
def Agree (m : ChannelManager) : Prop :=
  m.nodeWriters.values.Perm m.channelWriters.values ∧
    m.nodeReaders.values.Perm m.channelReaders.values

/-- Of the messages of a call that match a stored role, one carries the id of its node. -/
def Covers (m : ChannelManager) (e : Manager.Event) : Prop :=
  ∀ side, ∀ r ∈ (m.warehouse side .channel).values,
    (∃ a ∈ leaving (m.messages e) side, RoleWriter.matches r a) →
      ∃ a ∈ leaving (m.messages e) side, RoleWriter.matches r a ∧
        r.attributes.getNodeId = a.getNodeId

theorem agree_iff : m.Agree ↔
    ∀ side, (m.warehouse side .node).values.Perm (m.warehouse side .channel).values := by
  rw [Side.forall_iff .src]
  rfl

theorem getChannelId_of_matches {r : RoleWriter} {a : RoleAttributes} (hcheck : check a)
    (h : RoleWriter.matches r a) : r.attributes.getChannelId = a.getChannelId := by
  by_contra hne
  have hsome : a.channelId.isSome = true := by
    simp only [check, Bool.and_eq_true] at hcheck
    exact hcheck.1.2
  simp [RoleWriter.matches, hsome, Ne.symm hne] at h

theorem check_of_mem_leaving (hmsgs : ∀ msg ∈ msgs, msg.operateType = .leave ∧ check msg.roleAttr)
    {a : RoleAttributes} (ha : a ∈ leaving msgs side) : check a := by
  obtain ⟨msg, hmsg, rfl⟩ := mem_map.mp ha
  exact (hmsgs msg (mem_of_mem_filter hmsg)).2

/-- The roles that stay under the ids of their channels are those that no message matches. -/
theorem all_channel_iff {as : List RoleAttributes} (hcheck : ∀ a ∈ as, check a) (r : RoleWriter) :
    (as.all fun a => !(decide (Index.key .channel r.attributes = Index.key .channel a) &&
      RoleWriter.matches r a)) = true ↔ ¬∃ a ∈ as, RoleWriter.matches r a := by
  grind [Index.key, List.all_eq_true, getChannelId_of_matches]

theorem all_node_iff (as : List RoleAttributes) (r : RoleWriter) :
    (as.all fun a => !(decide (Index.key .node r.attributes = Index.key .node a) &&
      RoleWriter.matches r a)) = true ↔
        ¬∃ a ∈ as, RoleWriter.matches r a ∧ r.attributes.getNodeId = a.getNodeId := by
  grind [Index.key, List.all_eq_true]

/-- **The two warehouses of a side after a sequence of `Leave` messages.** -/
theorem Indexed.perm_foldl_dispose_iff (h : m.Indexed) (hagree : m.Agree)
    (hmsgs : ∀ msg ∈ msgs, msg.operateType = .leave ∧ check msg.roleAttr) :
    (((msgs.foldl dispose m).warehouse side .node).values.Perm
        ((msgs.foldl dispose m).warehouse side .channel).values) ↔
      ∀ r ∈ (m.warehouse side .channel).values,
        (∃ a ∈ leaving msgs side, RoleWriter.matches r a) →
          ∃ a ∈ leaving msgs side, RoleWriter.matches r a ∧
            r.attributes.getNodeId = a.getNodeId := by
  have hleave : ∀ msg ∈ msgs, msg.operateType = .leave := fun msg hmsg => (hmsgs msg hmsg).1
  have hchannel := all_channel_iff fun a (ha : a ∈ leaving msgs side) =>
    check_of_mem_leaving hmsgs ha
  rw [h.values_foldl_dispose hleave, h.values_foldl_dispose hleave,
    MultiMap.perm_filter_iff (agree_iff.mp hagree side)]
  · refine forall₂_congr fun r hr => ?_
    rw [all_node_iff, hchannel, not_imp_not]
  · intro r hr
    rw [hchannel] at hr
    rw [all_node_iff]
    rintro ⟨a, ha, hmatch, -⟩
    exact hr ⟨a, ha, hmatch⟩

theorem Agree.disposeJoin (h : m.Agree) : (m.disposeJoin msg).Agree := by
  refine agree_iff.mpr fun side => ?_
  rw [values_disposeJoin, values_disposeJoin]
  split_ifs
  · exact (agree_iff.mp h side).append_right _
  · exact agree_iff.mp h side

/-- A call keeps the two warehouses of each side in agreement exactly when its messages cover the
roles that they match. -/
theorem Indexed.agree_step_iff (h : m.Indexed) (hagree : m.Agree) (e : Manager.Event) :
    (m.step e).Agree ↔ m.Covers e := by
  rcases messages_cases h e with ⟨msg, hmsg, hjoin, -⟩ | hleave
  · have hnone : ∀ side, leaving (m.messages e) side = [] := fun side => by
      simp [hmsg, leaving, hjoin]
    rw [step_eq_disposeJoin hmsg hjoin]
    refine iff_of_true hagree.disposeJoin fun side r hr => ?_
    rw [hnone side]
    rintro ⟨a, ha, -⟩
    cases ha
  · exact agree_iff.trans (forall_congr' fun side => h.perm_foldl_dispose_iff hagree hleave)

/-- **When the two indexes agree.** Along every sequence of calls, `node_writers_` and
`channel_writers_` hold the same multiset of roles after each call, and so do `node_readers_` and
`channel_readers_`, if and only if at each call every stored role that matches one of its `Leave`
messages also matches one with the id of its node. -/
theorem indexes_agree_iff (hostName : String) (processId : ℤ) (isDiscoveryStarted : Bool)
    (es : List Manager.Event) :
    (∀ es', es' <+: es → ((init hostName processId isDiscoveryStarted).run es').Agree) ↔
      AllSteps (fun m e => some (m.step e)) Covers
        (init hostName processId isDiscoveryStarted) es := by
  have hexact := forall_prefix_iff_allSteps (C := Covers) (P := Agree)
    (fun m => m.Indexed ∧ m.Agree) (fun m h => h.2) ?_ ?_
    ⟨indexed_init hostName processId isDiscoveryStarted, .rfl, .rfl⟩ (exec_total step _ es)
  · rw [← hexact]
    refine forall₂_congr fun es' _ => ?_
    rw [exec_total]
    simp [run]
  · rintro m e m' ⟨hindexed, hagree⟩ hC hstep
    obtain rfl := some.inj hstep
    exact ⟨hindexed.step e, (hindexed.agree_step_iff hagree e).mpr hC⟩
  · rintro m e m' ⟨hindexed, hagree⟩ hC hstep
    obtain rfl := some.inj hstep
    exact fun h => hC ((hindexed.agree_step_iff hagree e).mp h)

/-- The attributes of a writer. -/
def writerAttr : RoleAttributes where
  nodeName := some "talker"
  nodeId := some 7
  channelName := some "chatter"
  channelId := some 3
  id := some 1

/-- A writer joins, and leaves by a message without its node id, which passes `Check`: the role is
gone from `channel_writers_` and still in `node_writers_`. -/
theorem leave_without_node_id :
    let m := (init "host" 1 true).run
      [.join writerAttr .writer 10, .leave { writerAttr with nodeId := none } .writer 20]
    m.channelWriters.values = [] ∧ m.nodeWriters.values.length = 1 ∧ ¬m.Agree := by
  refine ⟨by decide +kernel, by decide +kernel, fun h => ?_⟩
  exact absurd h.1.length_eq (by decide +kernel)

end ChannelManager

end Cyber
