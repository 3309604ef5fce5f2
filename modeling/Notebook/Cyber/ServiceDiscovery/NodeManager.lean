import Notebook.Cyber.ServiceDiscovery.ChannelManager

/-!
# The node manager

`NodeManager` (`service_discovery/specific_manager/node_manager.cc`) keeps the nodes of all
processes, one for each node id, in a `SingleValueWarehouse`. Changes come as messages, as they do
to the channel manager: from `Join` and `Leave` of this process and from other processes
(`OnRemoteChange`). A `Join` for an id that is taken keeps the node with the earlier timestamp, and
the process of the other one is asked to shut down (`AsyncShutdown`).

Every process sees the `Join` messages for an id in an order of its own. What it keeps is the
earliest of those that it has seen (`Resolved`), so the order does not matter in the end.
-/

open Container Interleaving List

namespace Cyber

/-! ### Roles with one value for each key -/

/-- The process that a role belongs to, by its host and its id there. -/
abbrev Process : Type := String × ℤ

/-- The process named by the attributes of a role. -/
def RoleAttributes.process (a : RoleAttributes) : Process := (a.getHostName, a.getProcessId)

/-- `RoleBase::IsEarlierThan` -/
def RoleBase.isEarlierThan (r other : RoleBase) : Bool := r.timestampNs < other.timestampNs

theorem RoleBase.matches_process_iff {r : RoleBase} {p : Process} :
    r.matches { hostName := some p.1, processId := some p.2 } ↔ r.attributes.process = p := by
  simp only [RoleBase.matches, RoleAttributes.process, RoleAttributes.getProcessId,
    RoleAttributes.getHostName, Prod.ext_iff]
  grind

/-- `SingleValueWarehouse` -/
abbrev SingleValueWarehouse : Type := Map ℕ RoleBase

namespace SingleValueWarehouse

/-- `Add(key, role)` -/
def add (w : SingleValueWarehouse) (key : ℕ) (role : RoleBase) : SingleValueWarehouse :=
  w.insert key role

/-- `Add(key, role, false)`, which fails if the key is taken. -/
def addNew (w : SingleValueWarehouse) (key : ℕ) (role : RoleBase) : Option SingleValueWarehouse :=
  if (w.lookup key).isSome then none else some (w.insert key role)

/-- `Remove(key)` -/
def remove (w : SingleValueWarehouse) (key : ℕ) : SingleValueWarehouse := w.erase key

/-- `Search(key, &role)` -/
def search (w : SingleValueWarehouse) (key : ℕ) : Option RoleBase := w.lookup key

/-- `Search(target_attr, &matched_roles)`, where `test` is the `Match` of the roles. -/
def searchAll (w : SingleValueWarehouse) (test : RoleBase → Bool) : List RoleBase :=
  (w.entries.map Sigma.snd).filter test

/-- `Remove(key)` for the keys of a list of roles. -/
def removeAll (w : SingleValueWarehouse) (key : RoleAttributes → ℕ) (roles : List RoleBase) :
    SingleValueWarehouse := roles.foldl (fun w role => w.remove (key role.attributes)) w

variable {w : SingleValueWarehouse} {key : RoleAttributes → ℕ} {roles : List RoleBase}

theorem search_removeAll (k : ℕ) : (w.removeAll key roles).search k =
    if ∃ r ∈ roles, key r.attributes = k then none else w.search k := by
  induction roles generalizing w with
  | nil => simp [removeAll]
  | cons r roles ih =>
    have hrec : w.removeAll key (r :: roles) =
      (w.remove (key r.attributes)).removeAll key roles := rfl
    rw [hrec, ih, search, search, remove]
    by_cases hr : key r.attributes = k
    · subst hr
      simp
    · simp [hr, AList.lookup_erase_ne (Ne.symm hr)]

end SingleValueWarehouse

/-- The process of the manager. -/
def Manager.process (m : Manager) : Process := (m.hostName, m.processId)

/-! ### The manager -/

/-- `NodeManager`; `asyncShutdown` records whether it has called `AsyncShutdown`. -/
structure NodeManager extends Manager where
  nodes : SingleValueWarehouse := ∅
  asyncShutdown : Bool := false

namespace NodeManager

/-- The roles in `allowed_role_`. -/
def isAllowed (role : RoleType) : Bool := role = .node

/-- `Check` -/
def check (a : RoleAttributes) : Bool := a.nodeName.isSome && a.nodeId.isSome

/-- `HasNode`, where `registerNode` gives the id of a name in `GlobalData`. -/
def hasNode (m : NodeManager) (registerNode : String → ℕ) (nodeName : String) : Bool :=
  (m.nodes.search (registerNode nodeName)).isSome

/-- `DisposeJoin` -/
def disposeJoin (m : NodeManager) (msg : ChangeMsg) : NodeManager :=
  let node : RoleBase := ⟨msg.roleAttr, msg.timestamp⟩
  let key := node.attributes.getNodeId
  match m.nodes.addNew key node with
  | some nodes => { m with nodes }
  | none =>
    match m.nodes.search key with
    | none => { m with nodes := m.nodes.add key node }
    | some existing =>
      let newer := if node.isEarlierThan existing then existing else node
      { m with
        nodes := if node.isEarlierThan existing then m.nodes.add key node else m.nodes
        asyncShutdown := m.asyncShutdown ||
          (newer.attributes.getProcessId = m.processId &&
            newer.attributes.getHostName = m.hostName) }

/-- `DisposeLeave` -/
def disposeLeave (m : NodeManager) (msg : ChangeMsg) : NodeManager :=
  { m with nodes := m.nodes.remove msg.roleAttr.getNodeId }

/-- `Dispose` -/
def dispose (m : NodeManager) (msg : ChangeMsg) : NodeManager :=
  if msg.operateType = .join then m.disposeJoin msg else m.disposeLeave msg

/-- `OnTopoModuleLeave` -/
def onTopoModuleLeave (m : NodeManager) (hostName : String) (processId : ℤ) : NodeManager :=
  if !m.isDiscoveryStarted then m
  else
    let attr : RoleAttributes := { hostName := some hostName, processId := some processId }
    { m with nodes := m.nodes.removeAll (·.getNodeId) (m.nodes.searchAll (·.matches attr)) }

/-- The message that a call passes to `Dispose`, if any. -/
def accepted (m : NodeManager) (e : Manager.Event) : Option ChangeMsg :=
  m.toManager.accepted isAllowed check e

/-- The effect of a call. -/
def step (m : NodeManager) : Manager.Event → NodeManager
  | .onTopoModuleLeave hostName processId _ => m.onTopoModuleLeave hostName processId
  | e => (m.accepted e).elim m m.dispose

/-- A sequence of calls. -/
def run (m : NodeManager) (es : List Manager.Event) : NodeManager := es.foldl step m

/-! ### Duplicated nodes -/

/-- The role made from a message. -/
def role (msg : ChangeMsg) : RoleBase := ⟨msg.roleAttr, msg.timestamp⟩

variable {m : NodeManager} {msg first : ChangeMsg} {seen msgs : List ChangeMsg} {nodeId : ℕ}

theorem toManager_dispose : (m.dispose msg).toManager = m.toManager := by
  unfold dispose disposeJoin disposeLeave
  grind

theorem dispose_of_search_eq_none (hjoin : msg.operateType = .join)
    (h : m.nodes.search msg.roleAttr.getNodeId = none) :
    m.dispose msg = { m with nodes := m.nodes.add msg.roleAttr.getNodeId (role msg) } := by
  have hnew : m.nodes.addNew msg.roleAttr.getNodeId (role msg) =
      some (m.nodes.add msg.roleAttr.getNodeId (role msg)) := by
    have hnone : m.nodes.lookup msg.roleAttr.getNodeId = none := h
    simp [SingleValueWarehouse.addNew, SingleValueWarehouse.add, hnone]
  rw [role] at hnew
  simp [dispose, disposeJoin, hjoin, hnew, role]

theorem dispose_of_search_eq_some (hjoin : msg.operateType = .join)
    (h : m.nodes.search msg.roleAttr.getNodeId = some (role first)) :
    m.dispose msg = { m with
      nodes := if msg.timestamp < first.timestamp then
        m.nodes.add msg.roleAttr.getNodeId (role msg) else m.nodes
      asyncShutdown := m.asyncShutdown ||
        decide ((if msg.timestamp < first.timestamp then first else msg).roleAttr.process =
          m.process) } := by
  have hnew : m.nodes.addNew msg.roleAttr.getNodeId (role msg) = none := by
    have hsome : m.nodes.lookup msg.roleAttr.getNodeId = some (role first) := h
    simp [SingleValueWarehouse.addNew, hsome]
  rw [role] at hnew
  by_cases hlt : msg.timestamp < first.timestamp <;>
    simp [dispose, disposeJoin, hjoin, hnew, h, role, RoleBase.isEarlierThan, hlt,
      RoleAttributes.process, Manager.process, Bool.and_comm]

/-- What the manager of a process holds under a node id after the `Join` messages `seen`: the
earliest of them. It has called `AsyncShutdown` if the process sent one of the others. -/
structure Resolved (nodeId : ℕ) (seen : List ChangeMsg) (first : ChangeMsg) (m : NodeManager) :
    Prop where
  mem : first ∈ seen
  le : ∀ msg ∈ seen, first.timestamp ≤ msg.timestamp
  search_eq : m.nodes.search nodeId = some (role first)
  asyncShutdown_iff : m.asyncShutdown = true ↔
    ∃ msg ∈ seen, msg.roleAttr.process = m.process ∧ msg ≠ first

theorem resolved_singleton (hjoin : msg.operateType = .join)
    (hid : msg.roleAttr.getNodeId = nodeId) (hnone : m.nodes.search nodeId = none)
    (hdown : m.asyncShutdown = false) : Resolved nodeId [msg] msg (m.dispose msg) := by
  subst hid
  rw [dispose_of_search_eq_none hjoin hnone]
  refine ⟨mem_singleton_self _, ?_, ?_, ?_⟩
  · exact forall_mem_singleton.mpr le_rfl
  · simp [SingleValueWarehouse.search, SingleValueWarehouse.add]
  · simp [hdown]

/-- After one more `Join` the earliest one is still kept. -/
theorem Resolved.dispose (h : Resolved nodeId seen first m) (hjoin : msg.operateType = .join)
    (hid : msg.roleAttr.getNodeId = nodeId) (hnotMem : msg ∉ seen) :
    ∃ first', Resolved nodeId (seen ++ [msg]) first' (m.dispose msg) := by
  subst hid
  have hne : ∀ msg' ∈ seen, msg' ≠ msg := fun msg' hmem heq => hnotMem (heq ▸ hmem)
  rw [dispose_of_search_eq_some hjoin h.search_eq]
  by_cases hlt : msg.timestamp < first.timestamp
  · -- the new message takes the place of the one that was kept
    refine ⟨msg, mem_append_right _ (mem_singleton_self _), ?_, ?_, ?_⟩
    · refine forall_mem_append.mpr ⟨fun msg' hmem => ?_, forall_mem_singleton.mpr le_rfl⟩
      exact hlt.le.trans (h.le msg' hmem)
    · simp [hlt, SingleValueWarehouse.search, SingleValueWarehouse.add]
    · simp only [hlt, if_true, Bool.or_eq_true, decide_eq_true_eq, h.asyncShutdown_iff]
      constructor
      · rintro (⟨msg', hmem, hself, -⟩ | hself)
        · exact ⟨msg', mem_append_left _ hmem, hself, hne msg' hmem⟩
        · exact ⟨first, mem_append_left _ h.mem, hself, hne first h.mem⟩
      · rintro ⟨msg', hmem, hself, hne'⟩
        have hmem' : msg' ∈ seen := by simpa [hne'] using hmem
        by_cases hfirst : msg' = first
        · exact .inr (hfirst ▸ hself)
        · exact .inl ⟨msg', hmem', hself, hfirst⟩
  · -- the kept message stays
    refine ⟨first, mem_append_left _ h.mem, ?_, ?_, ?_⟩
    · exact forall_mem_append.mpr ⟨h.le, forall_mem_singleton.mpr (not_lt.mp hlt)⟩
    · simpa [hlt] using h.search_eq
    · simp only [hlt, if_false, Bool.or_eq_true, decide_eq_true_eq, h.asyncShutdown_iff]
      constructor
      · rintro (⟨msg', hmem, hself, hfirst⟩ | hself)
        · exact ⟨msg', mem_append_left _ hmem, hself, hfirst⟩
        · refine ⟨msg, mem_append_right _ (mem_singleton_self _), hself, ?_⟩
          exact Ne.symm (hne first h.mem)
      · rintro ⟨msg', hmem, hself, hfirst⟩
        rcases mem_append.mp hmem with hmem | hmem
        · exact .inl ⟨msg', hmem, hself, hfirst⟩
        · obtain rfl := mem_singleton.mp hmem
          exact .inr hself

theorem Resolved.of_perm (h : Resolved nodeId seen first m) (hperm : seen.Perm msgs) :
    Resolved nodeId msgs first m where
  mem := hperm.mem_iff.mp h.mem
  le msg hmem := h.le msg (hperm.mem_iff.mpr hmem)
  search_eq := h.search_eq
  asyncShutdown_iff := by simpa only [hperm.mem_iff] using h.asyncShutdown_iff

/-- The timestamps tell which message is kept, so that it is the same one everywhere. -/
theorem Resolved.first_eq {m' : NodeManager} {first' : ChangeMsg}
    (h : Resolved nodeId msgs first m) (h' : Resolved nodeId msgs first' m')
    (htimestamp : (msgs.map (·.timestamp)).Nodup) : first' = first :=
  inj_on_of_nodup_map htimestamp h'.mem h.mem
    (le_antisymm (h'.le first h.mem) (h.le first' h'.mem))

/-- **Every order.** Whatever the order of the messages, the manager ends with the earliest. -/
theorem exists_resolved (hmsgs : msgs ≠ []) (hnodup : msgs.Nodup)
    (hjoin : ∀ msg ∈ msgs, msg.operateType = .join ∧ msg.roleAttr.getNodeId = nodeId)
    (hnone : m.nodes.search nodeId = none) (hdown : m.asyncShutdown = false) :
    ∃ first, Resolved nodeId msgs first (msgs.foldl NodeManager.dispose m) := by
  -- induction on the number of messages that have arrived
  induction msgs using List.reverseRecOn with
  | nil => exact absurd rfl hmsgs
  | append_singleton seen msg ih =>
    obtain ⟨hjoins, hlast⟩ := forall_mem_append.mp hjoin
    obtain ⟨hopt, hid⟩ := hlast msg (mem_singleton_self _)
    rw [foldl_concat]
    by_cases hseen : seen = []
    · subst hseen
      exact ⟨msg, resolved_singleton hopt hid hnone hdown⟩
    · have hnodup' := nodup_append.mp hnodup
      obtain ⟨first, hfirst⟩ := ih hseen hnodup'.1 hjoins
      refine hfirst.dispose hopt hid fun hmem => ?_
      exact hnodup'.2.2 msg hmem msg (mem_singleton_self _) rfl

theorem toManager_foldl_dispose : (msgs.foldl dispose m).toManager = m.toManager := by
  induction msgs generalizing m with
  | nil => rfl
  | cons msg msgs ih => rw [foldl_cons, ih, toManager_dispose]

/-- The messages that a sequence of calls passes to `Dispose` determine its effect. -/
theorem run_eq_foldl_dispose {es : List Manager.Event}
    (h : es.map m.accepted = msgs.map some) : m.run es = msgs.foldl dispose m := by
  induction es generalizing m msgs with
  | nil =>
    obtain rfl := map_eq_nil_iff.mp h.symm
    rfl
  | cons e es ih =>
    cases msgs with
    | nil => cases h
    | cons msg msgs =>
      obtain ⟨hmsg, hrest⟩ := List.cons.inj h
      have hstep : m.step e = m.dispose msg := by
        cases e with
        | onTopoModuleLeave => cases hmsg
        | join | leave | onRemoteChange => simp [step, hmsg]
      have haccepted : (m.dispose msg).accepted = m.accepted := by
        funext e
        rw [accepted, accepted, toManager_dispose]
      rw [run, foldl_cons, hstep, foldl_cons]
      exact ih (haccepted ▸ hrest)

/-- The call by which a process learns of a `Join` message: its own `Join`, or the message of
another process. -/
def arrive (p : Process) (msg : ChangeMsg) : Manager.Event :=
  if msg.roleAttr.process = p then .join msg.roleAttr .node msg.timestamp else .onRemoteChange msg

theorem accepted_arrive (hjoin : msg.operateType = .join) (hrole : msg.roleType = .node)
    (hcheck : check msg.roleAttr) (hhost : msg.roleAttr.hostName.isSome)
    (hprocess : msg.roleAttr.processId.isSome) : m.accepted (arrive m.process msg) = some msg := by
  unfold arrive
  split_ifs with hself
  · have hconvert : m.convert msg.roleAttr .node .join msg.timestamp = msg := by
      obtain ⟨timestamp, opt, role, hostName, processId⟩ := msg
      obtain ⟨h, rfl⟩ := Option.isSome_iff_exists.mp hhost
      obtain ⟨p, rfl⟩ := Option.isSome_iff_exists.mp hprocess
      obtain rfl : opt = .join := hjoin
      obtain rfl : role = .node := hrole
      rfl
    simp [accepted, Manager.accepted, isAllowed, hcheck, hconvert]
  · have hother : m.isFromSameProcess msg = false := by
      simp only [Manager.isFromSameProcess, Bool.and_eq_false_iff, decide_eq_false_iff_not]
      simp only [RoleAttributes.process, Manager.process, Prod.ext_iff] at hself
      tauto
    simp [accepted, Manager.accepted, hother, hcheck]

/-- **Duplicated nodes are resolved alike everywhere.** Processes send `Join` messages for one node
id, at most one message each and no two with the same timestamp, and every process disposes of
them in an order of its own: of its own message by a call of `Join`, of the others by
`OnRemoteChange`. In the end every process keeps the earliest node, and `AsyncShutdown` was called
in exactly the processes whose message was another one: one of the processes is left. -/
theorem duplicates_resolved (nodeId : ℕ) (msgs : List ChangeMsg) (hmsgs : msgs ≠ [])
    (hjoin : ∀ msg ∈ msgs, msg.operateType = .join ∧ msg.roleAttr.getNodeId = nodeId)
    (hprocess : (msgs.map (·.roleAttr.process)).Nodup)
    (htimestamp : (msgs.map (·.timestamp)).Nodup)
    (manager : Process → NodeManager) (hself : ∀ p, (manager p).process = p)
    (hnew : ∀ p, (manager p).nodes.search nodeId = none ∧ (manager p).asyncShutdown = false)
    (order : Process → List ChangeMsg) (hperm : ∀ p, (order p).Perm msgs)
    (calls : Process → List Manager.Event)
    (hcalls : ∀ p, (calls p).map (manager p).accepted = (order p).map some) :
    ∃ first ∈ msgs, (∀ msg ∈ msgs, msg ≠ first → first.timestamp < msg.timestamp) ∧
      (∀ p, ((manager p).run (calls p)).nodes.search nodeId =
          some ⟨first.roleAttr, first.timestamp⟩ ∧
        (((manager p).run (calls p)).asyncShutdown = true ↔
          ∃ msg ∈ msgs, msg.roleAttr.process = p ∧ msg ≠ first)) ∧
      ∃! msg, msg ∈ msgs ∧
        ((manager msg.roleAttr.process).run (calls msg.roleAttr.process)).asyncShutdown =
          false := by
  have hresolved : ∀ p, ∃ first, Resolved nodeId msgs first ((manager p).run (calls p)) := by
    intro p
    rw [run_eq_foldl_dispose (hcalls p)]
    obtain ⟨first, hfirst⟩ := exists_resolved (fun hnil => hmsgs (hnil ▸ hperm p).nil_eq.symm)
      ((hperm p).nodup_iff.mpr htimestamp.of_map)
      (fun msg hmem => hjoin msg ((hperm p).mem_iff.mp hmem)) (hnew p).1 (hnew p).2
    exact ⟨first, hfirst.of_perm (hperm p)⟩
  obtain ⟨first, hfirst⟩ := hresolved ("", 0)
  have hall : ∀ p, Resolved nodeId msgs first ((manager p).run (calls p)) := by
    intro p
    obtain ⟨first', hfirst'⟩ := hresolved p
    rwa [hfirst.first_eq hfirst' htimestamp] at hfirst'
  have hdown : ∀ p, ((manager p).run (calls p)).asyncShutdown = true ↔
      ∃ msg ∈ msgs, msg.roleAttr.process = p ∧ msg ≠ first := by
    intro p
    have hproc : ((manager p).run (calls p)).process = p := by
      rw [run_eq_foldl_dispose (hcalls p), toManager_foldl_dispose, hself p]
    rw [(hall p).asyncShutdown_iff, hproc]
  refine ⟨first, hfirst.mem, fun msg h hne => ?_, fun p => ⟨(hall p).search_eq, hdown p⟩, ?_⟩
  · refine lt_of_le_of_ne (hfirst.le msg h) fun heq => hne ?_
    exact inj_on_of_nodup_map htimestamp h hfirst.mem heq.symm
  · refine ⟨first, ⟨hfirst.mem, ?_⟩, ?_⟩
    · rw [← Bool.not_eq_true, hdown]
      rintro ⟨msg, h, heq, hne⟩
      exact hne (inj_on_of_nodup_map hprocess h hfirst.mem heq)
    · rintro msg ⟨h, halive⟩
      by_contra hne
      rw [← Bool.not_eq_true, hdown] at halive
      exact halive ⟨msg, h, rfl, hne⟩

/-- The attributes of a node `talker` of a process. -/
def talkerOf (p : Process) : RoleAttributes where
  hostName := some p.1
  processId := some p.2
  nodeName := some "talker"
  nodeId := some 7

/-- The `Join` messages of two processes for one node name. -/
def duplicates : List ChangeMsg :=
  [⟨20, .join, .node, talkerOf ("b", 2)⟩, ⟨10, .join, .node, talkerOf ("a", 1)⟩]

theorem duplicates_resolved_of_two :
    let manager : Process → NodeManager := fun p =>
      { hostName := p.1, processId := p.2, isDiscoveryStarted := true }
    let calls : Process → List Manager.Event := fun p => duplicates.map (arrive p)
    ∃! msg, msg ∈ duplicates ∧
      ((manager msg.roleAttr.process).run (calls msg.roleAttr.process)).asyncShutdown = false := by
  intro manager calls
  obtain ⟨first, -, -, -, hone⟩ := duplicates_resolved 7 duplicates (by decide) (by decide)
    (by decide) (by decide) manager (fun _ => rfl) (fun _ => ⟨rfl, rfl⟩) (fun _ => duplicates)
    (fun _ => .rfl) calls fun p => by
      rw [map_map]
      refine map_congr_left fun msg hmsg => ?_
      have hmade : msg.operateType = .join ∧ msg.roleType = .node ∧ check msg.roleAttr ∧
          msg.roleAttr.hostName.isSome ∧ msg.roleAttr.processId.isSome := by
        revert msg
        decide
      exact accepted_arrive hmade.1 hmade.2.1 hmade.2.2.1 hmade.2.2.2.1 hmade.2.2.2.2
  exact hone

end NodeManager

end Cyber
