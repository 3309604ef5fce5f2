import Notebook.Cyber.ServiceDiscovery.ServiceManager

/-!
# Who owns an entry of the topology

The node manager and the service manager keep one role for each id, and a role belongs to the
process that its attributes name. A `Leave` message removes what is stored under its id,
`Remove(key)`, without the comparison of `Remove(key, role)`. When two processes have joined with
one name, the first of them that leaves takes the name away.

The two managers are instances of `Registry`, which says how `Leave` and `OnTopoModuleLeave` change
a warehouse of single values. The processes that have joined with an id and not left are followed
beside the manager (`Registry.track`).
-/

open Container Interleaving

namespace Cyber

/-- The processes that have joined with a key and not left. -/
abbrev Presence : Type := Finset (Process × ℕ)

/-- A manager that keeps one role for each key, with what its calls remove. -/
structure Registry (σ : Type*) where
  /-- The warehouse. -/
  roles : σ → SingleValueWarehouse
  /-- The key of a role in the warehouse. -/
  key : RoleAttributes → ℕ
  /-- The messages that are about the roles of the warehouse. -/
  concerns : ChangeMsg → Bool
  isDiscoveryStarted : σ → Bool
  accepted : σ → Manager.Event → Option ChangeMsg
  dispose : σ → ChangeMsg → σ
  step : σ → Manager.Event → σ
  step_eq_dispose : ∀ s e msg, accepted s e = some msg → step s e = dispose s msg
  roles_dispose : ∀ s msg, concerns msg → msg.operateType = .leave →
    roles (dispose s msg) = (roles s).remove (key msg.roleAttr)
  roles_onTopoModuleLeave : ∀ s hostName processId timestamp,
    roles (step s (.onTopoModuleLeave hostName processId timestamp)) =
      if isDiscoveryStarted s then (roles s).removeAll key ((roles s).searchAll
        (·.matches { hostName := some hostName, processId := some processId })) else roles s

/-- The nodes of the node manager. -/
def nodeRegistry : Registry NodeManager where
  roles := NodeManager.nodes
  key := RoleAttributes.getNodeId
  concerns _ := true
  isDiscoveryStarted m := m.isDiscoveryStarted
  accepted := NodeManager.accepted
  dispose := NodeManager.dispose
  step := NodeManager.step
  step_eq_dispose m e msg h := by
    cases e with
    | onTopoModuleLeave => cases h
    | join | leave | onRemoteChange => simp [NodeManager.step, h]
  roles_dispose m msg _ hleave := by simp [NodeManager.dispose, NodeManager.disposeLeave, hleave]
  roles_onTopoModuleLeave m hostName processId _ := by
    cases h : m.isDiscoveryStarted <;> simp [NodeManager.step, NodeManager.onTopoModuleLeave, h]

/-- The servers of the service manager. -/
def serverRegistry : Registry ServiceManager where
  roles := ServiceManager.servers
  key := RoleAttributes.getServiceId
  concerns msg := msg.roleType = .server
  isDiscoveryStarted m := m.isDiscoveryStarted
  accepted := ServiceManager.accepted
  dispose := ServiceManager.dispose
  step := ServiceManager.step
  step_eq_dispose m e msg h := by
    cases e with
    | onTopoModuleLeave => cases h
    | join | leave | onRemoteChange => simp [ServiceManager.step, h]
  roles_dispose m msg hserver hleave := by
    simp only [decide_eq_true_eq] at hserver
    simp [ServiceManager.dispose, ServiceManager.disposeLeave, hleave, hserver]
  roles_onTopoModuleLeave m hostName processId _ := by
    -- the search for a process does not ask for a service id
    have hmatch : ∀ r : RoleBase, RoleServer.matches r
        { hostName := some hostName, processId := some processId } =
        r.matches { hostName := some hostName, processId := some processId } := fun r => rfl
    cases h : m.isDiscoveryStarted <;>
      simp [ServiceManager.step, ServiceManager.onTopoModuleLeave, h, hmatch]

namespace Registry

variable {σ : Type*} (R : Registry σ)

/-- A role is stored under the key. -/
def has (s : σ) (k : ℕ) : Bool := ((R.roles s).search k).isSome

/-! ### The roles of the other processes -/

/-- A message leaves the roles of all other processes in the warehouse. -/
def KeepsOthers (s : σ) (msg : ChangeMsg) : Prop :=
  ∀ k r, (R.roles s).search k = some r → r.attributes.process ≠ msg.roleAttr.process →
    (R.roles (R.dispose s msg)).search k = some r

/-- What is stored under the key of a message belongs to its sender. -/
def Owned (s : σ) (msg : ChangeMsg) : Prop :=
  ∀ r, (R.roles s).search (R.key msg.roleAttr) = some r →
    r.attributes.process = msg.roleAttr.process

variable {R} {s : σ} {msg : ChangeMsg} {e : Manager.Event} {k : ℕ}

theorem search_dispose (hmsg : R.concerns msg) (hleave : msg.operateType = .leave) :
    (R.roles (R.dispose s msg)).search k =
      if k = R.key msg.roleAttr then none else (R.roles s).search k := by
  rw [R.roles_dispose s msg hmsg hleave]
  split_ifs with hk
  · subst hk
    exact AList.lookup_erase _ _
  · exact AList.lookup_erase_ne hk

/-- A `Leave` leaves the roles of the others alone exactly if it removes none of them. -/
theorem keepsOthers_iff (hmsg : R.concerns msg) (hleave : msg.operateType = .leave) :
    R.KeepsOthers s msg ↔ R.Owned s msg := by
  constructor
  · intro h r hr
    by_contra hne
    have hgone := h _ r hr hne
    rw [search_dispose hmsg hleave, if_pos rfl] at hgone
    cases hgone
  · intro h k r hr hne
    rw [search_dispose hmsg hleave, if_neg]
    · exact hr
    · rintro rfl
      exact hne (h r hr)

/-! ### Names with two processes -/

variable (R)

/-- Who has joined and not left after a call. -/
def presence (s : σ) (P : Presence) : Manager.Event → Presence
  | .onTopoModuleLeave hostName processId _ => P.filter fun x => x.1 ≠ (hostName, processId)
  | e =>
    match R.accepted s e with
    | none => P
    | some msg =>
      if !R.concerns msg then P
      else if msg.operateType = .join then insert (msg.roleAttr.process, R.key msg.roleAttr) P
      else P.erase (msg.roleAttr.process, R.key msg.roleAttr)

/-- A manager with the processes that have joined, after a call. -/
def track (t : σ × Presence) (e : Manager.Event) : Option (σ × Presence) :=
  some (R.step t.1 e, R.presence t.1 t.2 e)

/-- By this call the process `p` leaves the key `k`. -/
def Leaves (s : σ) (e : Manager.Event) (p : Process) (k : ℕ) : Prop :=
  (∃ msg, R.accepted s e = some msg ∧ R.concerns msg ∧ msg.operateType = .leave ∧
    msg.roleAttr.process = p ∧ R.key msg.roleAttr = k) ∨
    ∃ timestamp, e = .onTopoModuleLeave p.1 p.2 timestamp

/-- If two processes have joined with the key of a name, the leave of one of them does not take the
name away; `hasName` is `HasNode` or `HasService` for it. -/
def KeepsName (hasName : σ → Bool) (k : ℕ) (t : σ × Presence) (e : Manager.Event) : Prop :=
  ∀ p q, p ≠ q → (p, k) ∈ t.2 → (q, k) ∈ t.2 → R.Leaves t.1 e p k → hasName t.1 →
    hasName (R.step t.1 e)

/-- A process that leaves a stored key by a message is the only one that has joined with it, and so
is a process that disappears, if the stored role is its own. -/
def OnlyHolder (k : ℕ) (t : σ × Presence) (e : Manager.Event) : Prop :=
  R.has t.1 k → ∀ p, (p, k) ∈ t.2 →
    ((∃ msg, R.accepted t.1 e = some msg ∧ R.concerns msg ∧ msg.operateType = .leave ∧
        msg.roleAttr.process = p ∧ R.key msg.roleAttr = k) ∨
      R.isDiscoveryStarted t.1 ∧ (∃ timestamp, e = .onTopoModuleLeave p.1 p.2 timestamp) ∧
        ∃ r ∈ (R.roles t.1).searchAll (fun r => r.attributes.process = p),
          R.key r.attributes = k) →
    ∀ q, (q, k) ∈ t.2 → q = p

variable {R} {p : Process} {timestamp : ℕ} {t : σ × Presence}

theorem has_step_of_leave (hmsg : R.accepted s e = some msg) (hconcerns : R.concerns msg)
    (hleave : msg.operateType = .leave) : R.has (R.step s e) (R.key msg.roleAttr) = false := by
  rw [has, R.step_eq_dispose s e msg hmsg, search_dispose hconcerns hleave, if_pos rfl]
  rfl

theorem has_step_onTopoModuleLeave :
    R.has (R.step s (.onTopoModuleLeave p.1 p.2 timestamp)) k ↔
      R.has s k ∧ ¬(R.isDiscoveryStarted s ∧
        ∃ r ∈ (R.roles s).searchAll (fun r => r.attributes.process = p),
          R.key r.attributes = k) := by
  have hsearch : (R.roles s).searchAll
      (·.matches { hostName := some p.1, processId := some p.2 }) =
        (R.roles s).searchAll fun r => r.attributes.process = p := by
    refine List.filter_congr fun r _ => ?_
    rw [Bool.eq_iff_iff, RoleBase.matches_process_iff, decide_eq_true_eq]
  rw [has, has, R.roles_onTopoModuleLeave, hsearch]
  split_ifs with hstarted
  · rw [SingleValueWarehouse.search_removeAll]
    split_ifs with hgone
    · exact iff_of_false Bool.false_ne_true fun h => h.2 ⟨hstarted, hgone⟩
    · exact (and_iff_left fun h => hgone h.2).symm
  · exact (and_iff_left fun h => hstarted h.1).symm

/-- **A name with two processes.** A call keeps it exactly if no process that leaves it shares it
with another one. -/
theorem keepsName_iff : R.KeepsName (R.has · k) k t e ↔ R.OnlyHolder k t e := by
  constructor
  · intro h hhas p hp hremoves q hq
    by_contra hne
    rcases hremoves with ⟨msg, hmsg, hconcerns, hleave, hproc, rfl⟩ |
      ⟨hstarted, ⟨timestamp, rfl⟩, hstored⟩
    · have hkept : R.has (R.step t.1 e) (R.key msg.roleAttr) = true := h p q (Ne.symm hne) hp hq
        (.inl ⟨msg, hmsg, hconcerns, hleave, hproc, rfl⟩) hhas
      rw [has_step_of_leave hmsg hconcerns hleave] at hkept
      cases hkept
    · have hkept := h p q (Ne.symm hne) hp hq (.inr ⟨timestamp, rfl⟩) hhas
      exact (has_step_onTopoModuleLeave.mp hkept).2 ⟨hstarted, hstored⟩
  · intro h p q hne hp hq hleaves hhas
    rcases hleaves with hmsg | ⟨timestamp, rfl⟩
    · exact absurd (h hhas p hp (.inl hmsg) q hq) (Ne.symm hne)
    · refine has_step_onTopoModuleLeave.mpr ⟨hhas, fun hstored => ?_⟩
      exact hne (h hhas p hp (.inr ⟨hstored.1, ⟨timestamp, rfl⟩, hstored.2⟩) q hq).symm

end Registry

/-- **Who may remove an entry.** A `Leave` message about a node or a server leaves the entries of
all other processes alone if and only if what is stored under its id belongs to its sender. Along
every sequence of calls, the leave of a process never makes `HasNode` or `HasService` false for a
name with which it and another process have joined, if and only if no process leaves a stored name
by a message, or disappears while the stored role is its own, that another process has joined with
and not left. -/
theorem leave_keeps_others_iff (registerNode hash : String → ℕ) (name : String) :
    (∀ (m : NodeManager) (msg : ChangeMsg), msg.operateType = .leave →
      (nodeRegistry.KeepsOthers m msg ↔ nodeRegistry.Owned m msg)) ∧
    (∀ (m : ServiceManager) (msg : ChangeMsg), msg.operateType = .leave →
      msg.roleType = .server →
      (serverRegistry.KeepsOthers m msg ↔ serverRegistry.Owned m msg)) ∧
    (∀ (m : NodeManager) (P : Presence) (es : List Manager.Event),
      AllSteps nodeRegistry.track
          (nodeRegistry.KeepsName (·.hasNode registerNode name) (registerNode name)) (m, P) es ↔
        AllSteps nodeRegistry.track (nodeRegistry.OnlyHolder (registerNode name)) (m, P) es) ∧
    ∀ (m : ServiceManager) (P : Presence) (es : List Manager.Event),
      AllSteps serverRegistry.track
          (serverRegistry.KeepsName (·.hasService hash name) (hash name)) (m, P) es ↔
        AllSteps serverRegistry.track (serverRegistry.OnlyHolder (hash name)) (m, P) es := by
  refine ⟨fun m msg hleave => Registry.keepsOthers_iff rfl hleave,
    fun m msg hleave hserver => Registry.keepsOthers_iff (decide_eq_true hserver) hleave,
    fun m P es => ?_, fun m P es => ?_⟩
  · exact iff_of_eq (congrArg (AllSteps _ · _ _) (funext₂ fun t e => propext
      (Registry.keepsName_iff (R := nodeRegistry) (t := t) (e := e))))
  · exact iff_of_eq (congrArg (AllSteps _ · _ _) (funext₂ fun t e => propext
      (Registry.keepsName_iff (R := serverRegistry) (t := t) (e := e))))

/-- Two processes join with the node name `talker`, and the later one leaves. -/
def sharedName : List Manager.Event :=
  [.onRemoteChange ⟨10, .join, .node, NodeManager.talkerOf ("a", 1)⟩,
    .onRemoteChange ⟨20, .join, .node, NodeManager.talkerOf ("b", 2)⟩,
    .onRemoteChange ⟨30, .leave, .node, NodeManager.talkerOf ("b", 2)⟩]

/-- **A `Leave` that removes the node of another process.** The process on host `b`, whose node was
not even stored, leaves: the node of the process on host `a` is gone, and `HasNode` is false
although that process has joined and not left. -/
theorem leave_removes_other :
    let m : NodeManager := { hostName := "c", processId := 3, isDiscoveryStarted := true }
    let m₂ := m.run (sharedName.take 2)
    let msg : ChangeMsg := ⟨30, .leave, .node, NodeManager.talkerOf ("b", 2)⟩
    m₂.nodes.search 7 = some ⟨NodeManager.talkerOf ("a", 1), 10⟩ ∧
      ¬nodeRegistry.KeepsOthers m₂ msg ∧
      (m.run sharedName).hasNode (fun _ => 7) "talker" = false ∧
      ¬AllSteps nodeRegistry.track
        (nodeRegistry.KeepsName (·.hasNode (fun _ => 7) "talker") 7) (m, ∅) sharedName := by
  intro m m₂ msg
  have hstored : m₂.nodes.search 7 = some ⟨NodeManager.talkerOf ("a", 1), 10⟩ := by decide +kernel
  refine ⟨hstored, fun h => ?_, by decide +kernel, fun h => ?_⟩
  · have hgone := h 7 _ hstored (by decide)
    exact absurd hgone (by decide +kernel)
  · have hlast := (h.2 _ rfl).2 _ rfl
    have hkept := hlast.1 ("b", 2) ("a", 1) (by decide) (by decide +kernel) (by decide +kernel)
      (.inl ⟨msg, by decide +kernel, rfl, rfl, rfl, rfl⟩) (by decide +kernel)
    exact absurd hkept (by decide +kernel)

end Cyber
