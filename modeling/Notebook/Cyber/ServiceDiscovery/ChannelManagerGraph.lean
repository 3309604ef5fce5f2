import Notebook.Cyber.ServiceDiscovery.ChannelManager
import Notebook.Cyber.ServiceDiscovery.GraphRuns

/-!
# The registry and the graph of the channel manager

The warehouses of a `ChannelManager` hold a multiset of roles, the graph a set of half-edges:
several writers of one node on one channel are one half-edge, and a `Leave` of one of them deletes
it. The graph knows a `Leave` by the names in the message, the warehouses by its ids and its host
and process.

In the runs in which every `Leave` unregisters the last roles with the names that it carries, and no
others, the half-edges of the graph are the names of the registered roles.
-/

open Interleaving List

namespace Cyber

namespace ChannelManager

/-- The channel and the node of a role, as a half-edge. -/
def halfEdge (a : RoleAttributes) : String × Vertice := (a.getChannelName, ⟨a.getNodeName⟩)

/-- The half-edge of a role with both names. -/
def IsNamed (q : String × Vertice) : Prop := q.1.isEmpty = false ∧ q.2.isDummy = false
deriving Decidable

/-- The half-edges of the roles in a warehouse. -/
def registered (m : ChannelManager) (index : Index) : Topology := fun side =>
  {q | ∃ r ∈ (m.warehouse side index).values, halfEdge r.attributes = q}

/-- No two edges between the names of registered writers and readers share their source and key. -/
def Unambiguous (m : ChannelManager) : Prop := KeysDistinct (m.registered .channel).joined

/-- The half-edges that `Leave` messages name. -/
def departing (msgs : List ChangeMsg) : Topology := fun side =>
  {q | ∃ a ∈ leaving msgs side, halfEdge a = q}

/-- The graph follows the registry: a `Join` carries both names; no role with the names of a `Leave`
message stays registered; and a role that a message matches has the names of a message, or another
role with its names stays registered. -/
@[mk_iff]
structure Tracks (m : ChannelManager) (e : Manager.Event) : Prop where
  named : ∀ msg ∈ m.messages e, msg.operateType = .join → IsNamed (halfEdge msg.roleAttr)
  covers : m.Covers e
  removes : ∀ side, ∀ r ∈ (m.warehouse side .channel).values,
    halfEdge r.attributes ∈ departing (m.messages e) side →
      ∃ a ∈ leaving (m.messages e) side, RoleWriter.matches r a
  keeps : ∀ side, ∀ r ∈ (m.warehouse side .channel).values,
    (∃ a ∈ leaving (m.messages e) side, RoleWriter.matches r a) →
      halfEdge r.attributes ∈ departing (m.messages e) side ∨
        ∃ r' ∈ (m.warehouse side .channel).values, halfEdge r'.attributes = halfEdge r.attributes ∧
          ¬∃ a ∈ leaving (m.messages e) side, RoleWriter.matches r' a

/-! ### Deciding that the graph follows the registry -/

instance (msgs : List ChangeMsg) (side : Side) (q : String × Vertice) :
    Decidable (q ∈ departing msgs side) :=
  inferInstanceAs (Decidable (∃ a ∈ leaving msgs side, halfEdge a = q))

instance {P : Side → Prop} [DecidablePred P] : Decidable (∀ side, P side) :=
  decidable_of_iff _ (Side.forall_iff .src).symm

instance (m : ChannelManager) (e : Manager.Event) : Decidable (m.Covers e) :=
  inferInstanceAs (Decidable (∀ _, _))

instance (m : ChannelManager) (e : Manager.Event) : Decidable (Tracks m e) :=
  decidable_of_iff _ (tracks_iff m e).symm

variable {m m' : ChannelManager} {msg : ChangeMsg} {msgs : List ChangeMsg} {e : Manager.Event}
  {side : Side} {index : Index}

/-! ### The half-edges of the messages -/

theorem half_edge (msg : ChangeMsg) (side : Side) : Topology.half msg.edge side =
    {q | msg.side = side ∧ IsNamed (halfEdge msg.roleAttr) ∧ q = halfEdge msg.roleAttr} := by
  ext q
  cases hs : msg.side <;> cases side <;>
    simp [Topology.half, ChangeMsg.edge, hs, Edge.setVertice, Edge.vertice, Edge.isValid,
      Vertice.isDummy, IsNamed, halfEdge] <;> tauto

theorem topology_disposeJoin :
    (m.disposeJoin msg).nodeGraph.topology = m.nodeGraph.topology.insert msg.edge :=
  Graph.topology_insert ..

theorem topology_disposeLeave :
    (m.disposeLeave msg).nodeGraph.topology = m.nodeGraph.topology.delete msg.edge :=
  Graph.topology_delete ..

theorem departing_cons_of_leave (h : msg.operateType = .leave) : departing (msg :: msgs) side =
    {q | msg.side = side ∧ q = halfEdge msg.roleAttr} ∪ departing msgs side := by
  ext q
  rw [departing, departing, leaving_cons_of_leave h]
  split_ifs with hside <;> simp [hside, eq_comm]

theorem topology_foldl_dispose (h : ∀ msg ∈ msgs, msg.operateType = .leave)
    (hnamed : ∀ q ∈ m.nodeGraph.topology side, IsNamed q) :
    (msgs.foldl dispose m).nodeGraph.topology side =
      m.nodeGraph.topology side \ departing msgs side := by
  induction msgs generalizing m with
  | nil => simp [departing, leaving]
  | cons msg msgs ih =>
    obtain ⟨hmsg, hmsgs⟩ := forall_mem_cons.mp h
    have hdelete : (m.dispose msg).nodeGraph.topology side =
        m.nodeGraph.topology side \ {q | msg.side = side ∧ q = halfEdge msg.roleAttr} := by
      rw [dispose_of_leave hmsg, topology_disposeLeave, Topology.delete, half_edge]
      ext q
      simp only [Set.mem_sdiff, Set.mem_ofPred_eq]
      grind
    rw [foldl_cons, ih hmsgs ?_, hdelete, departing_cons_of_leave hmsg, Set.sdiff_sdiff]
    · rw [hdelete]
      exact fun q hq => hnamed q hq.1

theorem topology_disposeJoin_of_named (h : IsNamed (halfEdge msg.roleAttr)) :
    (m.disposeJoin msg).nodeGraph.topology side = m.nodeGraph.topology side ∪
      {q | msg.side = side ∧ q = halfEdge msg.roleAttr} := by
  rw [topology_disposeJoin, Topology.insert, half_edge]
  simp [h]

/-! ### The registered half-edges -/

theorem mem_registered {v x : String} : (v, ⟨x⟩) ∈ m.registered index side ↔
    ∃ r ∈ (m.warehouse side index).values,
      r.attributes.getNodeName = x ∧ r.attributes.getChannelName = v := by
  simp [registered, halfEdge, and_comm]

theorem registered_disposeJoin : (m.disposeJoin msg).registered index side =
    m.registered index side ∪ {q | msg.side = side ∧ q = halfEdge msg.roleAttr} := by
  ext q
  rw [registered, registered, values_disposeJoin]
  split_ifs with hside <;> simp [hside, or_and_right, exists_or, eq_comm, or_comm]

theorem Agree.registered_eq (h : m.Agree) (index : Index) :
    m.registered index = m.registered .channel := by
  funext side
  cases index with
  | node =>
    ext q
    exact exists_congr fun r => and_congr_left fun _ => (agree_iff.mp h side).mem_iff
  | channel => rfl

theorem Indexed.mem_values_foldl_dispose (h : m.Indexed)
    (hmsgs : ∀ msg ∈ msgs, msg.operateType = .leave ∧ check msg.roleAttr) {r : RoleWriter} :
    r ∈ ((msgs.foldl dispose m).warehouse side .channel).values ↔
      r ∈ (m.warehouse side .channel).values ∧
        ¬∃ a ∈ leaving msgs side, RoleWriter.matches r a := by
  rw [h.values_foldl_dispose fun msg hmsg => (hmsgs msg hmsg).1, mem_filter,
    all_channel_iff fun a ha => check_of_mem_leaving hmsgs ha]

/-- A call with `Leave` messages only unregisters the names that they carry, when the graph follows
the registry. -/
theorem Tracks.registered_step (hC : Tracks m e) (h : m.Indexed)
    (hmsgs : ∀ msg ∈ m.messages e, msg.operateType = .leave ∧ check msg.roleAttr) (side : Side) :
    (m.step e).registered .channel side =
      m.registered .channel side \ departing (m.messages e) side := by
  have hmem (r : RoleWriter) : r ∈ ((m.step e).warehouse side .channel).values ↔
      r ∈ (m.warehouse side .channel).values ∧
        ¬∃ a ∈ leaving (m.messages e) side, RoleWriter.matches r a :=
    h.mem_values_foldl_dispose hmsgs
  ext q
  constructor
  · rintro ⟨r, hr, rfl⟩
    obtain ⟨hstored, hnone⟩ := (hmem r).mp hr
    exact ⟨⟨r, hstored, rfl⟩, fun hdeparting => hnone (hC.removes side r hstored hdeparting)⟩
  · rintro ⟨⟨r, hstored, rfl⟩, hdeparting⟩
    by_cases hmatch : ∃ a ∈ leaving (m.messages e) side, RoleWriter.matches r a
    · rcases hC.keeps side r hstored hmatch with hnamed | ⟨r', hr', heq, hnone⟩
      · exact absurd hnamed hdeparting
      · exact ⟨r', (hmem r').mpr ⟨hr', hnone⟩, heq⟩
    · exact ⟨r, (hmem r).mpr ⟨hstored, hmatch⟩, rfl⟩

/-! ### Runs -/

/-- The half-edges of the graph are those of the registered roles, and the graph is exact. -/
structure Inv (m : ChannelManager) : Prop where
  indexed : m.Indexed
  agree : m.Agree
  exact : m.nodeGraph.Exact
  topology : m.nodeGraph.topology = m.registered .channel
  named : ∀ side, ∀ q ∈ m.nodeGraph.topology side, IsNamed q
  unambiguous : m.Unambiguous

theorem registered_init (hostName : String) (processId : ℤ) (isDiscoveryStarted : Bool) :
    (init hostName processId isDiscoveryStarted).registered index = fun _ => ∅ := by
  funext side
  refine Set.eq_empty_of_forall_notMem ?_
  rintro q ⟨r, hr, -⟩
  cases hr

theorem inv_init (hostName : String) (processId : ℤ) (isDiscoveryStarted : Bool) :
    (init hostName processId isDiscoveryStarted).Inv where
  indexed := indexed_init hostName processId isDiscoveryStarted
  agree := ⟨.rfl, .rfl⟩
  exact := Graph.exact_empty
  topology := by
    rw [registered_init]
    exact Graph.topology_empty
  named side q hq := by
    have htopology : (init hostName processId isDiscoveryStarted).nodeGraph.topology = fun _ => ∅ :=
      Graph.topology_empty
    rw [htopology] at hq
    exact absurd hq (Set.notMem_empty q)
  unambiguous e he := by
    rw [registered_init] at he
    exact absurd (he .src) (Set.notMem_empty _)

theorem exact_foldl_dispose (h : ∀ msg ∈ msgs, msg.operateType = .leave) (hg : m.nodeGraph.Exact)
    (hE : KeysDistinct m.nodeGraph.topology.joined) : (msgs.foldl dispose m).nodeGraph.Exact := by
  induction msgs generalizing m with
  | nil => exact hg
  | cons msg msgs ih =>
    obtain ⟨hmsg, hmsgs⟩ := forall_mem_cons.mp h
    rw [foldl_cons, dispose_of_leave hmsg]
    refine ih hmsgs (hg.delete hE) (hE.mono (Topology.joined_mono fun side => ?_))
    rw [topology_disposeLeave]
    exact Set.sdiff_subset

/-- **The graph follows the registry over a call.** -/
theorem Inv.step (h : m.Inv) (hC : Tracks m e) (hE : (m.step e).Unambiguous) : (m.step e).Inv := by
  have hindexed := h.indexed.step e
  have hagree := (h.indexed.agree_step_iff h.agree e).mpr hC.covers
  rcases messages_cases h.indexed e with ⟨msg, hmsg, hjoin, -⟩ | hleave
  · have hnamed := hC.named msg (by simp [hmsg]) hjoin
    have hstep := step_eq_disposeJoin hmsg hjoin
    have htopology : (m.step e).nodeGraph.topology = (m.step e).registered .channel := by
      funext side
      rw [hstep, topology_disposeJoin_of_named hnamed, registered_disposeJoin, h.topology]
    refine ⟨hindexed, hagree, ?_, htopology, fun side q hq => ?_, hE⟩
    · rw [Unambiguous, ← htopology, hstep] at hE
      rw [hstep]
      exact h.exact.insert hE
    · rw [hstep, topology_disposeJoin_of_named hnamed] at hq
      rcases hq with hq | ⟨-, rfl⟩
      · exact h.named side q hq
      · exact hnamed
  · have hleaves : ∀ msg ∈ m.messages e, msg.operateType = .leave := fun msg hmsg =>
      (hleave msg hmsg).1
    have htopology (side : Side) : (m.step e).nodeGraph.topology side =
        m.nodeGraph.topology side \ departing (m.messages e) side :=
      topology_foldl_dispose hleaves (h.named side)
    refine ⟨hindexed, hagree, ?_, ?_, fun side q hq => ?_, hE⟩
    · refine exact_foldl_dispose hleaves h.exact ?_
      rw [h.topology]
      exact h.unambiguous
    · funext side
      rw [htopology, hC.registered_step h.indexed hleave, h.topology]
    · rw [htopology] at hq
      exact h.named side q hq.1

theorem Inv.link_iff (h : m.Inv) {A B c : String} (index : Index) :
    m.nodeGraph.Link ⟨A⟩ ⟨B⟩ c ↔
      (c, ⟨A⟩) ∈ m.registered index .src ∧ (c, ⟨B⟩) ∈ m.registered index .dst := by
  rw [h.exact.link_iff, h.topology, ← h.agree.registered_eq index]
  exact Topology.mem_joined _ .src

/-- **When the graph agrees with the registry.** After every sequence of calls at each of which the
graph follows the registry and the names of the registered roles make distinct keys, the graph has a
link from the node `A` to the node `B` through the channel `c` if and only if a writer of `A` on `c`
and a reader of `B` on `c` are registered, in either warehouse of each side. -/
theorem link_iff_registered (hostName : String) (processId : ℤ) (isDiscoveryStarted : Bool)
    (es : List Manager.Event)
    (hC : AllSteps (fun m e => some (m.step e)) (fun m e => Tracks m e ∧ (m.step e).Unambiguous)
      (init hostName processId isDiscoveryStarted) es) (A B c : String) (index : Index) :
    let m := (init hostName processId isDiscoveryStarted).run es
    m.nodeGraph.Link ⟨A⟩ ⟨B⟩ c ↔
      (∃ w ∈ (m.warehouse .src index).values,
        w.attributes.getNodeName = A ∧ w.attributes.getChannelName = c) ∧
      ∃ r ∈ (m.warehouse .dst index).values,
        r.attributes.getNodeName = B ∧ r.attributes.getChannelName = c := by
  intro m
  have hinv : m.Inv := by
    refine exec_invariant_of_allSteps Inv ?_ (inv_init hostName processId isDiscoveryStarted) hC
      (exec_total step _ es)
    rintro m e m' h ⟨htracks, hE⟩ hstep
    obtain rfl := Option.some.inj hstep
    exact h.step htracks hE
  rw [hinv.link_iff index, mem_registered, mem_registered]

/-- The attributes of a role on the channel `chatter`. -/
def chatterAttr (nodeName : String) (nodeId id : ℕ) : RoleAttributes where
  nodeName := some nodeName
  nodeId := some nodeId
  channelName := some "chatter"
  channelId := some 3
  id := some id

/-- Two writers and a reader join, and one of the writers leaves. -/
def writerLeaves (nodeName : String) (nodeId : ℕ) : List Manager.Event :=
  [.join (chatterAttr "talker" 7 1) .writer 10,
    .join (chatterAttr nodeName nodeId 2) .writer 20,
    .join (chatterAttr "listener" 9 3) .reader 30,
    .leave (chatterAttr nodeName nodeId 2) .writer 40]

theorem unambiguous_of_subsingleton (h : ∀ r ∈ (m.warehouse .dst .channel).values,
    ∀ r' ∈ (m.warehouse .dst .channel).values, halfEdge r.attributes = halfEdge r'.attributes) :
    m.Unambiguous := by
  rintro ⟨s, d, v⟩ he ⟨s', d', v'⟩ he' heq
  obtain ⟨r, hr, hedge⟩ := he .dst
  obtain ⟨r', hr', hedge'⟩ := he' .dst
  obtain ⟨rfl, rfl⟩ := Prod.ext_iff.mp (hedge.symm.trans ((h r hr r' hr').trans hedge'))
  obtain ⟨rfl, -⟩ := Prod.ext_iff.mp heq
  rfl

theorem link_iff_registered_writer_leaves :
    let m := (init "host" 1 true).run (writerLeaves "recorder" 8)
    m.nodeGraph.Link ⟨"talker"⟩ ⟨"listener"⟩ "chatter" ∧
      ¬m.nodeGraph.Link ⟨"recorder"⟩ ⟨"listener"⟩ "chatter" := by
  have hC : AllSteps (fun m e => some (m.step e)) (fun m e => Tracks m e ∧ (m.step e).Unambiguous)
      (init "host" 1 true) (writerLeaves "recorder" 8) := by
    refine (allSteps_cons rfl).mpr ⟨⟨by decide +kernel, ?_⟩, (allSteps_cons rfl).mpr
      ⟨⟨by decide +kernel, ?_⟩, (allSteps_cons rfl).mpr ⟨⟨by decide +kernel, ?_⟩,
        (allSteps_cons rfl).mpr ⟨⟨by decide +kernel, ?_⟩, allSteps_nil _⟩⟩⟩⟩
    all_goals exact unambiguous_of_subsingleton (by decide +kernel)
  exact ⟨(link_iff_registered "host" 1 true _ hC _ _ _ .channel).mpr (by decide +kernel),
    mt (link_iff_registered "host" 1 true _ hC _ _ _ .channel).mp (by decide +kernel)⟩

/-- Two writers of one node join, and one of them leaves: the link to the reader is gone, and the
other writer and the reader are still registered. -/
theorem leave_drops_link :
    let m := (init "host" 1 true).run (writerLeaves "talker" 7)
    ¬m.nodeGraph.Link ⟨"talker"⟩ ⟨"listener"⟩ "chatter" ∧
      (∃ w ∈ m.channelWriters.values,
        w.attributes.getNodeName = "talker" ∧ w.attributes.getChannelName = "chatter") ∧
      ∃ r ∈ m.channelReaders.values,
        r.attributes.getNodeName = "listener" ∧ r.attributes.getChannelName = "chatter" := by
  decide +kernel

end ChannelManager

end Cyber
