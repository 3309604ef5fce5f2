import Notebook.Cyber.ServiceDiscovery.GraphJoin

/-!
# Histories of the topology graph

`Insert` and `Delete` are put together from the functions on half-edges, `GetNumOfEdge` counts the
entries of the adjacency list, and a history is a sequence of calls. The adjacency list and the
count are right until two joined edges share source and key.
-/

open Interleaving Container Function List

namespace Cyber

namespace Graph

variable {g : Graph} {side : Side} {e : Edge}

/-! ### `Insert` and `Delete` -/

theorem related_touch (g : Graph) (v v' : String) : (g.touch v).related v' = g.related v' := by
  unfold touch
  split_ifs with hmem
  · rfl
  · rw [related_insert]
    split_ifs with hv
    · subst hv
      exact (valueAt_of_notMem hmem).symm
    · rfl

theorem topology_touch (g : Graph) (v : String) : (g.touch v).topology = g.topology := by
  unfold topology
  simp only [related_touch]

theorem list_touch (g : Graph) (v : String) : (g.touch v).list = g.list := by
  unfold touch
  split_ifs <;> rfl

theorem Exact.touch (h : g.Exact) (v : String) : (g.touch v).Exact where
  keyed v' := by
    rw [related_touch]
    exact h.keyed v'
  represents := by
    rw [topology_touch, list_touch]
    exact h.represents

theorem half_of_isValid (hv : e.isValid) (hx : (!(e.vertice side).isDummy) = true) :
    Topology.half e side = {(e.value, e.vertice side)} := by
  ext p
  simp_all [Topology.half]

theorem half_of_isDummy (hx : ¬(!(e.vertice side).isDummy) = true) :
    Topology.half e side = ∅ := by
  ext p
  simp_all [Topology.half]

theorem half_of_not_isValid (hv : ¬e.isValid) (side : Side) : Topology.half e side = ∅ := by
  simp [Topology.half, hv]

theorem topology_insertEnd (g : Graph) (side : Side) (hv : e.isValid) :
    (if !(e.vertice side).isDummy then insertHalfEdge side g e else g).topology =
      update g.topology side (g.topology side ∪ Topology.half e side) := by
  split_ifs with hx
  · rw [topology_insertHalfEdge, half_of_isValid hv hx, Set.union_singleton]
  · rw [half_of_isDummy hx, Set.union_empty, update_eq_self]

theorem topology_deleteEnd (g : Graph) (side : Side) (hv : e.isValid) :
    (if !(e.vertice side).isDummy then deleteHalfEdge side g e else g).topology =
      update g.topology side (g.topology side \ Topology.half e side) := by
  split_ifs with hx
  · rw [topology_deleteHalfEdge, half_of_isValid hv hx]
  · rw [half_of_isDummy hx, Set.sdiff_empty, update_eq_self]

theorem Exact.insertEnd (h : g.Exact) (side : Side)
    (hE : KeysDistinct
      (if !(e.vertice side).isDummy then Graph.insertHalfEdge side g e else g).topology.joined) :
    (if !(e.vertice side).isDummy then Graph.insertHalfEdge side g e else g).Exact := by
  split_ifs at hE ⊢
  · exact h.insertHalfEdge hE
  · exact h

theorem Exact.deleteEnd (h : g.Exact) (side : Side) (hE : KeysDistinct g.topology.joined) :
    (if !(e.vertice side).isDummy then Graph.deleteHalfEdge side g e else g).Exact := by
  split_ifs
  · exact h.deleteHalfEdge hE
  · exact h

theorem insert_of_not_isValid (hv : ¬e.isValid) (g : Graph) : g.insert e = g :=
  if_pos (by simpa using hv)

theorem delete_of_not_isValid (hv : ¬e.isValid) (g : Graph) : g.delete e = g :=
  if_pos (by simpa using hv)

theorem delete_of_notMem (hmem : e.value ∉ g.edges) : g.delete e = g := by
  simp [Graph.delete, hmem]

theorem insert_of_isValid (hv : e.isValid) (g : Graph) : g.insert e =
    let g₁ := if !(e.vertice .src).isDummy then insertHalfEdge .src (g.touch e.value) e
      else g.touch e.value
    if !(e.vertice .dst).isDummy then insertHalfEdge .dst g₁ e else g₁ := by
  simp only [Graph.insert, hv, Bool.not_true, Bool.false_eq_true, if_false]
  rfl

theorem delete_of_isValid (hv : e.isValid) (hmem : e.value ∈ g.edges) : g.delete e =
    let g₁ := if !(e.vertice .src).isDummy then deleteHalfEdge .src g e else g
    if !(e.vertice .dst).isDummy then deleteHalfEdge .dst g₁ e else g₁ := by
  simp only [Graph.delete, hv, Bool.not_true, Bool.false_eq_true, if_false, hmem, not_true]
  rfl

theorem topology_delete_of_notMem (hmem : e.value ∉ g.edges) :
    g.topology.delete e = g.topology := by
  funext side
  refine sdiff_eq_left.mpr (Set.disjoint_left.mpr ?_)
  rintro ⟨v, x⟩ hp ⟨-, -, heq⟩
  obtain ⟨rfl, -⟩ := Prod.mk.inj heq
  exact hmem (mem_edges_of_mem hp)

theorem topology_insert (g : Graph) (e : Edge) : (g.insert e).topology = g.topology.insert e := by
  by_cases hv : e.isValid
  · rw [insert_of_isValid hv, topology_insertEnd _ .dst hv, topology_insertEnd _ .src hv,
      topology_touch]
    funext side
    cases side <;> rfl
  · funext side
    rw [insert_of_not_isValid hv, Topology.insert, half_of_not_isValid hv, Set.union_empty]

theorem topology_delete (g : Graph) (e : Edge) : (g.delete e).topology = g.topology.delete e := by
  by_cases hv : e.isValid
  · by_cases hmem : e.value ∈ g.edges
    · rw [delete_of_isValid hv hmem, topology_deleteEnd _ .dst hv, topology_deleteEnd _ .src hv]
      funext side
      cases side <;> rfl
    · rw [delete_of_notMem hmem, topology_delete_of_notMem hmem]
  · funext side
    rw [delete_of_not_isValid hv, Topology.delete, half_of_not_isValid hv, Set.sdiff_empty]

theorem topology_empty : topology {} = fun _ => ∅ := by
  funext side
  exact Set.eq_empty_of_forall_notMem fun p hp =>
    absurd (mem_edges_of_mem (g := {}) hp) (AList.notMem_empty _)

/-- **`edges_` refines the abstract topology.** -/
theorem topology_apply (g : Graph) (op : Op) : (g.apply op).topology = g.topology.apply op := by
  cases op with
  | insert e => exact topology_insert g e
  | delete e => exact topology_delete g e

/-- The half-edges after a sequence of calls are those of the abstract topology. -/
theorem topology_run (ops : List Op) :
    (run ops).topology = ops.foldl Topology.apply fun _ => ∅ := by
  rw [← topology_empty]
  exact (foldl_hom topology fun g op => (topology_apply g op).symm).symm

theorem Exact.insert (h : g.Exact) (hE : KeysDistinct (g.insert e).topology.joined) :
    (g.insert e).Exact := by
  by_cases hv : e.isValid
  · rw [insert_of_isValid hv] at hE ⊢
    refine ((h.touch e.value).insertEnd .src (hE.mono (Topology.joined_mono ?_))).insertEnd .dst hE
    -- the second call only adds half-edges
    rw [topology_insertEnd _ .dst hv]
    intro side
    cases side with
    | src => exact subset_rfl
    | dst => exact Set.subset_union_left
  · rwa [insert_of_not_isValid hv]

theorem Exact.delete (h : g.Exact) (hE : KeysDistinct g.topology.joined) :
    (g.delete e).Exact := by
  by_cases hv : e.isValid
  · by_cases hmem : e.value ∈ g.edges
    · rw [delete_of_isValid hv hmem]
      refine (h.deleteEnd .src hE).deleteEnd .dst (hE.mono (Topology.joined_mono ?_))
      -- the first call only removes half-edges
      rw [topology_deleteEnd _ .src hv]
      intro side
      cases side with
      | src => exact Set.sdiff_subset
      | dst => exact subset_rfl
    · rwa [delete_of_notMem hmem]
  · rwa [delete_of_not_isValid hv]

/-- A call keeps the adjacency list exact when the joined edges have distinct keys before and after
it. -/
theorem Exact.apply (h : g.Exact) (hE : KeysDistinct g.topology.joined) {op : Op}
    (hE' : KeysDistinct (g.apply op).topology.joined) : (g.apply op).Exact := by
  cases op with
  | insert e => exact h.insert hE'
  | delete e => exact h.delete hE

/-! ### Counting -/

theorem getNumOfEdge_eq_size₂ (g : Graph) : g.getNumOfEdge = uint32 (size₂ g.list) := by
  have h := foldl_uint32_add (fun item : Sigma fun _ : String => VerticeSet =>
    item.2.entries.length) g.list.entries (Nat.two_pow_pos 32)
  rwa [zero_add] at h

/-- The joined edges, channel by channel. -/
def joinedEdges (g : Graph) : List Edge :=
  g.edges.entries.flatMap fun item =>
    ((item.2.src.entries.map Sigma.snd) ×ˢ (item.2.dst.entries.map Sigma.snd)).map
      fun p => ⟨p.1, p.2, item.1⟩

theorem length_joinedEdges (g : Graph) : g.joinedEdges.length = g.numOfJoined := by
  simp [joinedEdges, numOfJoined, length_flatMap, length_product]

theorem KeyedSet.nodup {m : VerticeSet} (hm : KeyedSet m) : (m.entries.map Sigma.snd).Nodup := by
  refine List.Nodup.of_map Vertice.getKey ?_
  have hkeys : (m.entries.map Sigma.snd).map Vertice.getKey = m.keys := by
    rw [map_map]
    exact map_congr_left hm
  rw [hkeys]
  exact m.keys_nodup

theorem related_of_mem {item : Sigma fun _ : String => RelatedVertices}
    (h : item ∈ g.edges.entries) : g.related item.1 = item.2 :=
  valueAt_of_lookup (AList.mem_lookup_iff.mpr h)

theorem mem_joinedEdges (hg : g.Keyed) : e ∈ g.joinedEdges ↔ e ∈ g.topology.joined := by
  rw [Topology.mem_joined _ .src, joinedEdges, mem_flatMap]
  constructor
  · rintro ⟨item, hitem, he⟩
    obtain ⟨⟨s, d⟩, hsd, rfl⟩ := mem_map.mp he
    obtain ⟨hs, hd⟩ := mem_product.mp hsd
    rw [← related_of_mem hitem] at hs hd
    exact ⟨(hg item.1 .src).exists_mem_entries.mp (mem_map.mp hs),
      (hg item.1 .dst).exists_mem_entries.mp (mem_map.mp hd)⟩
  · rintro ⟨hs, hd⟩
    have hmem : e.value ∈ g.edges := mem_edges_of_mem hs
    obtain ⟨r, hr⟩ := Option.isSome_iff_exists.mp (AList.lookup_isSome.mpr hmem)
    have hrel : g.related e.value = r := valueAt_of_lookup hr
    refine ⟨⟨e.value, r⟩, AList.mem_lookup_iff.mp hr, mem_map.mpr ⟨(e.src, e.dst), ?_, rfl⟩⟩
    subst hrel
    exact mem_product.mpr ⟨mem_map.mpr ((hg e.value .src).exists_mem_entries.mpr hs),
      mem_map.mpr ((hg e.value .dst).exists_mem_entries.mpr hd)⟩

theorem nodup_joinedEdges (hg : g.Keyed) : g.joinedEdges.Nodup := by
  refine nodup_flatMap.mpr ⟨fun item hitem => ?_, ?_⟩
  · have hsrc := hg item.1 .src
    have hdst := hg item.1 .dst
    rw [related_of_mem hitem] at hsrc hdst
    refine (hsrc.nodup.product hdst.nodup).map fun p p' h => ?_
    obtain ⟨h₁, h₂, -⟩ := Edge.mk.inj h
    exact Prod.ext h₁ h₂
  · -- edges of different channels are different
    refine (nodupKeys_iff_pairwise.mp g.edges.nodupKeys).imp fun {item item'} hne => ?_
    rintro e he he'
    obtain ⟨_, -, rfl⟩ := mem_map.mp he
    obtain ⟨_, -, heq⟩ := mem_map.mp he'
    exact hne (Edge.mk.inj heq).2.2.symm

/-- **The number of entries of an exact adjacency list.** Each joined edge has its own place. -/
theorem Exact.size₂_eq (h : g.Exact) (hE : KeysDistinct g.topology.joined) :
    size₂ g.list = g.numOfJoined := by
  have hplaces : (g.joinedEdges.map fun e => (e.src.getKey, e.getKey)).Nodup := by
    refine (nodup_joinedEdges h.keyed).map_on fun e he e' he' heq => ?_
    obtain ⟨hs, hk⟩ := Prod.mk.inj heq
    exact eq_of_place hE ((mem_joinedEdges h.keyed).mp he) ((mem_joinedEdges h.keyed).mp he') hs hk
  have hperm : (pairs g.list).Perm (g.joinedEdges.map fun e => (e.src.getKey, e.getKey)) := by
    refine (perm_ext_iff_of_nodup (nodup_pairs g.list) hplaces).mpr ?_
    rintro ⟨s, k⟩
    simp only [mem_pairs, h.represents s k, mem_map, mem_joinedEdges h.keyed, Prod.mk.injEq]
    constructor
    · rintro ⟨d, e, he, hs, hk, -⟩
      exact ⟨e, he, hs, hk⟩
    · rintro ⟨e, he, hs, hk⟩
      exact ⟨e.dst, e, he, hs, hk, rfl⟩
  calc size₂ g.list = (pairs g.list).length := (length_pairs g.list).symm
    _ = (g.joinedEdges.map fun e => (e.src.getKey, e.getKey)).length := hperm.length_eq
    _ = g.numOfJoined := by rw [length_map, length_joinedEdges]

/-! ### Histories -/

/-- The adjacency list has a link exactly for each joined edge, and `GetNumOfEdge` is the number of
sources times the number of destinations, over all channels. -/
def LinksExact (g : Graph) : Prop :=
  (∀ s d v, g.Link s d v ↔ s.getKey ∈ (g.related v).src ∧ d.getKey ∈ (g.related v).dst) ∧
    g.getNumOfEdge = g.numOfJoined

/-- No two joined edges share source and key, and their number fits a `uint32_t`. -/
def Unambiguous (g : Graph) : Prop :=
  KeysDistinct g.topology.joined ∧ g.numOfJoined < 2 ^ 32

theorem mem_joined_mk {s d : Vertice} {v : String} : (⟨s, d, v⟩ : Edge) ∈ g.topology.joined ↔
    s.getKey ∈ (g.related v).src ∧ d.getKey ∈ (g.related v).dst :=
  g.topology.mem_joined .src

theorem Exact.link_iff (h : g.Exact) {s d : Vertice} {v : String} :
    g.Link s d v ↔ (⟨s, d, v⟩ : Edge) ∈ g.topology.joined := by
  rw [Link, h.represents]
  constructor
  · rintro ⟨e, he, hs, hk, hd⟩
    rwa [Edge.eq_of_getKey (e := ⟨s, d, v⟩) (Vertice.getKey_injective hs).symm hd.symm hk.symm]
  · intro he
    exact ⟨_, he, rfl, rfl, rfl⟩

theorem Exact.linksExact (h : g.Exact) (hg : g.Unambiguous) : g.LinksExact := by
  refine ⟨fun s d v => ?_, ?_⟩
  · rw [h.link_iff, mem_joined_mk]
  · rw [getNumOfEdge_eq_size₂, h.size₂_eq hg.1, uint32_eq_self hg.2]

theorem LinksExact.unambiguous (h : g.LinksExact) : g.Unambiguous := by
  refine ⟨fun e he e' he' heq => ?_, ?_⟩
  · obtain ⟨hs, hk⟩ := Prod.mk.inj heq
    have hlink : g.Link e.src e.dst e.value := (h.1 _ _ _).mpr (mem_joined_mk.mp he)
    have hlink' : g.Link e'.src e'.dst e'.value := (h.1 _ _ _).mpr (mem_joined_mk.mp he')
    have hplace : lookup₂ g.list e.src.getKey e.getKey = some e'.dst := by
      rw [hs, hk]
      exact hlink'
    exact Edge.eq_of_getKey hs (Option.some.inj (hlink.symm.trans hplace)) hk
  · rw [← h.2, getNumOfEdge_eq_size₂]
    exact uint32_lt _

theorem exact_empty : Exact {} where
  keyed v side := by cases side <;> nofun
  represents s k d := by
    refine iff_of_false nofun ?_
    rintro ⟨e, he, -⟩
    rw [topology_empty] at he
    exact he .src

/-- The adjacency list stays exact along calls after each of which the joined edges have distinct
keys. -/
theorem exact_run {ops : List Op}
    (h : ∀ ops', ops' <+: ops → KeysDistinct (run ops').topology.joined) : (run ops).Exact := by
  induction ops using List.reverseRecOn with
  | nil => exact exact_empty
  | append_singleton ops op ih =>
    have hrun : run (ops ++ [op]) = (run ops).apply op :=
      foldl_concat ..
    have hpre : ops <+: ops ++ [op] := prefix_append ops [op]
    have hexact := ih fun ops' hops => h ops' (hops.trans hpre)
    have hdistinct := h (ops ++ [op]) prefix_rfl
    rw [hrun] at hdistinct ⊢
    exact hexact.apply (h ops hpre) hdistinct

/-- **When the adjacency list is the join of the half-edges.** Along any sequence of `Insert` and
`Delete` calls, the adjacency list and `GetNumOfEdge` are right after each call if and only if
after each call no two joined edges have one source and one key `value + "_" + dst`, and there are
fewer than `2 ^ 32` joined edges. -/
theorem links_exact_iff (ops : List Op) :
    (∀ ops', ops' <+: ops → (run ops').LinksExact) ↔
      ∀ ops', ops' <+: ops → (run ops').Unambiguous := by
  constructor
  · intro h ops' hops
    exact (h ops' hops).unambiguous
  · intro h ops' hops
    exact (exact_run fun ops₁ hops₁ => (h ops₁ (hops₁.trans hops)).1).linksExact (h ops' hops)

/-- Node `s` writes the channels `a` and `a_b`, read by the nodes `b_c` and `c`. Both edges have the
key `a_b_c`: the link through `a` is gone, and one edge is counted instead of two. -/
theorem links_collide :
    let g := run [.insert ⟨⟨"s"⟩, ⟨"b_c"⟩, "a"⟩, .insert ⟨⟨"s"⟩, ⟨"c"⟩, "a_b"⟩]
    ¬g.Link ⟨"s"⟩ ⟨"b_c"⟩ "a" ∧ "s" ∈ (g.related "a").src ∧ "b_c" ∈ (g.related "a").dst ∧
      g.getNumOfEdge = 1 ∧ g.numOfJoined = 2 := by
  decide +kernel

end Graph

end Cyber
