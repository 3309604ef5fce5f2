import Notebook.Cyber.ServiceDiscovery.Graph

/-!
# The adjacency list is the join of the half-edges

Abstractly, the topology is a set of sources and a set of destinations, each paired with its
channel, and an edge is *joined* when both its ends are there. The fields of `Graph` refine this:
`edges_` holds the two sets, and `list_` should hold the joined edges. A joined edge is stored under
its source and its key `value + "_" + dst`, and two joined edges with one source can have the same
key: channel `a` to the node `b_c`, and channel `a_b` to the node `c`. Then one of them replaces the
other, and deleting either removes the entry of both.
-/

open Interleaving Container Function List Option

namespace Cyber

/-! ### The abstract topology -/

/-- The sources and the destinations, each with its channel. -/
abbrev Topology : Type := Side → Set (String × Vertice)

namespace Topology

/-- The edges both of whose ends are there. -/
def joined (t : Topology) : Set Edge := {e | ∀ side, (e.value, e.vertice side) ∈ t side}

/-- The half-edges of `e`; a dummy end is none. -/
def half (e : Edge) : Topology := fun side =>
  {p | e.isValid ∧ ¬(e.vertice side).isDummy ∧ p = (e.value, e.vertice side)}

/-- The half-edges of an edge are added. -/
protected def insert (t : Topology) (e : Edge) : Topology := fun side => t side ∪ half e side

/-- The half-edges of an edge are removed. -/
protected def delete (t : Topology) (e : Edge) : Topology := fun side => t side \ half e side

/-- The abstract effect of a call. -/
def apply (t : Topology) : Graph.Op → Topology
  | .insert e => t.insert e
  | .delete e => t.delete e

/-! #### Moving one half-edge -/

variable (t : Topology) (side : Side) (v : String) (x : Vertice)

/-- The edges through the channel `v` that have `x` at one end, and at the other end a vertex of
the topology. -/
def joining : Set Edge :=
  {e | e.value = v ∧ e.vertice side = x ∧ (v, e.vertice side.other) ∈ t side.other}

theorem mem_joined {e : Edge} : e ∈ t.joined ↔
    (e.value, e.vertice side) ∈ t side ∧ (e.value, e.vertice side.other) ∈ t side.other :=
  Side.forall_iff side

theorem joined_update_insert : joined (update t side (insert (v, x) (t side))) =
    t.joined ∪ t.joining side v x := by
  ext e
  rw [Set.mem_union, mem_joined _ side, mem_joined _ side, update_self,
    update_of_ne side.other_ne, Set.mem_insert_iff, Prod.mk.injEq, joining,
    Set.mem_ofPred_eq]
  grind

theorem joined_update_sdiff : joined (update t side (t side \ {(v, x)})) =
    t.joined \ t.joining side v x := by
  ext e
  rw [Set.mem_sdiff, mem_joined _ side, mem_joined _ side, update_self,
    update_of_ne side.other_ne, Set.mem_sdiff, Set.mem_singleton_iff, Prod.mk.injEq,
    joining, Set.mem_ofPred_eq]
  grind

variable {t side v x}

theorem joining_subset_joined (h : (v, x) ∈ t side) : t.joining side v x ⊆ t.joined := by
  rintro e ⟨rfl, rfl, hother⟩
  exact (t.mem_joined side).mpr ⟨h, hother⟩

theorem joined_mono {t t' : Topology} (h : ∀ side, t side ⊆ t' side) : t.joined ⊆ t'.joined :=
  fun _ he side => h side (he side)

end Topology

/-- No two edges of the set have the same source and the same key. -/
def KeysDistinct (E : Set Edge) : Prop := Set.InjOn (fun e : Edge => (e.src, e.getKey)) E

/-- The channel and the destination of an edge determine its key, and the key and the destination
determine the channel. -/
theorem Edge.eq_of_getKey {e e' : Edge} (hs : e.src = e'.src) (hd : e.dst = e'.dst)
    (hk : e.getKey = e'.getKey) : e = e' := by
  obtain ⟨s, d, v⟩ := e
  obtain ⟨s', d', v'⟩ := e'
  obtain rfl : s = s' := hs
  obtain rfl : d = d' := hd
  have hv : v ++ "_" ++ d.getKey = v' ++ "_" ++ d.getKey := hk
  rw [String.append_left_inj, String.append_left_inj] at hv
  rw [hv]

namespace Graph

/-! ### The adjacency list as a set of edges -/

/-- The adjacency list holds exactly the edges of `E`. -/
def Represents (list : AdjacencyList) (E : Set Edge) : Prop :=
  ∀ s k d, lookup₂ list s k = some d ↔ ∃ e ∈ E, e.src.getKey = s ∧ e.getKey = k ∧ e.dst = d

variable {list : AdjacencyList} {E : Set Edge} {e : Edge} {es : List Edge}

theorem lookup₂_ensure (list : AdjacencyList) (key s k : String) :
    lookup₂ (ensure list key) s k = lookup₂ list s k := by
  unfold ensure
  split_ifs with hkey
  · rfl
  · exact lookup₂_insert_empty s k hkey

/-- Among edges with distinct keys, the place of an edge in the adjacency list determines it. -/
theorem eq_of_place (hE : KeysDistinct E) {e' : Edge} (he : e ∈ E) (he' : e' ∈ E)
    (hs : e.src.getKey = e'.src.getKey) (hk : e.getKey = e'.getKey) : e = e' :=
  hE he he' (Prod.ext (Vertice.getKey_injective hs) hk)

theorem Represents.insertEdge (h : Represents list E) (hE : KeysDistinct (insert e E)) :
    Represents (insertCompleteEdge list e) (insert e E) := by
  intro s k d
  rw [insertCompleteEdge, lookup₂_insert, lookup₂_ensure, lookup₂_ensure]
  split_ifs with hsk
  · obtain ⟨rfl, rfl⟩ := hsk
    constructor
    · intro hd
      exact ⟨e, .inl rfl, rfl, rfl, some.inj hd⟩
    · rintro ⟨e', he', hs, hk, rfl⟩
      rw [eq_of_place hE he' (.inl rfl) hs hk]
  · rw [h s k d]
    constructor
    · rintro ⟨e', he', hplace⟩
      exact ⟨e', .inr he', hplace⟩
    · rintro ⟨e', rfl | he', hs, hk, hd⟩
      · exact absurd ⟨hs.symm, hk.symm⟩ hsk
      · exact ⟨e', he', hs, hk, hd⟩

theorem Represents.eraseEdge (h : Represents list E) (hE : KeysDistinct (insert e E)) :
    Represents (deleteCompleteEdge list e) (E \ {e}) := by
  intro s k d
  rw [deleteCompleteEdge, lookup₂_erase]
  split_ifs with hsk
  · obtain ⟨rfl, rfl⟩ := hsk
    refine iff_of_false nofun ?_
    rintro ⟨e', ⟨he', hne⟩, hs, hk, -⟩
    exact hne (eq_of_place hE (.inr he') (.inl rfl) hs hk)
  · rw [h s k d]
    constructor
    · rintro ⟨e', he', hs, hk, hd⟩
      refine ⟨e', ⟨he', ?_⟩, hs, hk, hd⟩
      rintro rfl
      exact hsk ⟨hs.symm, hk.symm⟩
    · rintro ⟨e', ⟨he', -⟩, hplace⟩
      exact ⟨e', he', hplace⟩

theorem Represents.insertAll (h : Represents list E) (hE : KeysDistinct (E ∪ {e | e ∈ es})) :
    Represents (es.foldl insertCompleteEdge list) (E ∪ {e | e ∈ es}) := by
  induction es generalizing list E with
  | nil => simpa using h
  | cons e es ih =>
    have hunion : E ∪ {e' | e' ∈ e :: es} = insert e E ∪ {e' | e' ∈ es} := by
      ext e'
      simp only [mem_cons, Set.mem_union, Set.mem_ofPred_eq, Set.mem_insert_iff]
      tauto
    rw [hunion] at hE ⊢
    exact ih (h.insertEdge (hE.mono Set.subset_union_left)) hE

theorem Represents.eraseAll (h : Represents list E) (hE : KeysDistinct (E ∪ {e | e ∈ es})) :
    Represents (es.foldl deleteCompleteEdge list) (E \ {e | e ∈ es}) := by
  induction es generalizing list E with
  | nil => simpa using h
  | cons e es ih =>
    have hdiff : E \ {e' | e' ∈ e :: es} = (E \ {e}) \ {e' | e' ∈ es} := by
      ext e'
      simp only [mem_cons, Set.mem_sdiff, Set.mem_ofPred_eq, Set.mem_singleton_iff]
      tauto
    rw [hdiff]
    refine ih (h.eraseEdge (hE.mono ?_)) (hE.mono ?_)
    · rintro e' (rfl | he')
      · exact .inr mem_cons_self
      · exact .inl he'
    · rintro e' (⟨he', -⟩ | he')
      · exact .inl he'
      · exact .inr (mem_cons_of_mem e he')

/-! ### The half-edges in `edges_` -/

/-- Every vertex of the set is stored under its own key. -/
def KeyedSet (m : VerticeSet) : Prop := ∀ item ∈ m.entries, item.2.getKey = item.1

variable {m : VerticeSet}

theorem KeyedSet.insert (hm : KeyedSet m) (v : Vertice) : KeyedSet (m.insert v.getKey v) := by
  intro item hitem
  rw [AList.entries_insert] at hitem
  rcases mem_cons.mp hitem with rfl | hitem
  · rfl
  · exact hm item ((kerase_sublist _ _).subset hitem)

theorem KeyedSet.erase (hm : KeyedSet m) (key : String) :
    KeyedSet (m.erase key) := fun item hitem => hm item ((kerase_sublist _ _).subset hitem)

theorem KeyedSet.exists_mem_entries (hm : KeyedSet m) {v : Vertice} :
    (∃ item ∈ m.entries, item.2 = v) ↔ v.getKey ∈ m := by
  constructor
  · rintro ⟨⟨k, x⟩, hitem, rfl⟩
    obtain rfl : x.getKey = k := hm _ hitem
    exact AList.lookup_isSome.mp (isSome_iff_exists.mpr ⟨x, AList.mem_lookup_iff.mpr hitem⟩)
  · intro hv
    obtain ⟨x, hx⟩ := isSome_iff_exists.mp (AList.lookup_isSome.mpr hv)
    have hitem := AList.mem_lookup_iff.mp hx
    exact ⟨_, hitem, Vertice.getKey_injective (hm _ hitem)⟩

/-- Sources and destinations are stored under their own keys. -/
def Keyed (g : Graph) : Prop := ∀ v side, KeyedSet ((g.related v).vertices side)

/-- The half-edges that `edges_` holds. -/
def topology (g : Graph) : Topology := fun side =>
  {p | p.2.getKey ∈ (g.related p.1).vertices side}

variable {g : Graph} {side : Side}

theorem vertices_setVertices (r : RelatedVertices) (m : VerticeSet) (side : Side) :
    (r.setVertices m side).vertices = update r.vertices side m := by
  funext i
  cases side <;> cases i <;> rfl

theorem related_insert (g : Graph) (list : AdjacencyList) (v v' : String) (r : RelatedVertices) :
    related ⟨g.edges.insert v r, list⟩ v' = if v' = v then r else g.related v' := by
  split_ifs with hv
  · subst hv
    exact valueAt_insert_self g.edges v' r
  · exact valueAt_insert_of_ne g.edges r hv

theorem mem_topology_insert (g : Graph) (list : AdjacencyList) (v : String) (m : VerticeSet)
    (side i : Side) (p : String × Vertice) :
    p ∈ topology ⟨g.edges.insert v ((g.related v).setVertices m side), list⟩ i ↔
      if i = side ∧ p.1 = v then p.2.getKey ∈ m else p ∈ g.topology i := by
  obtain ⟨v', x⟩ := p
  simp only [topology, related_insert, Set.mem_ofPred_eq]
  by_cases hv : v' = v
  · subst hv
    by_cases hi : i = side
    · subst hi
      simp [vertices_setVertices]
    · simp [vertices_setVertices, hi]
  · simp [hv]

theorem keyed_insert (hg : g.Keyed) (list : AdjacencyList) (v : String) (hm : KeyedSet m)
    (side : Side) :
    Keyed ⟨g.edges.insert v ((g.related v).setVertices m side), list⟩ := by
  intro v' i
  rw [related_insert]
  split_ifs with hv
  · rw [vertices_setVertices]
    by_cases hi : i = side
    · subst hi
      rwa [update_self]
    · rw [update_of_ne hi]
      exact hg v i
  · exact hg v' i

theorem mem_edges_of_mem {v key : String} (h : key ∈ (g.related v).vertices side) :
    v ∈ g.edges := by
  by_contra hmem
  have hrel : g.related v = {} := valueAt_of_notMem hmem
  rw [hrel] at h
  cases side <;> exact absurd h (AList.notMem_empty _)

theorem mem_loop (hg : g.Keyed) (e e' : Edge) :
    e' ∈ ((g.related e.value).vertices side.other).entries.map
        (fun item => e.setVertice item.2 side.other) ↔
      e' ∈ g.topology.joining side e.value (e.vertice side) := by
  have hother : (e.value, e'.vertice side.other) ∈ g.topology side.other ↔
      ∃ item ∈ ((g.related e.value).vertices side.other).entries,
        item.2 = e'.vertice side.other :=
    (hg e.value side.other).exists_mem_entries.symm
  rw [List.mem_map, Topology.joining, Set.mem_ofPred_eq, hother]
  obtain ⟨s, d, v⟩ := e'
  cases side <;> simp only [Side.other, Edge.setVertice, Edge.vertice, Edge.mk.injEq] <;> grind

/-! ### The functions on half-edges -/

/-- Sources and destinations are stored under their own keys, and the adjacency list holds the
joined edges. -/
structure Exact (g : Graph) : Prop where
  keyed : g.Keyed
  represents : Represents g.list g.topology.joined

variable {e : Edge}

theorem insertHalfEdge_of_notMem
    (h : (e.vertice side).getKey ∉ (g.related e.value).vertices side) :
    insertHalfEdge side g e =
      ⟨g.edges.insert e.value ((g.related e.value).setVertices
          (((g.related e.value).vertices side).insert (e.vertice side).getKey (e.vertice side))
          side),
        (((g.related e.value).vertices side.other).entries.map
          fun item => e.setVertice item.2 side.other).foldl insertCompleteEdge g.list⟩ := by
  rw [foldl_map]
  exact if_neg h

theorem deleteHalfEdge_of_mem (h : (e.vertice side).getKey ∈ (g.related e.value).vertices side) :
    deleteHalfEdge side g e =
      ⟨g.edges.insert e.value ((g.related e.value).setVertices
          (((g.related e.value).vertices side).erase (e.vertice side).getKey) side),
        (((g.related e.value).vertices side.other).entries.map
          fun item => e.setVertice item.2 side.other).foldl deleteCompleteEdge g.list⟩ := by
  rw [foldl_map]
  exact if_neg (not_not.mpr h)

theorem topology_insertHalfEdge (side : Side) (g : Graph) (e : Edge) :
    (insertHalfEdge side g e).topology =
      update g.topology side (insert (e.value, e.vertice side) (g.topology side)) := by
  by_cases hmem : (e.vertice side).getKey ∈ (g.related e.value).vertices side
  · have hold : insert (e.value, e.vertice side) (g.topology side) = g.topology side :=
      Set.insert_eq_of_mem hmem
    rw [hold, update_eq_self]
    exact congrArg topology (if_pos hmem)
  · rw [insertHalfEdge_of_notMem hmem]
    funext i
    ext ⟨v, x⟩
    rw [mem_topology_insert]
    by_cases hi : i = side
    · subst hi
      simp only [update_self, AList.mem_insert, Set.mem_insert_iff, Prod.mk.injEq,
        Vertice.getKey_injective.eq_iff]
      grind [topology]
    · simp [hi]

theorem topology_deleteHalfEdge (side : Side) (g : Graph) (e : Edge) :
    (deleteHalfEdge side g e).topology =
      update g.topology side (g.topology side \ {(e.value, e.vertice side)}) := by
  by_cases hmem : (e.vertice side).getKey ∈ (g.related e.value).vertices side
  · rw [deleteHalfEdge_of_mem hmem]
    funext i
    ext ⟨v, x⟩
    rw [mem_topology_insert]
    by_cases hi : i = side
    · subst hi
      simp only [update_self, AList.mem_erase, ne_eq, Set.mem_sdiff,
        Set.mem_singleton_iff, Prod.mk.injEq, Vertice.getKey_injective.eq_iff]
      grind [topology]
    · simp [hi]
  · have hold : g.topology side \ {(e.value, e.vertice side)} = g.topology side :=
      Set.sdiff_singleton_eq_self hmem
    rw [hold, update_eq_self]
    exact congrArg topology (if_pos hmem)

theorem Exact.insertHalfEdge (h : g.Exact)
    (hE : KeysDistinct (insertHalfEdge side g e).topology.joined) :
    (insertHalfEdge side g e).Exact := by
  by_cases hmem : (e.vertice side).getKey ∈ (g.related e.value).vertices side
  · rwa [show Graph.insertHalfEdge side g e = g from if_pos hmem]
  · -- the loop inserts the edges that the new half-edge joins
    have hjoin : (Graph.insertHalfEdge side g e).topology.joined = g.topology.joined ∪ {e' | e' ∈
        ((g.related e.value).vertices side.other).entries.map
          fun item => e.setVertice item.2 side.other} := by
      rw [topology_insertHalfEdge, Topology.joined_update_insert]
      exact congrArg _ (Set.ext fun e' => (mem_loop h.keyed e e').symm)
    refine ⟨?_, ?_⟩
    · rw [insertHalfEdge_of_notMem hmem]
      exact keyed_insert h.keyed _ _ ((h.keyed e.value side).insert _) side
    · rw [hjoin] at hE ⊢
      rw [insertHalfEdge_of_notMem hmem]
      exact h.represents.insertAll hE

theorem Exact.deleteHalfEdge (h : g.Exact) (hE : KeysDistinct g.topology.joined) :
    (deleteHalfEdge side g e).Exact := by
  by_cases hmem : (e.vertice side).getKey ∈ (g.related e.value).vertices side
  · have hloop : {e' | e' ∈ ((g.related e.value).vertices side.other).entries.map
          fun item => e.setVertice item.2 side.other} =
        g.topology.joining side e.value (e.vertice side) :=
      Set.ext fun e' => mem_loop h.keyed e e'
    refine ⟨?_, ?_⟩
    · rw [deleteHalfEdge_of_mem hmem]
      exact keyed_insert h.keyed _ _ ((h.keyed e.value side).erase _) side
    · rw [topology_deleteHalfEdge, Topology.joined_update_sdiff, ← hloop,
        deleteHalfEdge_of_mem hmem]
      -- the edges of the loop are joined, so their keys are distinct too
      refine h.represents.eraseAll ?_
      rwa [hloop, Set.union_eq_left.mpr (Topology.joining_subset_joined hmem)]
  · rwa [show Graph.deleteHalfEdge side g e = g from if_pos hmem]

end Graph

end Cyber
