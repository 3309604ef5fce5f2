import Notebook.Container.Search
import Notebook.Cyber.ServiceDiscovery.Graph

/-!
# The direction of two nodes in the topology graph

`GetDirectionOf` (`service_discovery/container/graph.cc`) asks with `LevelTraverse` whether one
vertex can be reached from the other, first from `lhs` to `rhs` and then the other way round.
`LevelTraverse` is a breadth-first search that reads `list_` with `operator[]`, which makes an empty
entry for a vertex that has none. In a graph that `Insert` and `Delete` have made, every vertex in
an adjacency set has an entry of its own, so the search makes none.

The search marks a vertex when it takes it from the queue, and stops at the goal. Its loop has fuel
here, and more fuel than there are links is enough.
-/

open Container List

namespace Cyber

/-- `FlowDirection` -/
inductive FlowDirection
  | unreachable
  | upstream
  | downstream
deriving DecidableEq, Repr

namespace Graph

/-- The loop of `LevelTraverse`, with `list_`, `visited` and the queue `unvisited`. -/
def levelTraverseLoop (goal : Vertice) :
    ℕ → AdjacencyList → Map String Bool → List Vertice → Option (Bool × AdjacencyList)
  | _, list, visited, [] => some (valueAt visited goal.getKey, list)
  | 0, _, _, _ :: _ => none
  | fuel + 1, list, visited, curr :: unvisited =>
    if valueAt visited curr.getKey then levelTraverseLoop goal fuel list visited unvisited
    else
      let visited := visited.insert curr.getKey true
      if curr = goal then some (valueAt visited goal.getKey, list)
      else
        -- `list_[curr.GetKey()]`
        let list := ensure list curr.getKey
        levelTraverseLoop goal fuel list visited
          (unvisited ++ (valueAt list curr.getKey).entries.map Sigma.snd)

/-- `LevelTraverse` -/
def levelTraverse (fuel : ℕ) (list : AdjacencyList) (start goal : Vertice) :
    Option (Bool × AdjacencyList) :=
  levelTraverseLoop goal fuel list ((∅ : Map String Bool).insert goal.getKey false) [start]

/-- `GetDirectionOf` -/
def getDirectionOf (fuel : ℕ) (g : Graph) (lhs rhs : Vertice) : Option (FlowDirection × Graph) :=
  if lhs.isDummy || rhs.isDummy then some (.unreachable, g)
  else if lhs.getKey ∉ g.list ∨ rhs.getKey ∉ g.list then some (.unreachable, g)
  else
    match levelTraverse fuel g.list lhs rhs with
    | none => none
    | some (true, list) => some (.upstream, { g with list })
    | some (false, list) =>
      match levelTraverse fuel list rhs lhs with
      | none => none
      | some (true, list) => some (.downstream, { g with list })
      | some (false, list) => some (.unreachable, { g with list })

/-! ### Entries -/

/-- Every vertex in an adjacency set has an entry. -/
def Closed (list : AdjacencyList) : Prop :=
  ∀ key, ∀ item ∈ (valueAt list key).entries, item.2.getKey ∈ list

variable {list : AdjacencyList}

theorem mem_ensure {key key' : String} : key' ∈ ensure list key ↔ key' = key ∨ key' ∈ list := by
  rw [ensure]
  split
  · rename_i hkey
    exact ⟨.inr, fun h => h.elim (fun heq => heq ▸ hkey) id⟩
  · exact AList.mem_insert list

theorem valueAt_ensure (key key' : String) :
    valueAt (ensure list key) key' = valueAt list key' := valueAt_enter list key key'

section

variable (h : Closed list)

include h

theorem Closed.ensure (key : String) : Closed (ensure list key) := by
  intro key' item hitem
  rw [valueAt_ensure] at hitem
  exact mem_ensure.mpr (.inr (h key' item hitem))

theorem Closed.insert (key : String) {set : VerticeSet}
    (hset : ∀ item ∈ set.entries, item.2.getKey ∈ list) : Closed (list.insert key set) := by
  intro key' item hitem
  refine (AList.mem_insert list).mpr (.inr ?_)
  by_cases hkey : key' = key
  · subst hkey
    rw [valueAt_insert_self] at hitem
    exact hset item hitem
  · rw [valueAt_insert_of_ne list set hkey] at hitem
    exact h key' item hitem

theorem Closed.insertCompleteEdge (e : Edge) : Closed (insertCompleteEdge list e) := by
  rw [Graph.insertCompleteEdge]
  have hclosed := (h.ensure e.src.getKey).ensure e.dst.getKey
  have hdst : e.dst.getKey ∈ Graph.ensure (Graph.ensure list e.src.getKey) e.dst.getKey :=
    mem_ensure.mpr (.inl rfl)
  generalize Graph.ensure (Graph.ensure list e.src.getKey) e.dst.getKey = list' at hclosed hdst
  refine hclosed.insert _ fun item hitem => ?_
  rw [AList.entries_insert, mem_cons] at hitem
  rcases hitem with rfl | hitem
  · exact hdst
  · exact hclosed _ item ((kerase_sublist _ _).subset hitem)

theorem Closed.deleteCompleteEdge (e : Edge) : Closed (deleteCompleteEdge list e) :=
  h.insert _ fun item hitem => h _ item ((kerase_sublist _ _).subset hitem)

theorem Closed.foldl {β : Type*} {f : AdjacencyList → β → AdjacencyList}
    (hf : ∀ list b, Closed list → Closed (f list b)) (l : List β) : Closed (l.foldl f list) := by
  induction l generalizing list with
  | nil => exact h
  | cons b l ih => exact ih (hf list b h)

end

variable {g : Graph}

theorem Closed.insertHalfEdge (h : Closed g.list) (side : Side) (e : Edge) :
    Closed (g.insertHalfEdge side e).list := by
  rw [Graph.insertHalfEdge]
  split
  · exact h
  · exact h.foldl (fun _ _ h => h.insertCompleteEdge _) _

theorem Closed.deleteHalfEdge (h : Closed g.list) (side : Side) (e : Edge) :
    Closed (g.deleteHalfEdge side e).list := by
  rw [Graph.deleteHalfEdge]
  split
  · exact h
  · exact h.foldl (fun _ _ h => h.deleteCompleteEdge _) _

/-- No call leaves a vertex in an adjacency set without an entry. -/
theorem Closed.apply (h : Closed g.list) (op : Op) : Closed (g.apply op).list := by
  cases op with
  | insert e =>
    rw [Graph.apply, Graph.insert]
    split
    · exact h
    have htouch : Closed (g.touch e.value).list := by
      rw [touch]
      split
      · exact h
      · exact h
    have hout : Closed (if !e.src.isDummy then (g.touch e.value).insertOutgoingEdge e
        else g.touch e.value).list := by
      split
      · exact htouch.insertHalfEdge .src e
      · exact htouch
    simp only
    split
    · exact hout.insertHalfEdge .dst e
    · exact hout
  | delete e =>
    rw [Graph.apply, Graph.delete]
    split
    · exact h
    split
    · exact h
    have hout : Closed (if !e.src.isDummy then g.deleteOutgoingEdge e else g).list := by
      split
      · exact h.deleteHalfEdge .src e
      · exact h
    simp only
    split
    · exact hout.deleteHalfEdge .dst e
    · exact hout

/-- **Every vertex in an adjacency set has an entry**, after any calls. -/
theorem closed_run (ops : List Op) : Closed (run ops).list := by
  induction ops using List.reverseRecOn with
  | nil =>
    intro key item hitem
    cases hitem
  | append_singleton ops op ih =>
    have hrun : run (ops ++ [op]) = (run ops).apply op := foldl_concat ..
    rw [hrun]
    exact ih.apply op

/-! ### The search -/

/-- The vertices that the links of a vertex lead to. -/
def successors (list : AdjacencyList) (v : Vertice) : List Vertice :=
  (valueAt list v.getKey).entries.map Sigma.snd

/-- The vertices with an entry. -/
def vertices (list : AdjacencyList) : Finset Vertice := (list.keys.map Vertice.mk).toFinset

theorem successors_of_notMem {v : Vertice} (hv : v ∉ vertices list) : successors list v = [] := by
  have hkey : v.getKey ∉ list := fun hkey =>
    hv (mem_toFinset.mpr (mem_map.mpr ⟨v.getKey, hkey, rfl⟩))
  rw [successors, valueAt_of_notMem hkey]
  rfl

theorem sum_length_successors (list : AdjacencyList) :
    ∑ v ∈ vertices list, (successors list v).length = size₂ list := by
  have hnodup : (list.keys.map Vertice.mk).Nodup :=
    list.keys_nodup.map fun _ _ h => Vertice.mk.inj h
  rw [vertices, sum_toFinset _ hnodup, size₂, AList.keys, List.keys, map_map,
    map_map]
  refine congrArg List.sum (map_congr_left fun item hitem => ?_)
  have hlookup : list.lookup item.1 = some item.2 := AList.mem_lookup_iff.mpr hitem
  simp [successors, Vertice.getKey, valueAt_of_lookup hlookup]

/-- The map `visited` marks the keys of these vertices. -/
def Marks (visited : Map String Bool) (marked : Finset Vertice) : Prop :=
  ∀ v : Vertice, valueAt visited v.getKey = true ↔ v ∈ marked

theorem Marks.insert {visited : Map String Bool} {marked : Finset Vertice}
    (h : Marks visited marked) (v : Vertice) :
    Marks (visited.insert v.getKey true) (insert v marked) := by
  intro w
  rw [Finset.mem_insert]
  by_cases hw : w = v
  · subst hw
    rw [valueAt_insert_self]
    exact iff_of_true rfl (.inl rfl)
  · have hkey : w.getKey ≠ v.getKey := fun heq => hw (Vertice.getKey_injective heq)
    rw [valueAt_insert_of_ne _ _ hkey, h w]
    exact ⟨.inr, fun hor => hor.resolve_left hw⟩

variable {fuel : ℕ}

/-- While the vertices of the queue have entries, the loop reads the list and does not change it. -/
theorem levelTraverseLoop_eq_search (h : Closed list) {goal : Vertice} {visited : Map String Bool}
    {marked : Finset Vertice} {unvisited : List Vertice}
    (hmarks : Marks visited marked) (hgoal : goal ∉ marked)
    (hqueue : ∀ v ∈ unvisited, v.getKey ∈ list) :
    levelTraverseLoop goal fuel list visited unvisited =
      (search (successors list) goal fuel marked unvisited).map (·, list) := by
  induction fuel generalizing visited marked unvisited with
  | zero =>
    cases unvisited with
    | nil =>
      have hfalse := Bool.eq_false_iff.mpr fun htrue => hgoal ((hmarks goal).mp htrue)
      rw [levelTraverseLoop, search, hfalse]
      rfl
    | cons curr unvisited => rfl
  | succ fuel ih =>
    cases unvisited with
    | nil =>
      have hfalse := Bool.eq_false_iff.mpr fun htrue => hgoal ((hmarks goal).mp htrue)
      rw [levelTraverseLoop, search, hfalse]
      rfl
    | cons curr unvisited =>
      have hcurr := hqueue curr mem_cons_self
      have hrest : ∀ v ∈ unvisited, v.getKey ∈ list :=
        fun v hv => hqueue v (mem_cons_of_mem _ hv)
      rw [levelTraverseLoop, search]
      by_cases hmarked : curr ∈ marked
      · rw [if_pos ((hmarks curr).mpr hmarked), if_pos hmarked]
        exact ih hmarks hgoal hrest
      rw [if_neg fun htrue => hmarked ((hmarks curr).mp htrue), if_neg hmarked]
      simp only
      by_cases hend : curr = goal
      · subst hend
        rw [if_pos rfl, if_pos rfl, valueAt_insert_self]
        rfl
      · rw [if_neg hend, if_neg hend, ensure, if_pos hcurr]
        refine ih (hmarks.insert curr) ?_ ?_
        · intro hmem
          rcases Finset.mem_insert.mp hmem with heq | hmem
          · exact hend heq.symm
          · exact hgoal hmem
        · intro v hv
          rcases mem_append.mp hv with hv | hv
          · exact hrest v hv
          · obtain ⟨item, hitem, rfl⟩ := mem_map.mp hv
            exact h _ item hitem

/-- **`LevelTraverse`** ends, finds out whether the goal can be reached, and leaves the list. -/
theorem exists_levelTraverse_eq_some (h : Closed list) {start : Vertice}
    (hstart : start.getKey ∈ list) (goal : Vertice) (hfuel : size₂ list < fuel) :
    ∃ found, levelTraverse fuel list start goal = some (found, list) ∧
      (found = true ↔ Reaches (successors list) start goal) := by
  have hmarks : Marks ((∅ : Map String Bool).insert goal.getKey false) ∅ := by
    intro v
    refine iff_of_false ?_ (Finset.notMem_empty v)
    by_cases hv : v.getKey = goal.getKey
    · rw [hv, valueAt_insert_self]
      exact Bool.false_ne_true
    · rw [valueAt_insert_of_ne _ _ hv]
      exact Bool.false_ne_true
  obtain ⟨found, hsearch, hfound⟩ := search_singleton
    (fun _ hv => successors_of_notMem hv)
    (by rw [sum_length_successors]; exact hfuel) start
  refine ⟨found, ?_, hfound⟩
  rw [levelTraverse, levelTraverseLoop_eq_search h hmarks (Finset.notMem_empty _)
    (fun v hv => mem_singleton.mp hv ▸ hstart), hsearch]
  rfl

/-- **The direction is reachability.** In every graph that `Insert` and `Delete` calls have made,
`GetDirectionOf` ends for any two vertices of the graph. It returns `UPSTREAM` exactly when `rhs`
can be reached from `lhs` along zero or more links, `DOWNSTREAM` exactly when it cannot but `lhs`
can be reached from `rhs`, and `UNREACHABLE` otherwise, and it leaves the graph as it is. -/
theorem getDirectionOf_run (ops : List Op) {lhs rhs : Vertice} (hlhs : lhs.isDummy = false)
    (hrhs : rhs.isDummy = false) (hl : lhs.getKey ∈ (run ops).list)
    (hr : rhs.getKey ∈ (run ops).list) (hfuel : size₂ (run ops).list < fuel) :
    ∃ direction, getDirectionOf fuel (run ops) lhs rhs = some (direction, run ops) ∧
      (direction = .upstream ↔ Reaches (successors (run ops).list) lhs rhs) ∧
      (direction = .downstream ↔ ¬Reaches (successors (run ops).list) lhs rhs ∧
        Reaches (successors (run ops).list) rhs lhs) ∧
      (direction = .unreachable ↔ ¬Reaches (successors (run ops).list) lhs rhs ∧
        ¬Reaches (successors (run ops).list) rhs lhs) := by
  obtain ⟨up, hup, hupstream⟩ := exists_levelTraverse_eq_some (closed_run ops) hl rhs hfuel
  obtain ⟨down, hdown, hdownstream⟩ := exists_levelTraverse_eq_some (closed_run ops) hr lhs hfuel
  rw [← hupstream, ← hdownstream, getDirectionOf, hlhs, hrhs, if_neg (by decide),
    if_neg (by simp [hl, hr]), hup]
  cases up with
  | true => exact ⟨.upstream, rfl, by simp⟩
  | false =>
    simp only [hdown]
    cases down with
    | true => exact ⟨.downstream, rfl, by simp⟩
    | false => exact ⟨.unreachable, rfl, by simp⟩

/-- Two nodes that write to each other, and a third that has written to the first. -/
def circle : List Op :=
  [.insert ⟨⟨"a"⟩, ⟨"b"⟩, "ab"⟩, .insert ⟨⟨"b"⟩, ⟨"a"⟩, "ba"⟩, .insert ⟨⟨"c"⟩, ⟨"a"⟩, "ca"⟩,
    .delete ⟨⟨"c"⟩, ⟨""⟩, "ca"⟩, .insert ⟨⟨"c"⟩, ⟨"c"⟩, "cc"⟩, .insert ⟨⟨"b"⟩, ⟨"c"⟩, "bc"⟩]

/-- The circle leads to the third node, and nothing leads back. -/
theorem getDirectionOf_run_circle :
    (getDirectionOf 9 (run circle) ⟨"c"⟩ ⟨"a"⟩).map Prod.fst = some .downstream ∧
      ¬Reaches (successors (run circle).list) ⟨"c"⟩ ⟨"a"⟩ ∧
      Reaches (successors (run circle).list) ⟨"a"⟩ ⟨"c"⟩ := by
  have heval : (getDirectionOf 9 (run circle) ⟨"c"⟩ ⟨"a"⟩).map Prod.fst = some .downstream := by
    decide +kernel
  have hlhs : Vertice.isDummy ⟨"c"⟩ = false := by decide +kernel
  have hrhs : Vertice.isDummy ⟨"a"⟩ = false := by decide +kernel
  have hl : "c" ∈ (run circle).list := by decide +kernel
  have hr : "a" ∈ (run circle).list := by decide +kernel
  have hfuel : size₂ (run circle).list < 9 := by decide +kernel
  obtain ⟨direction, hcall, -, hdown, -⟩ := getDirectionOf_run circle hlhs hrhs hl hr hfuel
  rw [hcall] at heval
  exact ⟨by rw [hcall]; exact heval, hdown.mp (Option.some.inj heval)⟩

end Graph

end Cyber
