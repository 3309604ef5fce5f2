import Notebook.Interleaving.Threads
import Notebook.Container.NestedMap

/-!
# The topology graph

The topology of a running system is a graph with nodes as vertices and channels as edges
(`service_discovery/container/graph.cc`). A writer of a channel is a half-edge without destination,
a reader one without source, and a vertex with the empty name is a dummy that stands for the missing
end. `edges_` keeps the sources and the destinations of every channel; `list_` keeps the joined
edges, by source, under the key that `Edge::GetKey` makes from the channel and the destination.
Every function of the class runs under `rw_lock_`.
-/

open Interleaving Container

namespace Cyber

/-- `Vertice` -/
structure Vertice where
  value : String
deriving DecidableEq, Repr

variable (v : Vertice)

namespace Vertice

/-- `IsDummy` -/
def isDummy : Bool := v.value.isEmpty

/-- `GetKey` -/
def getKey : String := v.value

theorem getKey_injective : Function.Injective getKey := fun _ _ h => congrArg mk h

end Vertice

/-- The two ends of an edge. -/
inductive Side
  | src
  | dst
deriving DecidableEq, Repr

/-- The opposite end. -/
def Side.other : Side → Side
  | .src => .dst
  | .dst => .src

variable (side : Side)

theorem Side.other_ne : side.other ≠ side := by cases side <;> nofun

theorem Side.forall_iff {P : Side → Prop} : (∀ i, P i) ↔ P side ∧ P side.other := by
  refine ⟨fun h => ⟨h side, h side.other⟩, fun ⟨h, hother⟩ i => ?_⟩
  cases side <;> cases i <;> assumption

/-- `Edge`: the channel `value` from `src` to `dst`. -/
structure Edge where
  src : Vertice
  dst : Vertice
  value : String
deriving DecidableEq, Repr

variable (e : Edge)

namespace Edge

/-- The vertex at one end of the edge. -/
def vertice : Side → Vertice
  | .src => e.src
  | .dst => e.dst

/-- The edge with another vertex at one end: `set_src` and `set_dst`. -/
def setVertice (e : Edge) (v : Vertice) : Side → Edge
  | .src => { e with src := v }
  | .dst => { e with dst := v }

/-- `IsValid` -/
def isValid : Bool :=
  if e.value.isEmpty then false else if e.src.isDummy && e.dst.isDummy then false else true

/-- `GetKey` -/
def getKey : String := e.value ++ "_" ++ e.dst.getKey

end Edge

/-- `VerticeSet` -/
abbrev VerticeSet : Type := Map String Vertice

/-- `AdjacencyList` -/
abbrev AdjacencyList : Type := Map String VerticeSet

/-- `RelatedVertices`: the sources and the destinations of a channel. -/
structure RelatedVertices where
  src : VerticeSet := ∅
  dst : VerticeSet := ∅
deriving Inhabited

namespace RelatedVertices

/-- The vertices at one end of the channel. -/
def vertices (r : RelatedVertices) : Side → VerticeSet
  | .src => r.src
  | .dst => r.dst

/-- The vertices at one end replaced. -/
def setVertices (r : RelatedVertices) (m : VerticeSet) : Side → RelatedVertices
  | .src => { r with src := m }
  | .dst => { r with dst := m }

end RelatedVertices

/-- `Graph` -/
structure Graph where
  edges : Map String RelatedVertices := ∅
  list : AdjacencyList := ∅

namespace Graph

variable (g : Graph)

/-- `edges_[value]` -/
def related (value : String) : RelatedVertices := valueAt g.edges value

/-- The entry of a channel is made before its first use. -/
def touch (value : String) : Graph :=
  if value ∈ g.edges then g else { g with edges := g.edges.insert value {} }

/-! ### Complete edges -/

/-- The first access to `list_` at a key makes an empty set there. -/
def ensure (list : AdjacencyList) (key : String) : AdjacencyList :=
  if key ∈ list then list else list.insert key ∅

/-- `InsertCompleteEdge` -/
def insertCompleteEdge (list : AdjacencyList) (e : Edge) : AdjacencyList :=
  let list := ensure (ensure list e.src.getKey) e.dst.getKey
  list.insert e.src.getKey ((valueAt list e.src.getKey).insert e.getKey e.dst)

/-- `DeleteCompleteEdge` -/
def deleteCompleteEdge (list : AdjacencyList) (e : Edge) : AdjacencyList :=
  list.insert e.src.getKey ((valueAt list e.src.getKey).erase e.getKey)

/-! ### Half-edges -/

/-- `InsertOutgoingEdge` and `InsertIncomingEdge`: a vertex that is new at one end of the channel is
joined to all vertices at the other end. -/
def insertHalfEdge (side : Side) (g : Graph) (e : Edge) : Graph :=
  let r := g.related e.value
  if (e.vertice side).getKey ∈ r.vertices side then g
  else
    { edges := g.edges.insert e.value
        (r.setVertices ((r.vertices side).insert (e.vertice side).getKey (e.vertice side)) side)
      list := (r.vertices side.other).entries.foldl
        (fun list item => insertCompleteEdge list (e.setVertice item.2 side.other)) g.list }

/-- `InsertOutgoingEdge` -/
def insertOutgoingEdge : Graph → Edge → Graph := insertHalfEdge .src

/-- `InsertIncomingEdge` -/
def insertIncomingEdge : Graph → Edge → Graph := insertHalfEdge .dst

/-- `DeleteOutgoingEdge` and `DeleteIncomingEdge` -/
def deleteHalfEdge (side : Side) (g : Graph) (e : Edge) : Graph :=
  let r := g.related e.value
  if (e.vertice side).getKey ∉ r.vertices side then g
  else
    { edges := g.edges.insert e.value
        (r.setVertices ((r.vertices side).erase (e.vertice side).getKey) side)
      list := (r.vertices side.other).entries.foldl
        (fun list item => deleteCompleteEdge list (e.setVertice item.2 side.other)) g.list }

/-- `DeleteOutgoingEdge` -/
def deleteOutgoingEdge : Graph → Edge → Graph := deleteHalfEdge .src

/-- `DeleteIncomingEdge` -/
def deleteIncomingEdge : Graph → Edge → Graph := deleteHalfEdge .dst

/-! ### The functions of the class -/

/-- `Insert` -/
protected def insert (g : Graph) (e : Edge) : Graph :=
  if !e.isValid then g
  else
    let g := g.touch e.value
    let g := if !e.src.isDummy then g.insertOutgoingEdge e else g
    if !e.dst.isDummy then g.insertIncomingEdge e else g

/-- `Delete` -/
protected def delete (g : Graph) (e : Edge) : Graph :=
  if !e.isValid then g
  else if e.value ∉ g.edges then g
  else
    let g := if !e.src.isDummy then g.deleteOutgoingEdge e else g
    if !e.dst.isDummy then g.deleteIncomingEdge e else g

/-- `GetNumOfEdge`, with the sum in a `uint32_t`. -/
def getNumOfEdge : ℕ :=
  g.list.entries.foldl (fun num item => uint32 (num + item.2.entries.length)) 0

/-- A call that changes the graph. -/
inductive Op
  | insert (e : Edge)
  | delete (e : Edge)
deriving DecidableEq, Repr

/-- The effect of a call. -/
def apply : Op → Graph
  | .insert e => g.insert e
  | .delete e => g.delete e

/-- The graph after a sequence of calls. -/
def run (ops : List Op) : Graph := ops.foldl apply {}

/-- `list_` has a link from `s` to `d` through the channel `value`. -/
def Link (s d : Vertice) (value : String) : Prop :=
  lookup₂ g.list s.getKey (Edge.getKey ⟨s, d, value⟩) = some d
deriving Decidable

/-- The number of sources times the number of destinations, over all channels. -/
def numOfJoined : ℕ :=
  (g.edges.entries.map fun item => item.2.src.entries.length * item.2.dst.entries.length).sum

end Graph

end Cyber
