import Mathlib.Algebra.BigOperators.Group.Finset.Basic

/-!
# Breadth-first search

A search for a goal in a graph that is given by the list of successors of each vertex. The queue
holds vertices to be looked at, possibly several times; a vertex that has been visited is skipped
when it comes up again. Fuel bounds the number of vertices that are taken from the queue.

While the goal has not been visited, every edge out of the visited vertices ends in a visited vertex
or in the queue, so a path from a visited vertex to the goal passes through the queue. A vertex puts
its successors into the queue once, so the edges bound the number of vertices to take.
-/

open List

namespace Container

variable {α : Type*} (succ : α → List α) (goal : α)

/-- There is a path of zero or more edges. -/
def Reaches : α → α → Prop := Relation.ReflTransGen fun a b => b ∈ succ a

/-- The goal has not been visited, and every edge out of the visited vertices ends in a visited
vertex or in the queue. -/
structure Frontier (visited : Finset α) (queue : List α) : Prop where
  goal_notMem : goal ∉ visited
  closed : ∀ a ∈ visited, ∀ b ∈ succ a, b ∈ visited ∨ b ∈ queue

/-- The loop, with the vertices visited so far and the queue. -/
def search [DecidableEq α] : ℕ → Finset α → List α → Option Bool
  | _, _, [] => some false
  | 0, _, _ :: _ => none
  | fuel + 1, visited, a :: queue =>
    if a ∈ visited then search fuel visited queue
    else if a = goal then some true
    else search fuel (insert a visited) (queue ++ succ a)

variable {succ goal} {visited : Finset α} {queue : List α} {a b : α} {fuel : ℕ}

theorem Frontier.skip (h : Frontier succ goal visited (a :: queue)) (ha : a ∈ visited) :
    Frontier succ goal visited queue := by
  refine ⟨h.goal_notMem, fun c hc b hb => ?_⟩
  rcases h.closed c hc b hb with hvisited | hqueue
  · exact .inl hvisited
  · rcases mem_cons.mp hqueue with rfl | hqueue
    · exact .inl ha
    · exact .inr hqueue

variable [DecidableEq α]

/-- A path from a visited vertex to the goal passes through the queue. -/
theorem Frontier.exists_mem_queue (h : Frontier succ goal visited queue) (ha : a ∈ visited)
    (hpath : Reaches succ a goal) : ∃ b ∈ queue, b ∉ visited ∧ Reaches succ b goal := by
  induction hpath using Relation.ReflTransGen.head_induction_on with
  | refl => exact absurd ha h.goal_notMem
  | @head a c hedge hpath ih =>
    by_cases hc : c ∈ visited
    · exact ih hc
    · exact ⟨c, (h.closed a ha c hedge).resolve_left hc, hc, hpath⟩

theorem Frontier.visit (h : Frontier succ goal visited (a :: queue)) (hne : a ≠ goal) :
    Frontier succ goal (insert a visited) (queue ++ succ a) := by
  constructor
  · intro hgoal
    rcases Finset.mem_insert.mp hgoal with rfl | hgoal
    · exact hne rfl
    · exact h.goal_notMem hgoal
  · intro c hc b hb
    rcases Finset.mem_insert.mp hc with rfl | hc
    · exact .inr (mem_append_right _ hb)
    · rcases h.closed c hc b hb with hvisited | hqueue
      · exact .inl (Finset.mem_insert_of_mem hvisited)
      · rcases mem_cons.mp hqueue with rfl | hqueue
        · exact .inl (Finset.mem_insert_self ..)
        · exact .inr (mem_append_left _ hqueue)

/-- **The search is right when it ends**: it finds the goal exactly when a vertex of the queue
reaches it. -/
theorem search_eq_some {found : Bool} (h : Frontier succ goal visited queue)
    (hsearch : search succ goal fuel visited queue = some found) :
    found = true ↔ ∃ a ∈ queue, Reaches succ a goal := by
  fun_induction search succ goal fuel visited queue with
  | case1 =>
    obtain rfl := Option.some.inj hsearch
    simp
  | case2 => cases hsearch
  | case3 fuel visited a queue ha ih =>
    rw [ih (h.skip ha) hsearch]
    constructor
    · rintro ⟨b, hb, hpath⟩
      exact ⟨b, mem_cons_of_mem _ hb, hpath⟩
    · rintro ⟨b, hb, hpath⟩
      rcases mem_cons.mp hb with rfl | hb
      · -- the path leaves the visited vertices
        obtain ⟨c, hc, -, hpath⟩ := (h.skip ha).exists_mem_queue ha hpath
        exact ⟨c, hc, hpath⟩
      · exact ⟨b, hb, hpath⟩
  | case4 fuel visited queue ha =>
    obtain rfl := Option.some.inj hsearch
    exact iff_of_true rfl ⟨goal, mem_cons_self, .refl⟩
  | case5 fuel visited a queue ha hne ih =>
    rw [ih (h.visit hne) hsearch]
    constructor
    · rintro ⟨b, hb, hpath⟩
      rcases mem_append.mp hb with hb | hb
      · exact ⟨b, mem_cons_of_mem _ hb, hpath⟩
      · exact ⟨a, mem_cons_self, hpath.head hb⟩
    · rintro ⟨b, hb, hpath⟩
      rcases mem_cons.mp hb with rfl | hb
      · rcases Relation.ReflTransGen.cases_head hpath with heq | ⟨c, hedge, hpath⟩
        · exact absurd heq hne
        · exact ⟨c, mem_append_right _ hedge, hpath⟩
      · exact ⟨b, mem_append_left _ hb, hpath⟩

/-- **The search ends**, with as much fuel as there are vertices in the queue and edges out of
vertices that have not been visited. -/
theorem exists_search_eq_some {vertices : Finset α} (hsucc : ∀ a ∉ vertices, succ a = [])
    (hfuel : queue.length + ∑ a ∈ vertices \ visited, (succ a).length ≤ fuel) :
    ∃ found, search succ goal fuel visited queue = some found := by
  fun_induction search succ goal fuel visited queue with
  | case1 => exact ⟨false, rfl⟩
  | case2 => simp at hfuel
  | case3 fuel visited a queue ha ih =>
    refine ih ?_
    rw [length_cons] at hfuel
    omega
  | case4 => exact ⟨true, rfl⟩
  | case5 fuel visited a queue ha hne ih =>
    refine ih ?_
    rw [length_cons] at hfuel
    rw [length_append, Finset.sdiff_insert]
    by_cases hmem : a ∈ vertices
    · -- the edges of `a` move from the sum to the queue
      have hsum := Finset.add_sum_erase (vertices \ visited) (fun a => (succ a).length)
        (Finset.mem_sdiff.mpr ⟨hmem, ha⟩)
      omega
    · rw [hsucc a hmem, length_nil,
        Finset.erase_eq_of_notMem fun h => hmem (Finset.mem_sdiff.mp h).1]
      omega

/-- **The search from one vertex.** -/
theorem search_singleton {vertices : Finset α} (hsucc : ∀ a ∉ vertices, succ a = [])
    (hfuel : ∑ a ∈ vertices, (succ a).length < fuel) (start : α) :
    ∃ found, search succ goal fuel ∅ [start] = some found ∧
      (found = true ↔ Reaches succ start goal) := by
  obtain ⟨found, hsearch⟩ : ∃ found, search succ goal fuel ∅ [start] = some found := by
    refine exists_search_eq_some hsucc ?_
    rw [Finset.sdiff_empty, length_singleton]
    omega
  refine ⟨found, hsearch, ?_⟩
  have hempty : Frontier succ goal ∅ [start] := ⟨Finset.notMem_empty _, by simp⟩
  rw [search_eq_some hempty hsearch]
  simp

end Container
