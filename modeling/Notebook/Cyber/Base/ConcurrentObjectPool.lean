import Notebook.Interleaving.Threads
import Notebook.Interleaving.VersionedStack

/-!
# The concurrent object pool

`CCObjectPool` (`base/concurrent_object_pool.h`) hands out the nodes of an arena. The free nodes are
linked into a list from `free_head_`, which holds a node and a count and is changed as a whole by
compare-exchanges. `FindFreeHead`, which `GetObject` and `ConstructObject` call, reads the link of
the first node and exchanges the head for it; `ReleaseObject` links its node to the head and
exchanges the head for its node. A successful exchange increments the count.

The model has one transition for each access to `free_head_` or to a link. An object that is handed
out is released once, by any thread. The code refines the free list of
`Interleaving.VersionedStack`, with the number of successful exchanges as its version, as long as
the count has not wrapped around.
-/

open Container Interleaving Function List Threads

namespace Cyber.CCObjectPool

/-- `Head` -/
structure Head where
  count : ℕ
  node : Option ℕ
deriving DecidableEq, Repr

/-- The fields of the pool, with the links of the nodes. `handed` records the nodes that are handed
out, and `exchanges` the number of successful exchanges of `free_head_`. -/
structure Mem where
  freeHead : Head
  next : ℕ → Option ℕ
  handed : Finset ℕ
  exchanges : ℕ

/-- The links after the constructor: a loop over the nodes but the last one, and the last one. -/
def initNext (capacity : ℕ) : ℕ → Option ℕ :=
  update
    ((List.range (capacity - 1)).foldl (fun next i => update next i (some (1 + i)))
      fun _ => none)
    (capacity - 1) none

/-- `CCObjectPool(size)` -/
def Mem.init (size : ℕ) : Mem := ⟨⟨0, some 0⟩, initNext size, ∅, 0⟩

/-- What the last call of a thread returned. -/
inductive Result
  | none
  | null
  | object (node : ℕ)
deriving DecidableEq, Repr

/-- The next access of a thread, with the locals of its call. -/
inductive Pc
  | idle (result : Result)
  | getLoad
  | getNext (count node : ℕ)
  | getCas (count node : ℕ) (next : Option ℕ)
  | releaseLoad (node : ℕ)
  | releaseLink (node : ℕ) (oldHead : Head)
  | releaseCas (node : ℕ) (oldHead : Head)
deriving DecidableEq, Repr

/-- What a thread does next: call a function of the pool, or make its next access, where `spurious`
makes a `compare_exchange_weak` fail. -/
inductive Act
  | getObject
  | releaseObject (node : ℕ)
  | step (spurious : Bool)
deriving DecidableEq, Repr

/-- The test of `old_head.node` in `FindFreeHead`. -/
def findNext (oldHead : Head) : Pc :=
  match oldHead.node with
  | none => .idle .null
  | some node => .getNext oldHead.count node

/-- `FindFreeHead` and `ReleaseObject`, one access at a time. A failed exchange leaves the current
head in `old_head`. -/
def prog (m : Mem) : Pc → Act → Option (Mem × Pc)
  | .idle _, .getObject => some (m, .getLoad)
  | .getLoad, .step _ => some (m, findNext m.freeHead)
  | .getNext count node, .step _ => some (m, .getCas count node (m.next node))
  | .getCas count node next, .step spurious =>
    if m.freeHead = ⟨count, some node⟩ ∧ ¬spurious then
      some ({ m with
        freeHead := ⟨uint64 (count + 1), next⟩
        handed := insert node m.handed
        exchanges := m.exchanges + 1 }, .idle (.object node))
    else some (m, findNext m.freeHead)
  | .idle _, .releaseObject node =>
    if node ∈ m.handed then some ({ m with handed := m.handed.erase node }, .releaseLoad node)
    else none
  | .releaseLoad node, .step _ => some (m, .releaseLink node m.freeHead)
  | .releaseLink node oldHead, .step _ =>
    some ({ m with next := update m.next node oldHead.node }, .releaseCas node oldHead)
  | .releaseCas node oldHead, .step spurious =>
    if m.freeHead = oldHead ∧ ¬spurious then
      some ({ m with
        freeHead := ⟨uint64 (oldHead.count + 1), some node⟩
        exchanges := m.exchanges + 1 }, .idle .none)
    else some (m, .releaseLink node m.freeHead)
  | _, _ => none

/-- A pool with the threads that use it. -/
abbrev State (T : Type*) : Type _ := Threads Mem T Pc

/-- A new pool, with every thread outside it. -/
def init (T : Type*) (size : ℕ) : State T := ⟨.init size, fun _ => .idle .none⟩

/-- One access of one thread. -/
abbrev step {T : Type*} [DecidableEq T] : State T → T × Act → Option (State T) := Threads.step prog

/-! ### The code refines the free list -/

/-- The free list that the memory implements. -/
def Mem.stack (m : Mem) : VersionedStack ℕ := ⟨m.exchanges, m.freeHead.node, m.next, m.handed⟩

/-- What a thread has under way in the free list. -/
def Pc.role : Pc → VersionedStack.Role ℕ
  | .releaseLoad node | .releaseLink node _ | .releaseCas node _ => .releasing node
  | _ => .free

/-- What a thread knows from its loads: if the list still has the version that the thread has
loaded, then it has the head and the link that the thread has loaded; and nobody else writes the
link of a node that the thread releases. -/
def Pc.Guard (f : VersionedStack ℕ) : Pc → Prop
  | .getNext count node => count ≤ f.version ∧ (count = f.version → f.head = some node)
  | .getCas count node next =>
    count ≤ f.version ∧ (count = f.version → f.head = some node ∧ f.next node = next)
  | .releaseLink _ oldHead =>
    oldHead.count ≤ f.version ∧ (oldHead.count = f.version → f.head = oldHead.node)
  | .releaseCas node oldHead =>
    oldHead.count ≤ f.version ∧ (oldHead.count = f.version → f.head = oldHead.node) ∧
      f.next node = oldHead.node
  | _ => True

variable {m m' : Mem} {l l' : Pc} {a : Act}

@[simp] theorem role_findNext (h : Head) : (findNext h).role = .free := by
  unfold findNext
  split <;> rfl

theorem op_prog (hcount : m.freeHead.count = m.exchanges) (hl : l.Guard m.stack)
    (h : prog m l a = some (m', l')) : VersionedStack.Op m.stack l.role m'.stack l'.role := by
  revert h
  fun_cases prog m l a <;> rintro ⟨⟩
  case case2 | case5 =>
    rw [role_findNext]
    exact .keep ..
  case case4 count node next spurious hcas =>
    obtain ⟨hhead, -⟩ := hcas
    have hversion : count = m.exchanges := by rw [← hcount, hhead]
    obtain ⟨hnode, rfl⟩ := hl.2 hversion
    exact .pop m.stack node hnode
  case case6 node hmem => exact .takeBack m.stack node hmem
  case case9 node oldHead _ => exact .link m.stack node oldHead.node
  case case10 node oldHead spurious hcas =>
    obtain ⟨rfl, -⟩ := hcas
    exact .push m.stack node hl.2.2
  all_goals exact .keep ..

theorem count_prog (hcount : m.freeHead.count = m.exchanges) (hlt : m'.exchanges < 2 ^ 64)
    (h : prog m l a = some (m', l')) : m'.freeHead.count = m'.exchanges := by
  revert h
  fun_cases prog m l a <;> rintro ⟨⟩
  case case4 count node next spurious hcas =>
    obtain rfl : count = m.exchanges := by rw [← hcount, hcas.1]
    exact uint64_eq_self hlt
  case case10 node spurious hcas =>
    rw [← hcas.1, hcount]
    exact uint64_eq_self hlt
  all_goals exact hcount

theorem exchanges_le_prog (h : prog m l a = some (m', l')) : m.exchanges ≤ m'.exchanges := by
  revert h
  fun_cases prog m l a <;> rintro ⟨⟩ <;> simp

theorem guard_findNext (hcount : m.freeHead.count = m.exchanges) :
    (findNext m.freeHead).Guard m.stack := by
  unfold findNext
  split
  · trivial
  · rename_i node hnode
    exact ⟨hcount.le, fun _ => hnode⟩

theorem guard_prog (hcount : m.freeHead.count = m.exchanges) (hl : l.Guard m.stack)
    (h : prog m l a = some (m', l')) : l'.Guard m'.stack := by
  revert h
  fun_cases prog m l a <;> rintro ⟨⟩
  case case2 | case5 => exact guard_findNext hcount
  case case3 count node => exact ⟨hl.1, fun heq => ⟨hl.2 heq, rfl⟩⟩
  case case8 | case11 => exact ⟨hcount.le, fun _ => rfl⟩
  case case9 node oldHead => exact ⟨hl.1, hl.2, update_self ..⟩
  all_goals exact True.intro

section Frame

variable {T : Type*} {f f' : VersionedStack ℕ} {arena : Set ℕ} {role : T → VersionedStack.Role ℕ}
  {free : List ℕ} {ρ : VersionedStack.Role ℕ} {t u : T}

/-- **The version rules out every change behind a thread.** What a thread knows survives the
operations of the other threads. -/
theorem Pc.Guard.of_op (hut : u ≠ t) (hs : VersionedStack.Sound arena f role free)
    (op : VersionedStack.Op f (role t) f' ρ) (hu : role u = l.role) (hl : l.Guard f) :
    l.Guard f' := by
  obtain ⟨hversion, hhead, hnext⟩ := op.frame
  -- a count that equals the version now has equalled it all the time
  have hsame {c : ℕ} (hle : c ≤ f.version) (heq : c = f'.version) :
      c = f.version ∧ f'.head = f.head :=
    ⟨by omega, hhead (by omega)⟩
  cases l with
  | idle | getLoad | releaseLoad => trivial
  | getNext count node =>
    refine ⟨hl.1.trans hversion, fun heq => ?_⟩
    obtain ⟨heq', hhead'⟩ := hsame hl.1 heq
    rw [hhead', hl.2 heq']
  | getCas count node next =>
    refine ⟨hl.1.trans hversion, fun heq => ?_⟩
    obtain ⟨heq', hhead'⟩ := hsame hl.1 heq
    obtain ⟨hnode, hlink⟩ := hl.2 heq'
    -- the node is still the first of the free list, so nobody releases it
    have hchain := hs.chain
    rw [hnode] at hchain
    obtain ⟨rest, rfl, -⟩ := hchain.eq_cons
    have hfree := hs.free_releasing node mem_cons_self t
    exact ⟨hhead'.trans hnode, (hnext node hfree).trans hlink⟩
  | releaseLink node oldHead =>
    refine ⟨hl.1.trans hversion, fun heq => ?_⟩
    obtain ⟨heq', hhead'⟩ := hsame hl.1 heq
    rw [hhead', hl.2 heq']
  | releaseCas node oldHead =>
    obtain ⟨hle, hold, hlink⟩ := hl
    refine ⟨hle.trans hversion, fun heq => ?_, ?_⟩
    · obtain ⟨heq', hhead'⟩ := hsame hle heq
      rw [hhead', hold heq']
    · have hother : role t ≠ .releasing node :=
        fun ht => hut (hs.releasing_unique u t node hu ht)
      rw [hnext node hother, hlink]

end Frame

/-! ### The constructor -/

theorem foldl_update_next (k i : ℕ) (next : ℕ → Option ℕ) :
    ((List.range k).foldl (fun next i => update next i (some (1 + i))) next) i =
      if i < k then some (1 + i) else next i := by
  induction k with
  | zero => rfl
  | succ k ih =>
    rw [range_succ, foldl_append, foldl_cons, foldl_nil]
    by_cases hi : i = k
    · subst hi
      rw [update_self, if_pos (Nat.lt_succ_self i)]
    · rw [update_of_ne hi, ih]
      have hiff : i < k ↔ i < k + 1 := by omega
      simp only [hiff]

theorem initNext_of_lt {size i : ℕ} (h : i + 1 < size) : initNext size i = some (i + 1) := by
  have hne : i ≠ size - 1 := by omega
  have hlt : i < size - 1 := by omega
  rw [initNext, update_of_ne hne, foldl_update_next, if_pos hlt, add_comm]

theorem chain_initNext {size : ℕ} (k len : ℕ) (h : k + (len + 1) = size) :
    Chain (initNext size) (some k) (List.range' k (len + 1)) := by
  induction len generalizing k with
  | zero =>
    obtain rfl : k = size - 1 := by omega
    exact ⟨rfl, update_self ..⟩
  | succ len ih =>
    refine ⟨rfl, ?_⟩
    rw [initNext_of_lt (by omega)]
    exact ih (k + 1) (by omega)

/-! ### Runs -/

section Runs

variable {T : Type*} {size : ℕ}

/-- The invariant of a pool of `size` nodes. -/
structure Inv (size : ℕ) (s : State T) : Prop where
  count_eq : s.mem.freeHead.count = s.mem.exchanges
  sound : ∃ free, VersionedStack.Sound {n | n < size} s.mem.stack (Pc.role ∘ s.pc) free
  guard : ∀ t, (s.pc t).Guard s.mem.stack

theorem inv_init (hsize : 1 ≤ size) : Inv size (init T size) where
  count_eq := rfl
  sound := by
    obtain ⟨len, rfl⟩ : ∃ len, size = len + 1 := Nat.exists_eq_add_of_le' hsize
    have hchain : Chain (initNext (len + 1)) (some 0) (List.range' 0 (len + 1)) :=
      chain_initNext 0 len (zero_add _)
    have harena : {n | n < len + 1} = {n | n ∈ List.range' 0 (len + 1)} := by
      ext n
      simp
    exact ⟨_, harena ▸ VersionedStack.sound_init (f := (Mem.init (len + 1)).stack) hchain rfl⟩
  guard _ := trivial

variable [DecidableEq T] {s s' : State T}

/-- A step is an operation of the free list as long as the count does not wrap around. -/
theorem Inv.step (h : Inv size s) {e : T × Act} (hstep : step s e = some s')
    (hlt : s'.mem.exchanges < 2 ^ 64) : Inv size s' := by
  obtain ⟨t, a⟩ := e
  obtain ⟨m, l, hp, rfl⟩ := step_eq_some.mp hstep
  obtain ⟨free, hsound⟩ := h.sound
  have hop : VersionedStack.Op s.mem.stack ((Pc.role ∘ s.pc) t) m.stack l.role :=
    op_prog h.count_eq (h.guard t) hp
  refine ⟨count_prog h.count_eq hlt hp, ?_, ?_⟩
  · rw [comp_update]
    exact hop.sound hsound
  · exact forall_guard_step (G := fun m l => l.Guard m.stack) hstep
      (fun _ _ hp => guard_prog h.count_eq (h.guard t) hp)
      fun u hu => Pc.Guard.of_op hu hsound hop rfl (h.guard u)

/-- **The invariant of every run** in which the count does not wrap around. -/
theorem inv_of_exec (hsize : 1 ≤ size) {es : List (T × Act)}
    (h : exec step (init T size) es = some s) (hlt : s.mem.exchanges < 2 ^ 64) : Inv size s := by
  refine exec_invariant (fun s => s.mem.exchanges < 2 ^ 64 → Inv size s) ?_
    (fun _ => inv_init hsize) h hlt
  intro s e s' hs hstep hlt
  obtain ⟨m, l, hp, rfl⟩ := step_eq_some.mp hstep
  exact (hs ((exchanges_le_prog hp).trans_lt hlt)).step hstep hlt

omit [DecidableEq T] in
theorem null_prog (h : prog m l a = some (m', .idle .null)) : m.freeHead.node = none := by
  have hfind {oldHead : Head} (hnull : findNext oldHead = .idle .null) : oldHead.node = none := by
    unfold findNext at hnull
    split at hnull
    · assumption
    · cases hnull
  revert h
  fun_cases prog m l a <;> simp only [Option.some.injEq, Prod.mk.injEq, reduceCtorEq,
    IsEmpty.forall_iff, and_false, Pc.idle.injEq]
  case case2 | case5 => exact fun h => hfind h.2

/-- **Every node has one owner.** In every run of a pool of at least one node in which the count
does not wrap around, the list from `free_head_` ends without meeting a node twice, every node of
the arena is on this list, or handed out, or being released by one thread, and only one of these;
and a call of `GetObject` that returns null has found the list empty. -/
theorem nodes_partition (size : ℕ) (hsize : 1 ≤ size) (es : List (T × Act)) (s : State T)
    (h : exec step (init T size) es = some s) (hlt : s.mem.exchanges < 2 ^ 64) :
    (∃ free : List ℕ, Chain s.mem.next s.mem.freeHead.node free ∧ free.Nodup ∧
      VersionedStack.Sound {n | n < size} s.mem.stack (Pc.role ∘ s.pc) free) ∧
    ∀ t a s', step s (t, a) = some s' → s'.pc t = .idle .null →
      Chain s.mem.next s.mem.freeHead.node [] := by
  constructor
  · obtain ⟨free, hsound⟩ := (inv_of_exec hsize h hlt).sound
    exact ⟨free, hsound.chain, hsound.chain.nodup, hsound⟩
  · intro t a s' hstep hnull
    have hp := prog_of_step hstep
    rw [hnull] at hp
    exact null_prog hp

end Runs

/-- Thread `0` loads the head and the link of the first node of a pool of two; thread `1` takes both
nodes and gives the first one back; then thread `0` tries its exchange. -/
def staleExchange : List (ℕ × Act) :=
  let steps (t n : ℕ) : List (ℕ × Act) := List.replicate n (t, .step false)
  (0, .getObject) :: (steps 0 2 ++ (1, .getObject) :: (steps 1 3 ++
    (1, .getObject) :: (steps 1 3 ++ (1, .releaseObject 0) :: (steps 1 3 ++ steps 0 1))))

theorem nodes_partition_staleExchange :
    ∃ s : State ℕ, s.mem.freeHead = ⟨3, some 0⟩ ∧ s.mem.handed = {1} ∧
      s.pc 0 = .getNext 3 0 ∧
      ∃ free : List ℕ, Chain s.mem.next s.mem.freeHead.node free ∧ free.Nodup ∧
        VersionedStack.Sound {n | n < 2} s.mem.stack (Pc.role ∘ s.pc) free := by
  obtain ⟨s, hs, hhead, hhanded, hpc, hlt⟩ :
      ∃ s, exec step (init ℕ 2) staleExchange = some s ∧
      s.mem.freeHead = ⟨3, some 0⟩ ∧ s.mem.handed = {1} ∧ s.pc 0 = .getNext 3 0 ∧
      s.mem.exchanges < 2 ^ 64 := by decide +kernel
  exact ⟨s, hhead, hhanded, hpc, (nodes_partition 2 (by decide) _ s hs hlt).1⟩

end Cyber.CCObjectPool
