import Notebook.Interleaving.LinkedQueue

/-!
# The unbounded queue

`UnboundedQueue` (`base/unbounded_queue.h`) is a queue of linked nodes that any number of producers
and consumers use without a lock. `Enqueue` makes a node, moves `tail_` to it with a
compare-exchange and links the old tail to it afterwards; `Dequeue` reads the link of the head,
moves `head_` along it with a compare-exchange and reads the element of the new head. Both then
adjust `size_` and give up their reference on the old node.

The model has one transition for each atomic operation and each access to a node that others can
see. A node that is deleted keeps its contents, and its address is not given out again. The values
of `Dequeue` are recorded in the order of the exchanges on `head_`: an exchange makes an entry, and
the read that follows fills it in.

Every transition of a thread is an operation of `Interleaving.LinkedQueue`.
-/

open Interleaving Function List Threads

namespace Cyber.UnboundedQueue

variable {V : Type*}

/-- `Node` -/
structure Node (V : Type*) where
  data : V
  refCount : ℕ
  next : Option ℕ
  deleted : Bool

/-- `new Node()`, with its element. -/
def Node.new (data : V) : Node V := ⟨data, 2, none, false⟩

/-- The shared fields of the queue and the nodes. `order` and `enqueued` record the nodes and the
elements whose compare-exchange on `tail_` succeeded, in that order, `dequeued` the elements that
the calls of `Dequeue` read after their compare-exchange on `head_`, in the order of these, and
`started`, `added` and `subtracted` the calls of `Enqueue` and the changes of `size_`. -/
structure Mem (V : Type*) where
  head : ℕ
  tail : ℕ
  size : ℕ
  nodes : ℕ → Node V
  fresh : ℕ
  order : List ℕ
  enqueued : List V
  dequeued : List (Option V)
  started : ℕ
  added : ℕ
  subtracted : ℕ

/-- `Reset` -/
def Mem.init [Inhabited V] : Mem V where
  head := 0
  tail := 0
  size := 0
  nodes := fun _ => .new default
  fresh := 1
  order := [0]
  enqueued := []
  dequeued := []
  started := 0
  added := 0
  subtracted := 0

namespace Mem

variable (m : Mem V)

/-- A node is written. -/
def setNode (n : ℕ) (node : Node V) : Mem V := { m with nodes := update m.nodes n node }

/-- `old_tail->next = node` -/
def setNext (n : ℕ) (next : ℕ) : Mem V := m.setNode n { m.nodes n with next := some next }

/-- `ref_count.fetch_sub(1)` -/
def fetchSubRefCount (n : ℕ) : Mem V :=
  m.setNode n { m.nodes n with refCount := wordSub 32 (m.nodes n).refCount 1 }

/-- `if (ref_count.load() == 0) delete this` -/
def deleteIfUnused (n : ℕ) : Mem V :=
  if (m.nodes n).refCount = 0 then m.setNode n { m.nodes n with deleted := true } else m

/-- `size_.fetch_add(1)` -/
def fetchAddSize : Mem V := { m with size := uint64 (m.size + 1), added := m.added + 1 }

/-- `size_.fetch_sub(1)` -/
def fetchSubSize : Mem V :=
  { m with size := wordSub 64 m.size 1, subtracted := m.subtracted + 1 }

/-- The element that the `k`-th exchange on `head_` leads to is recorded. -/
def record (k : ℕ) (v : V) : Mem V := { m with dequeued := m.dequeued.set k (some v) }

end Mem

/-- What the last call of a thread returned. -/
inductive Result (V : Type*)
  | none
  | enqueued
  | empty
  | value (element : V)
  | size (size : ℕ)
deriving DecidableEq, Repr

/-- The next atomic operation of a thread, with the locals of its call. `deqRead` has the number of
the exchange on `head_` as well. -/
inductive Pc (V : Type*)
  | idle (result : Result V)
  | enqLoadTail (element : V) (node : ℕ)
  | enqCasTail (element : V) (node oldTail : ℕ)
  | enqLink (node oldTail : ℕ)
  | enqRelease (oldTail : ℕ)
  | enqDelete (oldTail : ℕ)
  | enqAdd
  | deqLoadHead
  | deqLoadNext (oldHead : ℕ)
  | deqCasHead (oldHead headNext : ℕ)
  | deqRead (k oldHead headNext : ℕ)
  | deqSub (element : V) (oldHead : ℕ)
  | deqRelease (element : V) (oldHead : ℕ)
  | deqDelete (element : V) (oldHead : ℕ)
deriving DecidableEq, Repr

/-- What a thread does next: call a function of the queue, or make its next atomic operation. -/
inductive Act (V : Type*)
  | enqueue (element : V)
  | dequeue
  | size
  | step
deriving DecidableEq, Repr

/-- `Enqueue`, `Dequeue` and `Size`, one atomic operation at a time. A failed compare-exchange
leaves the current value in `old_tail` or `old_head`. -/
def prog (m : Mem V) : Pc V → Act V → Option (Mem V × Pc V)
  | .idle _, .enqueue v =>
    some ({ m.setNode m.fresh (.new v) with fresh := m.fresh + 1, started := m.started + 1 },
      .enqLoadTail v m.fresh)
  | .enqLoadTail v node, .step => some (m, .enqCasTail v node m.tail)
  | .enqCasTail v node oldTail, .step =>
    if m.tail = oldTail then
      some ({ m with tail := node, order := m.order ++ [node], enqueued := m.enqueued ++ [v] },
        .enqLink node oldTail)
    else some (m, .enqCasTail v node m.tail)
  | .enqLink node oldTail, .step => some (m.setNext oldTail node, .enqRelease oldTail)
  | .enqRelease oldTail, .step => some (m.fetchSubRefCount oldTail, .enqDelete oldTail)
  | .enqDelete oldTail, .step => some (m.deleteIfUnused oldTail, .enqAdd)
  | .enqAdd, .step => some (m.fetchAddSize, .idle .enqueued)
  | .idle _, .dequeue => some (m, .deqLoadHead)
  | .deqLoadHead, .step => some (m, .deqLoadNext m.head)
  | .deqLoadNext oldHead, .step =>
    match (m.nodes oldHead).next with
    | none => some (m, .idle .empty)
    | some headNext => some (m, .deqCasHead oldHead headNext)
  | .deqCasHead oldHead headNext, .step =>
    if m.head = oldHead then
      some ({ m with head := headNext, dequeued := m.dequeued ++ [none] },
        .deqRead m.dequeued.length oldHead headNext)
    else some (m, .deqLoadNext m.head)
  | .deqRead k oldHead headNext, .step =>
    some (m.record k (m.nodes headNext).data, .deqSub (m.nodes headNext).data oldHead)
  | .deqSub v oldHead, .step => some (m.fetchSubSize, .deqRelease v oldHead)
  | .deqRelease v oldHead, .step => some (m.fetchSubRefCount oldHead, .deqDelete v oldHead)
  | .deqDelete v oldHead, .step => some (m.deleteIfUnused oldHead, .idle (.value v))
  | .idle _, .size => some (m, .idle (.size m.size))
  | _, _ => none

/-- A queue with the threads that use it. -/
abbrev State (V T : Type*) : Type _ := Threads (Mem V) T (Pc V)

/-- A new queue, with every thread outside it. -/
def init (V T : Type*) [Inhabited V] : State V T := ⟨.init, fun _ => .idle .none⟩

/-- One atomic operation of one thread. -/
abbrev step {T : Type*} [DecidableEq T] : State V T → T × Act V → Option (State V T) :=
  Threads.step prog

/-! ### The code refines the linked queue -/

/-- The linked queue that the memory implements. -/
def Mem.queue (m : Mem V) : LinkedQueue V :=
  ⟨m.head, m.tail, m.fresh, fun n => (m.nodes n).data, fun n => (m.nodes n).next, m.order,
    m.enqueued, m.dequeued.length⟩

/-- What a thread has under way in the queue. -/
def Pc.role : Pc V → LinkedQueue.Role V
  | .enqLoadTail v node => .owner node v
  | .enqCasTail v node _ => .owner node v
  | .enqLink node oldTail => .linking oldTail node
  | _ => .free

/-- What a thread knows from its loads: the head it has loaded is a node of the queue, and the link
it has followed leads to the node after it. -/
def Pc.Guard (q : LinkedQueue V) : Pc V → Prop
  | .deqLoadNext oldHead => oldHead ∈ q.order
  | .deqCasHead oldHead headNext => LinkedQueue.Follows q.order oldHead headNext
  | .deqRead k _ headNext => q.order[k + 1]? = some headNext
  | _ => True

theorem Pc.Guard.mono {q q' : LinkedQueue V} {l : Pc V} (h : l.Guard q)
    (hle : LinkedQueue.Le q q') : l.Guard q' := by
  cases l with
  | deqLoadNext oldHead => exact hle.order.subset h
  | deqCasHead oldHead headNext => exact LinkedQueue.Follows.mono h hle.order
  | deqRead k oldHead headNext => exact getElem?_mono hle.order h
  | _ => trivial

section Nodes

variable (m : Mem V) (n : ℕ)

theorem queue_setNode (node : Node V) : (m.setNode n node).queue =
    { m.queue with
      data := update m.queue.data n node.data
      next := update m.queue.next n node.next } := by
  have hdata (i : ℕ) : (update m.nodes n node i).data =
      update m.queue.data n node.data i :=
    apply_update (fun _ (x : Node V) => x.data) ..
  have hnext (i : ℕ) : (update m.nodes n node i).next =
      update m.queue.next n node.next i :=
    apply_update (fun _ (x : Node V) => x.next) ..
  simp only [Mem.setNode, Mem.queue, LinkedQueue.mk.injEq, true_and, and_true]
  exact ⟨funext hdata, funext hnext⟩

/-- The reference count of a node, and whether it is deleted, play no part in the queue. -/
theorem queue_setNode_of_eq {node : Node V} (hdata : node.data = (m.nodes n).data)
    (hnext : node.next = (m.nodes n).next) : (m.setNode n node).queue = m.queue := by
  rw [queue_setNode, hdata, hnext]
  have h₁ : update m.queue.data n (m.nodes n).data = m.queue.data :=
    update_eq_self ..
  have h₂ : update m.queue.next n (m.nodes n).next = m.queue.next :=
    update_eq_self ..
  rw [h₁, h₂]

@[simp] theorem queue_fetchSubRefCount : (m.fetchSubRefCount n).queue = m.queue :=
  queue_setNode_of_eq m n rfl rfl

@[simp] theorem queue_deleteIfUnused : (m.deleteIfUnused n).queue = m.queue := by
  rw [Mem.deleteIfUnused]
  split
  · exact queue_setNode_of_eq m n rfl rfl
  · rfl

theorem queue_setNext (next : ℕ) : (m.setNext n next).queue =
    { m.queue with next := update m.queue.next n (some next) } := by
  rw [Mem.setNext, queue_setNode]
  have hdata : update m.queue.data n (m.nodes n).data = m.queue.data :=
    update_eq_self ..
  rw [hdata]

@[simp] theorem queue_fetchAddSize : m.fetchAddSize.queue = m.queue := rfl

@[simp] theorem queue_fetchSubSize : m.fetchSubSize.queue = m.queue := rfl

@[simp] theorem queue_record (v : V) : (m.record n v).queue = m.queue := by
  simp [Mem.queue, Mem.record]

end Nodes

variable {m m' : Mem V} {l l' : Pc V} {a : Act V}

theorem op_prog (hl : l.Guard m.queue) (h : prog m l a = some (m', l')) :
    LinkedQueue.Op m.queue l.role m'.queue l'.role := by
  revert h
  fun_cases prog m l a <;> rintro ⟨⟩
  case case1 v =>
    have heq : ({ m.setNode m.fresh (.new v) with
        fresh := m.fresh + 1, started := m.started + 1 } : Mem V).queue =
        { (m.setNode m.fresh (.new v)).queue with fresh := m.fresh + 1 } := rfl
    rw [heq, queue_setNode]
    exact .alloc m.queue v
  case case3 v node => exact .append m.queue node v
  case case5 node oldTail =>
    rw [queue_setNext]
    exact .link m.queue oldTail node
  case case13 headNext =>
    have heq : ({ m with head := headNext, dequeued := m.dequeued ++ [none] } : Mem V).queue =
        { m.queue with head := headNext, taken := m.queue.taken + 1 } := by
      simp [Mem.queue]
    rw [heq]
    exact .take m.queue headNext hl
  case case6 | case7 | case8 | case15 | case16 | case17 | case18 =>
    simp only [queue_fetchSubRefCount, queue_deleteIfUnused, queue_fetchAddSize, queue_record,
      queue_fetchSubSize]
    exact .keep ..
  all_goals exact .keep ..

theorem guard_prog {T : Type*} {role : T → LinkedQueue.Role V}
    (hs : LinkedQueue.Sound m.queue role) (hl : l.Guard m.queue)
    (h : prog m l a = some (m', l')) : l'.Guard m'.queue := by
  revert h
  fun_cases prog m l a <;> rintro ⟨⟩
  case case10 => exact mem_of_getElem? hs.head
  case case12 oldHead headNext hnext => exact hs.follows hl hnext
  case case13 headNext => exact hs.getElem?_taken hl
  case case14 => exact mem_of_getElem? hs.head
  all_goals exact True.intro

/-! ### Runs -/

section Runs

variable {T : Type*}

/-- The invariant of the queue: the linked queue is sound, the entries of `dequeued` that are filled
in hold the elements of their positions, and a thread is about to fill in each of the others. -/
structure Inv (s : State V T) : Prop where
  sound : LinkedQueue.Sound s.mem.queue (Pc.role ∘ s.pc)
  guard : ∀ t, (s.pc t).Guard s.mem.queue
  values : ∀ (k : ℕ) (v : V), s.mem.dequeued[k]? = some (some v) → s.mem.enqueued[k]? = some v
  pending : ∀ k : ℕ, s.mem.dequeued[k]? = some none →
    ∃ t oldHead headNext, s.pc t = .deqRead k oldHead headNext

theorem inv_init [Inhabited V] : Inv (init V T) where
  sound := LinkedQueue.sound_init _
  guard _ := trivial
  values _ _ h := by cases h
  pending _ h := by cases h

/-- What a transition does to the recorded elements. -/
inductive Records (m m' : Mem V) : Pc V → Pc V → Prop
  | keep {l l' : Pc V} (h : m'.dequeued = m.dequeued)
      (hl : ∀ k oldHead headNext, l ≠ .deqRead k oldHead headNext) : Records m m' l l'
  | enter (oldHead headNext : ℕ) (h : m'.dequeued = m.dequeued ++ [none]) :
      Records m m' (.deqCasHead oldHead headNext) (.deqRead m.dequeued.length oldHead headNext)
  | fill (k oldHead headNext : ℕ) {l' : Pc V}
      (h : m'.dequeued = m.dequeued.set k (some (m.nodes headNext).data)) :
      Records m m' (.deqRead k oldHead headNext) l'

@[simp] theorem dequeued_deleteIfUnused (m : Mem V) (n : ℕ) :
    (m.deleteIfUnused n).dequeued = m.dequeued := by
  rw [Mem.deleteIfUnused]
  split <;> rfl

theorem records_prog (h : prog m l a = some (m', l')) : Records m m' l l' := by
  revert h
  fun_cases prog m l a <;> rintro ⟨⟩
  case case13 headNext => exact .enter m.head headNext rfl
  case case15 k oldHead headNext => exact .fill k oldHead headNext rfl
  case case7 | case18 =>
    exact .keep (dequeued_deleteIfUnused ..) fun _ _ _ hl => by cases hl
  all_goals exact .keep rfl fun _ _ _ hl => by cases hl

variable {s s' : State V T}

theorem Inv.values_records (h : Inv s) {t : T} (hrec : Records s.mem m' (s.pc t) l')
    (henq : s.mem.enqueued <+: m'.enqueued) {k : ℕ} {v : V}
    (hk : m'.dequeued[k]? = some (some v)) : m'.enqueued[k]? = some v := by
  generalize hl : s.pc t = l at hrec
  refine getElem?_mono henq ?_
  cases hrec with
  | keep hdeq => exact h.values k v (hdeq ▸ hk)
  | enter oldHead headNext hdeq =>
    rw [hdeq, getElem?_append] at hk
    split at hk
    · exact h.values k v hk
    · have hnone := mem_singleton.mp (mem_of_getElem? hk)
      cases hnone
  | fill j oldHead headNext hdeq =>
    rw [hdeq, getElem?_set] at hk
    split at hk
    · rename_i heq
      subst heq
      obtain ⟨-, rfl⟩ : j < s.mem.dequeued.length ∧ (s.mem.nodes headNext).data = v := by
        simpa using hk
      -- the node that the exchange has led to is the one after the `j`-th
      have hguard := h.guard t
      rw [hl] at hguard
      exact h.sound.data j headNext hguard
    · exact h.values k v hk

variable [DecidableEq T]

/-- An entry without its element belongs to a thread that will read it. -/
theorem Inv.pending_records (h : Inv s) {t : T} (hrec : Records s.mem m' (s.pc t) l') {k : ℕ}
    (hk : m'.dequeued[k]? = some none) :
    ∃ u oldHead headNext, update s.pc t l' u = .deqRead k oldHead headNext := by
  -- the thread that is about to fill in an old entry does so later
  have hold (hk : s.mem.dequeued[k]? = some none)
      (hne : ∀ oldHead headNext, s.pc t ≠ .deqRead k oldHead headNext) :
      ∃ u oldHead headNext, update s.pc t l' u = .deqRead k oldHead headNext := by
    obtain ⟨u, oldHead, headNext, hu⟩ := h.pending k hk
    have hut : u ≠ t := by
      rintro rfl
      exact hne oldHead headNext hu
    exact ⟨u, oldHead, headNext, by rw [update_of_ne hut, hu]⟩
  generalize hl : s.pc t = l at hrec hold
  cases hrec with
  | keep hdeq hne => exact hold (hdeq ▸ hk) (hne k)
  | enter oldHead headNext hdeq =>
    rw [hdeq, getElem?_append] at hk
    split at hk
    · exact hold hk fun _ _ heq => by cases heq
    · rename_i hlen
      have hlt : k < (s.mem.dequeued ++ [none]).length :=
        (List.getElem?_eq_some_iff.mp
          ((getElem?_append_right (Nat.le_of_not_lt hlen)).trans hk)).1
      obtain rfl : k = s.mem.dequeued.length := by
        rw [length_append, length_singleton] at hlt
        omega
      exact ⟨t, oldHead, headNext, update_self ..⟩
  | fill j oldHead headNext hdeq =>
    rw [hdeq, getElem?_set] at hk
    split at hk
    · simp at hk
    · rename_i hne
      refine hold hk fun _ _ heq => hne ?_
      injection heq

/-- A step is an operation of the linked queue, or fills in an element that was taken. -/
theorem Inv.step (h : Inv s) {e : T × Act V} (hstep : step s e = some s') : Inv s' := by
  obtain ⟨t, a⟩ := e
  obtain ⟨m, l, hp, rfl⟩ := step_eq_some.mp hstep
  have hop : LinkedQueue.Op s.mem.queue ((Pc.role ∘ s.pc) t) m.queue l.role :=
    op_prog (h.guard t) hp
  have hrec := records_prog hp
  refine ⟨?_, ?_, fun k v => h.values_records hrec hop.le.enqueued,
    fun k => h.pending_records hrec⟩
  · rw [comp_update]
    exact hop.sound h.sound
  · exact forall_guard_step (G := fun m l => l.Guard m.queue) hstep
      (fun _ _ hp => guard_prog h.sound (h.guard t) hp) fun u _ => (h.guard u).mono hop.le

/-- **The invariant of every run.** -/
theorem inv_of_exec [Inhabited V] {es : List (T × Act V)}
    (h : exec step (init V T) es = some s) : Inv s :=
  exec_invariant Inv (fun _ _ _ hs hstep => hs.step hstep) inv_init h

/-- **First in, first out.** In every run, the calls of `Dequeue` that have moved `head_` take, in
the order of their exchanges, the first of the elements put in by `Enqueue`, in the order of the
exchanges on `tail_`: each of these calls has read the element at its position, or is about to
read. -/
theorem dequeued_fifo [Inhabited V] (es : List (T × Act V)) (s : State V T)
    (h : exec step (init V T) es = some s) :
    ∃ values, values <+: s.mem.enqueued ∧ values.length = s.mem.dequeued.length ∧
      ∀ (k : ℕ) (v : V), values[k]? = some v →
        s.mem.dequeued[k]? = some (some v) ∨
        s.mem.dequeued[k]? = some none ∧
          ∃ t oldHead headNext, s.pc t = .deqRead k oldHead headNext := by
  have hinv := inv_of_exec h
  have hle : s.mem.dequeued.length ≤ s.mem.enqueued.length := hinv.sound.taken_le
  refine ⟨s.mem.enqueued.take s.mem.dequeued.length, take_prefix .., by simpa using hle, ?_⟩
  intro k v hk
  rw [getElem?_take] at hk
  split at hk
  · rename_i hlt
    obtain ⟨d, hd⟩ : ∃ d, s.mem.dequeued[k]? = some d := ⟨_, getElem?_eq_getElem hlt⟩
    cases d with
    | none => exact .inr ⟨hd, hinv.pending k hd⟩
    | some w =>
      have hw := hinv.values k w hd
      obtain rfl : v = w := Option.some.inj (hk.symm.trans hw)
      exact .inl hd
  · cases hk

end Runs

/-- Thread `0` enqueues `7` and stops before it has linked its node; thread `1` enqueues `8`; thread
`0` goes on; thread `2` takes an element. -/
def stalledProducer : List (ℕ × Act ℕ) :=
  let steps (t n : ℕ) : List (ℕ × Act ℕ) := List.replicate n (t, .step)
  (0, .enqueue 7) :: (steps 0 2 ++ (1, .enqueue 8) :: (steps 1 6 ++ steps 0 4 ++
    (2, .dequeue) :: steps 2 4))

theorem dequeued_fifo_stalledProducer :
    ∃ s : State ℕ ℕ, s.mem.enqueued = [7, 8] ∧ s.mem.dequeued = [some 7] ∧
      ∃ values, values <+: s.mem.enqueued ∧ values.length = s.mem.dequeued.length ∧
        ∀ (k v : ℕ), values[k]? = some v →
          s.mem.dequeued[k]? = some (some v) ∨
          s.mem.dequeued[k]? = some none ∧
            ∃ t oldHead headNext, s.pc t = .deqRead k oldHead headNext := by
  obtain ⟨s, hs, henq, hdeq⟩ : ∃ s, exec step (init ℕ ℕ) stalledProducer = some s ∧
      s.mem.enqueued = [7, 8] ∧ s.mem.dequeued = [some 7] := by decide +kernel
  exact ⟨s, henq, hdeq, dequeued_fifo _ s hs⟩

end Cyber.UnboundedQueue
