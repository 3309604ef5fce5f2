import Notebook.Interleaving.SlotRing

/-!
# The bounded queue

`BoundedQueue` (`base/bounded_queue.h`) is a queue over a ring of `size + 2` slots that any number
of producers and consumers use without a lock. `Enqueue` reserves a position with a compare-exchange
on `tail_`, writes its slot and publishes it with a compare-exchange on `commit_`; `Dequeue` copies
the slot after `head_` and then takes it with a compare-exchange on `head_`. The model has one
transition for each atomic operation and each access to a slot.

Every transition of a thread is an operation of `Interleaving.SlotRing`. What a thread knows from an
earlier load stays useful because the counters never move back (`Pc.Guard.mono`).
-/

open Interleaving Threads

namespace Cyber.BoundedQueue

variable {V : Type*}

/-- The shared fields of the queue. `enqueued` and `dequeued` record the elements whose
compare-exchange on `tail_` or `head_` succeeded, in that order, and `calls` the number of calls
of `Enqueue` and `Dequeue`. -/
structure Mem (V : Type*) where
  head : ℕ
  tail : ℕ
  commit : ℕ
  poolSize : ℕ
  pool : ℕ → V
  enqueued : List V
  dequeued : List V
  calls : ℕ

/-- `Init`, after which every slot holds a value-initialised element. -/
def Mem.init [Inhabited V] (size : ℕ) : Mem V where
  head := 0
  tail := 1
  commit := 1
  poolSize := uint64 (size + 2)
  pool := fun _ => default
  enqueued := []
  dequeued := []
  calls := 0

/-- `GetIndex`. The division by `pool_size_` is guarded where the function is called. -/
def getIndex (poolSize num : ℕ) : ℕ := num - num / poolSize * poolSize

/-- What the last call of a thread returned. -/
inductive Result (V : Type*)
  | none
  | accepted
  | rejected
  | empty
  | value (element : V)
deriving DecidableEq, Repr

/-- The next atomic operation of a thread, with the locals of its call. -/
inductive Pc (V : Type*)
  | idle (result : Result V)
  | enqLoadTail (element : V)
  | enqLoadHead (element : V) (oldTail : ℕ)
  | enqCasTail (element : V) (oldTail newTail : ℕ)
  | enqWrite (element : V) (oldTail newTail : ℕ)
  | enqCasCommit (oldTail newTail : ℕ)
  | deqLoadHead
  | deqLoadCommit (oldHead : ℕ)
  | deqRead (oldHead newHead : ℕ)
  | deqCasHead (element : V) (oldHead newHead : ℕ)
deriving DecidableEq, Repr

/-- What a thread does next: call a function of the queue, or make its next atomic operation, where
`spurious` makes a `compare_exchange_weak` fail. -/
inductive Act (V : Type*)
  | enqueue (element : V)
  | dequeue
  | step (spurious : Bool)
deriving DecidableEq, Repr

/-- `Enqueue` and `Dequeue`, one atomic operation at a time. A failed compare-exchange on `tail_`
or `head_` leaves the current value in `old_tail` or `old_head`; one on `commit_` is repeated with
`old_tail`. With a `pool_size_` of `0` the division in `GetIndex` traps: there is no transition. -/
def prog (m : Mem V) : Pc V → Act V → Option (Mem V × Pc V)
  | .idle _, .enqueue v => some ({ m with calls := m.calls + 1 }, .enqLoadTail v)
  | .enqLoadTail v, .step _ => some (m, .enqLoadHead v m.tail)
  | .enqLoadHead v oldTail, .step _ =>
    if m.poolSize = 0 then none
    else if getIndex m.poolSize (uint64 (oldTail + 1)) = getIndex m.poolSize m.head then
      some (m, .idle .rejected)
    else some (m, .enqCasTail v oldTail (uint64 (oldTail + 1)))
  | .enqCasTail v oldTail newTail, .step spurious =>
    if m.tail = oldTail ∧ ¬spurious then
      some ({ m with tail := newTail, enqueued := m.enqueued ++ [v] }, .enqWrite v oldTail newTail)
    else some (m, .enqLoadHead v m.tail)
  | .enqWrite v oldTail newTail, .step _ =>
    if m.poolSize = 0 then none
    else
      some ({ m with pool := Function.update m.pool (getIndex m.poolSize oldTail) v },
        .enqCasCommit oldTail newTail)
  | .enqCasCommit oldTail newTail, .step spurious =>
    if m.commit = oldTail ∧ ¬spurious then some ({ m with commit := newTail }, .idle .accepted)
    else some (m, .enqCasCommit oldTail newTail)
  | .idle _, .dequeue => some ({ m with calls := m.calls + 1 }, .deqLoadHead)
  | .deqLoadHead, .step _ => some (m, .deqLoadCommit m.head)
  | .deqLoadCommit oldHead, .step _ =>
    if uint64 (oldHead + 1) = m.commit then some (m, .idle .empty)
    else some (m, .deqRead oldHead (uint64 (oldHead + 1)))
  | .deqRead oldHead newHead, .step _ =>
    if m.poolSize = 0 then none
    else some (m, .deqCasHead (m.pool (getIndex m.poolSize newHead)) oldHead newHead)
  | .deqCasHead v oldHead newHead, .step spurious =>
    if m.head = oldHead ∧ ¬spurious then
      some ({ m with head := newHead, dequeued := m.dequeued ++ [v] }, .idle (.value v))
    else some (m, .deqLoadCommit m.head)
  | _, _ => none

/-- A queue with the threads that use it. -/
abbrev State (V T : Type*) : Type _ := Threads (Mem V) T (Pc V)

/-- A queue after `Init`, with every thread outside it. -/
def init (V T : Type*) [Inhabited V] (size : ℕ) : State V T := ⟨.init size, fun _ => .idle .none⟩

/-- One atomic operation of one thread. -/
abbrev step {T : Type*} [DecidableEq T] : State V T → T × Act V → Option (State V T) :=
  Threads.step prog

/-! ### The code refines the ring -/

/-- The ring that the memory implements. -/
def Mem.ring (m : Mem V) : SlotRing V := ⟨m.head, m.commit, m.tail, m.pool, m.enqueued, m.dequeued⟩

/-- What a thread has under way in the ring. -/
def Pc.role : Pc V → SlotRing.Role V
  | .enqWrite v oldTail _ => .reserved oldTail v
  | .enqCasCommit oldTail _ => .written oldTail
  | _ => .free

/-- What a thread knows from its loads. A load of `tail_` or `head_` is a lower bound from then
on, and if the counter still has the loaded value then the test that followed the load still
holds. -/
def Pc.Guard (size : ℕ) (r : SlotRing V) : Pc V → Prop
  | .enqLoadHead _ oldTail => oldTail ≤ r.tail
  | .enqCasTail _ oldTail newTail =>
    newTail = oldTail + 1 ∧ oldTail ≤ r.tail ∧ (oldTail = r.tail → oldTail ≤ r.head + size)
  | .enqWrite _ oldTail newTail => newTail = oldTail + 1
  | .enqCasCommit oldTail newTail => newTail = oldTail + 1
  | .deqLoadCommit oldHead => oldHead ≤ r.head
  | .deqRead oldHead newHead =>
    newHead = oldHead + 1 ∧ oldHead ≤ r.head ∧ (oldHead = r.head → newHead < r.commit)
  | .deqCasHead v oldHead newHead =>
    newHead = oldHead + 1 ∧ oldHead ≤ r.head ∧
      (oldHead = r.head → newHead < r.commit ∧ r.enqueued[oldHead]? = some v)
  | _ => True

theorem Pc.Guard.mono {size : ℕ} {r r' : SlotRing V} {l : Pc V} (h : l.Guard size r)
    (hle : SlotRing.Le r r') : l.Guard size r' := by
  have hhead := hle.head
  have htail := hle.tail
  have hcommit := hle.commit
  cases l with
  | idle | enqLoadTail | deqLoadHead => trivial
  | enqLoadHead v oldTail => exact h.trans htail
  | enqCasTail v oldTail newTail =>
    obtain ⟨h₁, h₂, h₃⟩ := h
    exact ⟨h₁, h₂.trans htail, fun heq => (h₃ (by omega)).trans (by omega)⟩
  | enqWrite | enqCasCommit => exact h
  | deqLoadCommit oldHead => exact h.trans hhead
  | deqRead oldHead newHead =>
    obtain ⟨h₁, h₂, h₃⟩ := h
    exact ⟨h₁, h₂.trans hhead, fun heq => (h₃ (by omega)).trans_le hcommit⟩
  | deqCasHead v oldHead newHead =>
    obtain ⟨h₁, h₂, h₃⟩ := h
    refine ⟨h₁, h₂.trans hhead, fun heq => ?_⟩
    obtain ⟨h₄, h₅⟩ := h₃ (by omega)
    exact ⟨h₄.trans_le hcommit, getElem?_mono hle.enqueued h₅⟩

theorem getIndex_eq_mod (poolSize num : ℕ) : getIndex poolSize num = num % poolSize :=
  Nat.mod_eq_sub_div_mul.symm

variable {size : ℕ} {m m' : Mem V} {l l' : Pc V} {a : Act V}

theorem op_prog (hpool : m.poolSize = size + 2) (hl : l.Guard size m.ring)
    (h : prog m l a = some (m', l')) : SlotRing.Op size m.ring l.role m'.ring l'.role := by
  revert h
  fun_cases prog m l a <;> rintro ⟨⟩
  case case6 v oldTail newTail spurious hcas =>
    obtain ⟨rfl, -⟩ := hcas
    obtain ⟨rfl, -, hroom⟩ := hl
    exact .reserve m.ring v (hroom rfl)
  case case9 v oldTail newTail _ _ =>
    rw [getIndex_eq_mod, hpool]
    exact .write m.ring oldTail v
  case case10 oldTail newTail spurious hcas =>
    obtain ⟨rfl, -⟩ := hcas
    obtain rfl : newTail = m.commit + 1 := hl
    exact .publish m.ring
  case case18 v oldHead newHead spurious hcas =>
    obtain ⟨rfl, -⟩ := hcas
    obtain ⟨rfl, -, hread⟩ := hl
    exact .take m.ring v (hread rfl).1 (hread rfl).2
  all_goals exact .keep _ _

/-- The call of a thread has not yet moved `tail_` or `head_`. -/
def Pc.pending : Pc V → Bool
  | .enqLoadTail _ | .enqLoadHead _ _ | .enqCasTail _ _ _ => true
  | .deqLoadHead | .deqLoadCommit _ | .deqRead _ _ | .deqCasHead _ _ _ => true
  | _ => false

section Guard

variable {T : Type*} {role : T → SlotRing.Role V}

theorem le_head_add_of_index_ne {oldTail : ℕ} (hs : SlotRing.Sound size m.ring role)
    (hne : (oldTail + 1) % (size + 2) ≠ m.head % (size + 2)) (heq : oldTail = m.tail) :
    oldTail ≤ m.head + size := by
  have htail : m.tail ≤ m.head + size + 1 := hs.tail_le
  by_contra hlt
  obtain rfl : oldTail = m.head + size + 1 := by omega
  exact hne (Nat.add_mod_right m.head (size + 2))

/-- Every load and test gives a thread what it relies on later, provided that the next value of
`tail_` does not overflow while the call is under way. -/
theorem guard_prog (hpool : m.poolSize = size + 2) (hs : SlotRing.Sound size m.ring role)
    (hlt : l.pending = true → m.tail + 1 < 2 ^ 64) (hl : l.Guard size m.ring)
    (h : prog m l a = some (m', l')) : l'.Guard size m'.ring := by
  have hhead : m.head < m.commit := hs.head_lt
  have hcommit : m.commit ≤ m.tail := hs.commit_le
  revert h
  fun_cases prog m l a <;> rintro ⟨⟩
  case case2 => exact le_rfl
  case case5 v oldTail _ _ hne =>
    have hle : oldTail ≤ m.tail := hl
    have hlt := hlt rfl
    rw [uint64_eq_self (by omega), getIndex_eq_mod, getIndex_eq_mod, hpool] at hne
    exact ⟨uint64_eq_self (by omega), hle, le_head_add_of_index_ne hs hne⟩
  case case6 => exact hl.1
  case case7 => exact le_rfl
  case case9 => exact hl
  case case11 => exact hl
  case case13 => exact le_rfl
  case case15 oldHead _ hne =>
    have hle : oldHead ≤ m.head := hl
    have hlt := hlt rfl
    rw [uint64_eq_self (by omega)] at hne ⊢
    exact ⟨rfl, hle, fun heq => by simp only [Mem.ring] at heq ⊢; omega⟩
  case case17 oldHead newHead _ _ =>
    obtain ⟨rfl, hle, hread⟩ := hl
    refine ⟨rfl, hle, fun heq => ⟨hread heq, ?_⟩⟩
    -- the head has not moved, so the slot still belongs to the published position
    have hslot := hs.slots (oldHead + 1) (by omega) (hread heq)
    rwa [getIndex_eq_mod, hpool]
  case case19 => exact le_rfl
  all_goals trivial

end Guard

/-! ### The number of calls bounds the counters -/

theorem budget_prog (h : prog m l a = some (m', l')) :
    m'.enqueued.length + m'.dequeued.length + (if l'.pending then 1 else 0) + m.calls ≤
      m.enqueued.length + m.dequeued.length + (if l.pending then 1 else 0) + m'.calls := by
  revert h
  fun_cases prog m l a <;> rintro ⟨⟩ <;>
    simp only [Pc.pending, List.length_append, List.length_singleton, if_true,
      Bool.false_eq_true, if_false] <;> omega

theorem calls_le_prog (h : prog m l a = some (m', l')) : m.calls ≤ m'.calls := by
  revert h
  fun_cases prog m l a <;> rintro ⟨⟩ <;> simp

theorem poolSize_prog (h : prog m l a = some (m', l')) : m'.poolSize = m.poolSize := by
  revert h
  fun_cases prog m l a <;> rintro ⟨⟩ <;> rfl

/-! ### Runs -/

section Runs

variable {T : Type*}

/-- The invariant of a queue for `size` elements. -/
structure Inv (size : ℕ) (s : State V T) : Prop where
  poolSize_eq : s.mem.poolSize = size + 2
  sound : SlotRing.Sound size s.mem.ring (Pc.role ∘ s.pc)
  guard : ∀ t, (s.pc t).Guard size s.mem.ring
  budget : ∃ k, InPhase (fun l : Pc V => l.pending = true) s.pc k ∧
    s.mem.enqueued.length + s.mem.dequeued.length + k ≤ s.mem.calls

theorem inv_init [Inhabited V] (hsize : size + 2 < 2 ^ 64) : Inv size (init V T size) where
  poolSize_eq := uint64_eq_self hsize
  sound := SlotRing.sound_init _
  guard _ := trivial
  budget := ⟨0, inPhase_zero_iff.mpr fun _ => Bool.false_ne_true, le_rfl⟩

variable {s s' : State V T}

/-- **No overflow.** With fewer than `2 ^ 64` calls, `tail_ + 1` does not overflow while a call is
about to use it. -/
theorem Inv.tail_succ_lt (h : Inv size s) (hsize : size + 2 < 2 ^ 64)
    (hcalls : s.mem.calls < 2 ^ 64) {t : T} (ht : (s.pc t).pending = true) :
    s.mem.tail + 1 < 2 ^ 64 := by
  obtain ⟨k, hk, hbudget⟩ := h.budget
  have hpos := hk.pos ht
  have htail : s.mem.tail = s.mem.enqueued.length + 1 := h.sound.tail_eq
  have hhead : s.mem.dequeued.length = s.mem.head := h.sound.dequeued_length
  have hroom : s.mem.tail ≤ s.mem.head + size + 1 := h.sound.tail_le
  omega

variable [DecidableEq T]

/-- A step is an operation of the ring as long as the counters do not wrap around. -/
theorem Inv.step (h : Inv size s) (hsize : size + 2 < 2 ^ 64) {e : T × Act V}
    (hstep : step s e = some s') (hcalls : s'.mem.calls < 2 ^ 64) : Inv size s' := by
  obtain ⟨t, a⟩ := e
  obtain ⟨m, l, hp, rfl⟩ := step_eq_some.mp hstep
  have hop : SlotRing.Op size s.mem.ring ((Pc.role ∘ s.pc) t) m.ring l.role :=
    op_prog h.poolSize_eq (h.guard t) hp
  have hlt := h.tail_succ_lt hsize ((calls_le_prog hp).trans_lt hcalls) (t := t)
  refine ⟨(poolSize_prog hp).trans h.poolSize_eq, ?_, ?_, ?_⟩
  · rw [Function.comp_update]
    exact hop.sound h.sound
  · exact forall_guard_step (G := fun m l => l.Guard size m.ring) hstep
      (fun _ _ hp => guard_prog h.poolSize_eq h.sound hlt (h.guard t) hp)
      fun u _ => (h.guard u).mono hop.le
  · exact InPhase.budget h.budget (budget_prog hp)

/-- **The invariant of every run** with fewer than `2 ^ 64` calls. -/
theorem inv_of_exec [Inhabited V] (hsize : size + 2 < 2 ^ 64) {es : List (T × Act V)}
    (h : exec step (init V T size) es = some s) (hcalls : s.mem.calls < 2 ^ 64) : Inv size s := by
  refine exec_invariant (fun s => s.mem.calls < 2 ^ 64 → Inv size s) ?_
    (fun _ => inv_init hsize) h hcalls
  intro s e s' hs hstep hcalls
  obtain ⟨m, l, hp, rfl⟩ := step_eq_some.mp hstep
  exact (hs ((calls_le_prog hp).trans_lt hcalls)).step hsize hstep hcalls

/-! ### Sizes that overflow `pool_size_` -/

/-- Where a thread can be when no element is ever accepted. -/
def Pc.Outside : Pc V → Prop
  | .idle _ | .enqLoadTail _ | .enqLoadHead _ _ | .deqLoadHead => True
  | .deqLoadCommit oldHead => oldHead = 0
  | _ => False

/-- A queue that was never used. -/
structure Mem.Unused (m : Mem V) : Prop where
  head_eq : m.head = 0
  tail_eq : m.tail = 1
  commit_eq : m.commit = 1
  enqueued_eq : m.enqueued = []
  dequeued_eq : m.dequeued = []

omit [DecidableEq T] in
/-- With `pool_size_` at most `1` the test against `head_` traps or always finds the queue full. -/
theorem unused_prog (hpool : m.poolSize ≤ 1) (hm : m.Unused) (hl : l.Outside)
    (h : prog m l a = some (m', l')) : m'.Unused ∧ l'.Outside := by
  revert h
  fun_cases prog m l a <;> rintro ⟨⟩
  case case1 => exact ⟨⟨hm.1, hm.2, hm.3, hm.4, hm.5⟩, trivial⟩
  case case5 hpos hne =>
    have hone : m.poolSize = 1 := by omega
    exact absurd (by simp [getIndex, hone]) hne
  case case12 => exact ⟨⟨hm.1, hm.2, hm.3, hm.4, hm.5⟩, trivial⟩
  case case13 => exact ⟨hm, hm.head_eq⟩
  case case15 oldHead _ hne =>
    obtain rfl : oldHead = 0 := hl
    exact absurd hm.commit_eq.symm hne
  all_goals first
    | exact ⟨hm, trivial⟩
    | exact hl.elim

/-- **Sizes that overflow.** A queue whose `pool_size_` overflowed takes no element. -/
theorem unused_of_exec [Inhabited V] (hpool : uint64 (size + 2) ≤ 1) {es : List (T × Act V)}
    (h : exec step (init V T size) es = some s) : s.mem.Unused := by
  suffices hI : s.mem.poolSize ≤ 1 ∧ s.mem.Unused ∧ ∀ t, (s.pc t).Outside from hI.2.1
  refine exec_invariant
    (fun s : State V T => s.mem.poolSize ≤ 1 ∧ s.mem.Unused ∧ ∀ t, (s.pc t).Outside) ?_ ?_ h
  · rintro s ⟨t, a⟩ s' ⟨hpool, hm, hpc⟩ hstep
    have hpc' := forall_pc_step hstep hpc fun m l hp =>
      (unused_prog hpool hm (hpc t) hp).2
    obtain ⟨m, l, hp, rfl⟩ := step_eq_some.mp hstep
    exact ⟨(poolSize_prog hp).trans_le hpool, (unused_prog hpool hm (hpc t) hp).1, hpc'⟩
  · exact ⟨hpool, ⟨rfl, rfl, rfl, rfl, rfl⟩, fun _ => trivial⟩

end Runs

end Cyber.BoundedQueue
