import Notebook.Cyber.Base.BoundedQueue

/-!
# Components over the bounded queue

What a component that calls `Enqueue` and `Dequeue` of a `BoundedQueue` (`base/bounded_queue.h`) may
rely on, one atomic operation at a time. Such a component keeps the state of the queue as a part of
its own, and its threads look at what their calls return. A call stays the call that it is until it
returns; only an accepted call publishes an element; and a call of `Dequeue` returns `false` at a
moment at which no published element is in the queue.
-/

open Interleaving Threads

namespace Cyber.BoundedQueue

/-- The functions of the queue. -/
inductive Call
  | enqueue
  | dequeue
deriving DecidableEq, Repr

variable {V : Type*}

/-- The call that a thread is in. -/
def Pc.call : Pc V → Option Call
  | .idle _ => none
  | .enqLoadTail _ | .enqLoadHead _ _ | .enqCasTail _ _ _ | .enqWrite _ _ _
  | .enqCasCommit _ _ => some .enqueue
  | .deqLoadHead | .deqLoadCommit _ | .deqRead _ _ | .deqCasHead _ _ _ => some .dequeue

/-- The queue holds an element that is published. -/
def Mem.HasElement (m : Mem V) : Prop := m.head + 1 < m.commit
deriving Decidable

/-- The element of a call of `Enqueue` that has not yet moved `tail_`. -/
def Pc.unplaced : Pc V → Option V
  | .enqLoadTail v | .enqLoadHead v _ | .enqCasTail v _ _ => some v
  | _ => none

/-- The thread is about to test its `old_tail` against `head_`, and the slots are equal: the queue
is full, or the consumers have gone once around the ring since the load of `old_tail`. -/
def Pc.rejecting (m : Mem V) : Pc V → Prop
  | .enqLoadHead _ oldTail =>
    getIndex m.poolSize (uint64 (oldTail + 1)) = getIndex m.poolSize m.head
  | _ => False

instance (m : Mem V) : (l : Pc V) → Decidable (l.rejecting m)
  | .enqLoadHead _ _ => inferInstanceAs (Decidable (_ = _))
  | .idle _ | .enqLoadTail _ | .enqCasTail _ _ _ | .enqWrite _ _ _ | .enqCasCommit _ _
  | .deqLoadHead | .deqLoadCommit _ | .deqRead _ _ | .deqCasHead _ _ _ => .isFalse id

section Operations

variable {m m' : Mem V} {l l' : Pc V} {a : Act V}

theorem enqueue_prog (hl : l.call = some .enqueue) (h : prog m l a = some (m', l')) :
    l'.call = some .enqueue ∨ l' = .idle .rejected ∨ l' = .idle .accepted := by
  revert h
  fun_cases prog m l a <;> rintro ⟨⟩ <;> simp_all [Pc.call]

theorem dequeue_prog (hl : l.call = some .dequeue) (h : prog m l a = some (m', l')) :
    (l'.call = some .dequeue ∨ (∃ v, l' = .idle (.value v)) ∨ l' = .idle .empty) ∧
      m'.enqueued = m.enqueued := by
  revert h
  fun_cases prog m l a <;> rintro ⟨⟩ <;> simp_all [Pc.call]

theorem call_enqueue_prog {v : V} (h : prog m l (.enqueue v) = some (m', l')) :
    l'.call = some .enqueue ∧ l'.unplaced = some v ∧ m'.enqueued = m.enqueued := by
  cases l with
  | idle r =>
    cases h
    exact ⟨rfl, rfl, rfl⟩
  | _ => exact absurd h (Option.some_ne_none _).symm

theorem call_dequeue_prog (h : prog m l .dequeue = some (m', l')) :
    l'.call = some .dequeue ∧ m'.enqueued = m.enqueued := by
  cases l with
  | idle r =>
    cases h
    exact ⟨rfl, rfl⟩
  | _ => exact absurd h (Option.some_ne_none _).symm

/-- A call whose element is not placed: the test against `head_` rejects it, or it goes on and may
place its element. -/
theorem unplaced_prog {v : V} (hl : l.unplaced = some v) (h : prog m l a = some (m', l')) :
    l.rejecting m ∧ l' = .idle .rejected ∧ m'.enqueued = m.enqueued ∨
      ¬l.rejecting m ∧ l'.call = some .enqueue ∧
        (l'.unplaced = some v ∧ m'.enqueued = m.enqueued ∨
          l'.unplaced = none ∧ m'.enqueued = m.enqueued ++ [v]) := by
  revert h
  fun_cases prog m l a <;> rintro ⟨⟩ <;> simp_all [Pc.call, Pc.unplaced, Pc.rejecting]

theorem placed_prog (hcall : l.call = some .enqueue) (hl : l.unplaced = none)
    (h : prog m l a = some (m', l')) :
    (l'.call = some .enqueue ∧ l'.unplaced = none ∨ l' = .idle .accepted) ∧
      m'.enqueued = m.enqueued := by
  revert h
  fun_cases prog m l a <;> rintro ⟨⟩ <;> simp_all [Pc.call, Pc.unplaced]

theorem empty_prog (h : prog m l a = some (m', .idle .empty)) :
    m' = m ∧ ∃ oldHead, l = .deqLoadCommit oldHead ∧ uint64 (oldHead + 1) = m.commit := by
  revert h
  fun_cases prog m l a <;> simp_all

theorem commit_prog (h : prog m l a = some (m', l')) (hl : l' ≠ .idle .accepted) :
    m'.commit = m.commit := by
  revert h
  fun_cases prog m l a <;> rintro ⟨⟩ <;> first | rfl | exact absurd rfl hl

end Operations

section Reachable

variable {T : Type*} [DecidableEq T] {size : ℕ} {s s' : State V T}

theorem calls_le_step {e : T × Act V} (hstep : step s e = some s') :
    s.mem.calls ≤ s'.mem.calls :=
  calls_le_prog (prog_of_step hstep)

variable {t : T}

theorem call_enqueue_step {v : V} (hstep : step s (t, .enqueue v) = some s') :
    (s'.pc t).call = some .enqueue :=
  (call_enqueue_prog (prog_of_step hstep)).1

theorem call_dequeue_step (hstep : step s (t, .dequeue) = some s') :
    (s'.pc t).call = some .dequeue :=
  (call_dequeue_prog (prog_of_step hstep)).1

theorem Mem.Unused.not_hasElement {m : Mem V} (h : m.Unused) : ¬m.HasElement := by
  rw [Mem.HasElement, h.head_eq, h.commit_eq]
  exact lt_irrefl 1

variable [Inhabited V]

/-- The states of a queue that was initialised for `size` elements. -/
def Reachable (size : ℕ) (s : State V T) : Prop := ∃ es, exec step (init V T size) es = some s

theorem reachable_init : Reachable size (init V T size) := ⟨[], rfl⟩

theorem reachable_step {e : T × Act V} (h : Reachable size s) (hstep : step s e = some s') :
    Reachable size s' := by
  obtain ⟨es, hes⟩ := h
  exact ⟨es ++ [e], exec_concat_eq_some.mpr ⟨s, hes, hstep⟩⟩

/-- A queue is used within its invariant, or its size has overflowed and it takes no element. -/
theorem Reachable.inv_or_unused (hsize : size < 2 ^ 64) (h : Reachable size s)
    (hcalls : s.mem.calls < 2 ^ 64) : size + 2 < 2 ^ 64 ∧ Inv size s ∨ s.mem.Unused := by
  obtain ⟨es, hes⟩ := h
  by_cases hwrap : size + 2 < 2 ^ 64
  · exact .inl ⟨hwrap, inv_of_exec hwrap hes hcalls⟩
  · exact .inr (unused_of_exec (by simp only [uint64]; omega) hes)

theorem Reachable.not_hasElement_of_empty (hsize : size < 2 ^ 64) (h : Reachable size s)
    (hcalls : s.mem.calls < 2 ^ 64) {a : Act V} (hstep : step s (t, a) = some s')
    (hempty : s'.pc t = .idle .empty) : ¬s'.mem.HasElement := by
  have hp := prog_of_step hstep
  rw [hempty] at hp
  obtain ⟨hmem, oldHead, hpc, hcommit⟩ := empty_prog hp
  rw [hmem]
  rcases h.inv_or_unused hsize hcalls with ⟨hwrap, hinv⟩ | hunused
  · -- the loaded head is a lower bound, and the head is below the commit
    have hlt := hinv.tail_succ_lt hwrap hcalls (t := t) (by rw [hpc, Pc.pending])
    have hguard := hinv.guard t
    rw [hpc] at hguard
    have hle : oldHead ≤ s.mem.head := hguard
    have hhead : s.mem.head < s.mem.commit := hinv.sound.head_lt
    have hcommit_le : s.mem.commit ≤ s.mem.tail := hinv.sound.commit_le
    rw [uint64_eq_self (by omega)] at hcommit
    simp only [Mem.HasElement]
    omega
  · exact hunused.not_hasElement

/-- Only an accepted call of `Enqueue` brings an element into an empty queue. -/
theorem Reachable.hasElement_of_step (hsize : size < 2 ^ 64) (h : Reachable size s)
    (hcalls : s.mem.calls < 2 ^ 64) {a : Act V} (hstep : step s (t, a) = some s')
    (hpc : s'.pc t ≠ .idle .accepted) (hs' : s'.mem.HasElement) : s.mem.HasElement := by
  have hp := prog_of_step hstep
  have hcommit : s'.mem.commit = s.mem.commit := commit_prog hp hpc
  rcases h.inv_or_unused hsize hcalls with ⟨-, hinv⟩ | hunused
  · have hhead : s.mem.head ≤ s'.mem.head := (op_prog hinv.poolSize_eq (hinv.guard t) hp).le.head
    simp only [Mem.HasElement] at hs' ⊢
    omega
  · have hcommit_eq : s.mem.commit = 1 := hunused.commit_eq
    simp only [Mem.HasElement] at hs'
    omega

end Reachable

end Cyber.BoundedQueue
