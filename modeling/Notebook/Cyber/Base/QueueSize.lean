import Notebook.Cyber.Base.BoundedQueueUse
import Notebook.Cyber.Base.UnboundedQueue

/-!
# The sizes of the queues

`UnboundedQueue::Size` (`base/unbounded_queue.h`) loads `size_`, which `Enqueue` increments after
the element can be taken and `Dequeue` decrements after it was taken. `BoundedQueue::Size`
(`base/bounded_queue.h`) is `tail_ - head_ - 1`, two loads at two moments whose order the language
leaves open. Both results are unsigned, so a difference below zero wraps around.

The calls of the second `Size` are added to the model here, over the steps of `Enqueue` and
`Dequeue`.

## Main definitions

* `UnboundedQueue.Counted` — `size_` is the difference of its changes.
* `BoundedQueue.sizeProg` — the bounded queue with calls of `Size`.
* `BoundedQueue.SizeInv` — calls of `Size` leave the queue in a state that it reaches without them.

## Main results

* `sizeValue_le_iff` — when a call of `BoundedQueue::Size` returns too much.
* `queueSize_le_started_iff` — the sizes and the number of calls of `Enqueue`, for both queues.
-/

open Interleaving Function List Option Threads

/-! ### The unbounded queue -/

namespace Cyber.UnboundedQueue

variable {V T : Type*}

/-- The call of `Enqueue` has not yet moved `tail_`. -/
def Pc.unplaced : Pc V → Bool
  | .enqLoadTail _ _ | .enqCasTail _ _ _ => true
  | _ => false

/-- The call of `Enqueue` has moved `tail_` and not yet incremented `size_`. -/
def Pc.uncounted : Pc V → Bool
  | .enqLink _ _ | .enqRelease _ | .enqDelete _ | .enqAdd => true
  | _ => false

/-- The call of `Dequeue` has moved `head_` and not yet decremented `size_`. -/
def Pc.taking : Pc V → Bool
  | .deqRead _ _ _ | .deqSub _ _ => true
  | _ => false

/-- The counters of the queue: `size_` is the difference of its changes, and each change that is
still missing is that of a call on its way to it. -/
structure Counted (s : State V T) : Prop where
  size_lt : s.mem.size < 2 ^ 64
  size_modEq : s.mem.size + s.mem.subtracted ≡ s.mem.added [MOD 2 ^ 64]
  started_eq : ∃ k, InPhase (fun l : Pc V => l.unplaced = true) s.pc k ∧
    s.mem.enqueued.length + k = s.mem.started
  enqueued_eq : ∃ k, InPhase (fun l : Pc V => l.uncounted = true) s.pc k ∧
    s.mem.added + k = s.mem.enqueued.length
  dequeued_eq : ∃ k, InPhase (fun l : Pc V => l.taking = true) s.pc k ∧
    s.mem.subtracted + k = s.mem.dequeued.length

theorem counted_init [Inhabited V] : Counted (init V T) where
  size_lt := Nat.two_pow_pos 64
  size_modEq := rfl
  started_eq := ⟨0, inPhase_zero_iff.mpr fun _ => Bool.false_ne_true, rfl⟩
  enqueued_eq := ⟨0, inPhase_zero_iff.mpr fun _ => Bool.false_ne_true, rfl⟩
  dequeued_eq := ⟨0, inPhase_zero_iff.mpr fun _ => Bool.false_ne_true, rfl⟩

variable {m m' : Mem V} {l l' : Pc V} {a : Act V}

theorem exists_deleteIfUnused_eq (m : Mem V) (n : ℕ) :
    ∃ nodes, m.deleteIfUnused n = { m with nodes := nodes } := by
  rw [Mem.deleteIfUnused]
  split
  · exact ⟨_, rfl⟩
  · exact ⟨m.nodes, rfl⟩

theorem counters_prog (h : prog m l a = some (m', l')) :
    (m'.enqueued.length + (if l'.unplaced = true then 1 else 0) + m.started =
      m.enqueued.length + (if l.unplaced = true then 1 else 0) + m'.started) ∧
    (m'.added + (if l'.uncounted = true then 1 else 0) + m.enqueued.length =
      m.added + (if l.uncounted = true then 1 else 0) + m'.enqueued.length) ∧
    (m'.subtracted + (if l'.taking = true then 1 else 0) + m.dequeued.length =
      m.subtracted + (if l.taking = true then 1 else 0) + m'.dequeued.length) := by
  revert h
  fun_cases prog m l a <;> rintro ⟨⟩
  case case7 oldTail =>
    obtain ⟨nodes, heq⟩ := exists_deleteIfUnused_eq m oldTail
    rw [heq]
    exact ⟨rfl, rfl, rfl⟩
  case case18 v oldHead =>
    obtain ⟨nodes, heq⟩ := exists_deleteIfUnused_eq m oldHead
    rw [heq]
    exact ⟨rfl, rfl, rfl⟩
  all_goals
    simp only [Pc.unplaced, Pc.uncounted, Pc.taking, Mem.setNext, Mem.setNode,
      Mem.fetchSubRefCount, Mem.fetchAddSize, Mem.fetchSubSize, Mem.record, length_append,
      length_singleton, length_set, Bool.false_eq_true, if_true, if_false, and_self,
      and_true, true_and] <;> omega

/-- `size_` is the difference of its changes modulo `2 ^ 64`. -/
theorem size_prog (hlt : m.size < 2 ^ 64)
    (heq : m.size + m.subtracted ≡ m.added [MOD 2 ^ 64]) (h : prog m l a = some (m', l')) :
    m'.size < 2 ^ 64 ∧ m'.size + m'.subtracted ≡ m'.added [MOD 2 ^ 64] := by
  revert h
  fun_cases prog m l a <;> rintro ⟨⟩
  case case7 oldTail =>
    obtain ⟨nodes, hdel⟩ := exists_deleteIfUnused_eq m oldTail
    rw [hdel]
    exact ⟨hlt, heq⟩
  case case8 =>
    refine ⟨uint64_lt _, ?_⟩
    have hmod : uint64 (m.size + 1) ≡ m.size + 1 [MOD 2 ^ 64] := Nat.mod_modEq _ _
    calc uint64 (m.size + 1) + m.subtracted
        ≡ m.size + 1 + m.subtracted [MOD 2 ^ 64] := hmod.add_right _
      _ = m.size + m.subtracted + 1 := by omega
      _ ≡ m.added + 1 [MOD 2 ^ 64] := heq.add_right 1
  case case16 v oldHead =>
    refine ⟨wordSub_lt hlt, ?_⟩
    calc wordSub 64 m.size 1 + (m.subtracted + 1)
        = wordSub 64 m.size 1 + 1 + m.subtracted := by omega
      _ ≡ m.size + m.subtracted [MOD 2 ^ 64] :=
        (wordSub_add_modEq (Nat.one_le_two_pow)).add_right _
      _ ≡ m.added [MOD 2 ^ 64] := heq
  case case18 v oldHead =>
    obtain ⟨nodes, hdel⟩ := exists_deleteIfUnused_eq m oldHead
    rw [hdel]
    exact ⟨hlt, heq⟩
  all_goals exact ⟨hlt, heq⟩

variable {s s' : State V T}

theorem Counted.step [DecidableEq T] (h : Counted s) {e : T × Act V}
    (hstep : step s e = some s') : Counted s' := by
  obtain ⟨t, a⟩ := e
  obtain ⟨m, l, hp, rfl⟩ := step_eq_some.mp hstep
  obtain ⟨hlt, hmod⟩ := size_prog h.size_lt h.size_modEq hp
  obtain ⟨henq, hadd, hsub⟩ := counters_prog hp
  exact ⟨hlt, hmod, InPhase.balance h.started_eq henq, InPhase.balance h.enqueued_eq hadd,
    InPhase.balance h.dequeued_eq hsub⟩

theorem counted_of_exec [Inhabited V] [DecidableEq T] {es : List (T × Act V)}
    (h : exec step (init V T) es = some s) : Counted s :=
  exec_invariant Counted (fun _ _ _ hs hstep => hs.step hstep) counted_init h

theorem size_step [DecidableEq T] {t : T} {n : ℕ} (hstep : step s (t, .size) = some s')
    (hn : s'.pc t = .idle (.size n)) : s'.mem = s.mem ∧ n = s.mem.size := by
  have hp := prog_of_step hstep
  rw [hn] at hp
  generalize s.pc t = l at hp
  cases l with
  | idle result =>
    obtain ⟨hmem, hsize⟩ := Prod.mk.inj (some.inj hp)
    injection hsize with hsize
    injection hsize with hsize
    exact ⟨hmem.symm, hsize.symm⟩
  | _ => exact absurd hp (some_ne_none _).symm

/-- The value of `size_` is at most the number of calls of `Enqueue` exactly if the calls that have
still to increment it are no more than the elements in the queue and the calls that have still to
decrement it. -/
theorem Counted.size_le_iff (h : Counted s) (hle : s.mem.dequeued.length ≤ s.mem.enqueued.length)
    (hstarted : s.mem.started < 2 ^ 63) :
    ∃ u d, InPhase (fun l : Pc V => l.uncounted = true) s.pc u ∧
      InPhase (fun l : Pc V => l.taking = true) s.pc d ∧
      (s.mem.size ≤ s.mem.started ↔ u ≤ s.mem.enqueued.length - s.mem.dequeued.length + d) := by
  obtain ⟨_, -, henq⟩ := h.started_eq
  obtain ⟨u, hu, hadd⟩ := h.enqueued_eq
  obtain ⟨d, hd, hsub⟩ := h.dequeued_eq
  have hlt := h.size_lt
  have hmod : (s.mem.size + s.mem.subtracted) % 2 ^ 64 = s.mem.added % 2 ^ 64 := h.size_modEq
  exact ⟨u, d, hu, hd, by omega⟩

end Cyber.UnboundedQueue

/-! ### The bounded queue -/

namespace Cyber.BoundedQueue

variable {V T : Type*}

/-- Where a thread is in its last call of `Size`, with the values it has loaded. `tailFirst` says
that `tail_` is loaded before `head_`. -/
inductive SizeCall
  | none
  | first (tailFirst : Bool)
  | loadHead (tail : ℕ)
  | loadTail (head : ℕ)
  | returned (tailFirst : Bool) (tail head : ℕ)
deriving DecidableEq, Repr

/-- The thread is in a call of `Size`. -/
def SizeCall.busy : SizeCall → Bool
  | .none | .returned _ _ _ => false
  | _ => true

/-- `tail_ - head_ - 1` -/
def sizeValue (tail head : ℕ) : ℕ := wordSub 64 (wordSub 64 tail head) 1

/-- The queue, with the number of calls of `Enqueue`. -/
structure SizeMem (V : Type*) where
  queue : Mem V
  started : ℕ

/-- What a thread does next: an action of `Enqueue` or `Dequeue`, a call of `Size`, or the next load
of this call. -/
inductive SizeAct (V : Type*)
  | queue (act : Act V)
  | size (tailFirst : Bool)
  | load
deriving DecidableEq, Repr

/-- The action is a call of `Enqueue`. -/
def Act.isEnqueue : Act V → Bool
  | .enqueue _ => true
  | _ => false

/-- `Enqueue`, `Dequeue` and `Size`, one atomic operation at a time. -/
def sizeProg (m : SizeMem V) :
    Pc V × SizeCall → SizeAct V → Option (SizeMem V × (Pc V × SizeCall))
  | (l, c), .queue a =>
    if c.busy then none
    else
      (prog m.queue l a).map fun r =>
        (⟨r.1, m.started + if a.isEnqueue then 1 else 0⟩, (r.2, .none))
  | (.idle r, c), .size tailFirst =>
    if c.busy then none else some (m, (.idle r, .first tailFirst))
  | (l, .first true), .load => some (m, (l, .loadHead m.queue.tail))
  | (l, .first false), .load => some (m, (l, .loadTail m.queue.head))
  | (l, .loadHead tail), .load => some (m, (l, .returned true tail m.queue.head))
  | (l, .loadTail head), .load => some (m, (l, .returned false m.queue.tail head))
  | _, _ => none

/-- A queue with the threads that use it and ask for its size. -/
abbrev SizeState (V T : Type*) : Type _ := Threads (SizeMem V) T (Pc V × SizeCall)

/-- A queue after `Init`, with every thread outside it. -/
def sizeInit (V T : Type*) [Inhabited V] (size : ℕ) : SizeState V T :=
  ⟨⟨.init size, 0⟩, fun _ => (.idle .none, .none)⟩

/-- One atomic operation of one thread. -/
abbrev sizeStep [DecidableEq T] : SizeState V T → T × SizeAct V → Option (SizeState V T) :=
  Threads.step sizeProg

/-- The queue without the calls of `Size`. -/
def SizeState.queue (s : SizeState V T) : State V T := ⟨s.mem.queue, fun t => (s.pc t).1⟩

section Steps

variable {m m' : Mem V} {l l' : Pc V} {a : Act V}

/-- A call places its element or takes one at most once, and no element is given back. Before the
transition `n` calls of `Enqueue` were started. -/
theorem counters_prog (n : ℕ) (h : prog m l a = some (m', l')) :
    m.enqueued <+: m'.enqueued ∧
    (m'.enqueued.length + (if l'.unplaced.isSome = true then 1 else 0) + n ≤
      m.enqueued.length + (if l.unplaced.isSome = true then 1 else 0) +
        (n + if a.isEnqueue = true then 1 else 0)) ∧
    (m'.dequeued.length + (n + if a.isEnqueue = true then 1 else 0) +
        (if l'.call = some .dequeue then 1 else 0) + m.calls ≤
      m.dequeued.length + n + (if l.call = some .dequeue then 1 else 0) + m'.calls) := by
  revert h
  fun_cases prog m l a <;> rintro ⟨⟩ <;>
    simp only [Pc.unplaced, Pc.call, Act.isEnqueue, length_append, length_singleton,
      isSome_some, isSome_none, some.injEq, reduceCtorEq,
      Bool.false_eq_true, if_true, if_false, prefix_rfl, prefix_append, true_and] <;>
    omega

/-- An operation of a thread is one of the queue, or one of a call of `Size` that changes nothing
else. -/
theorem sizeProg_cases {m m' : SizeMem V} {l l' : Pc V × SizeCall} {a : SizeAct V}
    (h : sizeProg m l a = some (m', l')) :
    (∃ b, prog m.queue l.1 b = some (m'.queue, l'.1) ∧
      m'.started = m.started + if b.isEnqueue = true then 1 else 0) ∨
    m' = m ∧ l'.1 = l.1 := by
  revert h
  fun_cases sizeProg m l a
  case case2 l c b hc =>
    simp only [map_eq_some_iff, Prod.exists, Prod.mk.injEq]
    rintro ⟨m₁, l₁, hp, rfl, rfl⟩
    exact .inl ⟨b, hp, rfl⟩
  all_goals
    simp only [some.injEq, Prod.mk.injEq, reduceCtorEq, IsEmpty.forall_iff]
    try rintro ⟨rfl, rfl⟩
  all_goals exact .inr ⟨rfl, rfl⟩

end Steps

variable {es : List (T × SizeAct V)}

section Loads

variable [DecidableEq T] {s s' : SizeState V T}

/-- The queue only gets older along a run. -/
theorem grows_of_exec (h : exec sizeStep s es = some s') :
    s.mem.queue.enqueued <+: s'.mem.queue.enqueued ∧
      s.mem.queue.calls ≤ s'.mem.queue.calls := by
  refine exec_invariant (fun z => s.mem.queue.enqueued <+: z.mem.queue.enqueued ∧
    s.mem.queue.calls ≤ z.mem.queue.calls) ?_ ⟨prefix_rfl, le_rfl⟩ h
  rintro z ⟨t, a⟩ z' ⟨hpre, hcalls⟩ hstep
  rcases sizeProg_cases (prog_of_step hstep) with ⟨b, hb, -⟩ | ⟨heq, -⟩
  · exact ⟨hpre.trans (counters_prog 0 hb).1, hcalls.trans (calls_le_prog hb)⟩
  · exact heq ▸ ⟨hpre, hcalls⟩

/-- The two loads of a call of `Size`, with steps of other threads in between. -/
theorem loads_step {t : T} {tailFirst : Bool} {s₁ s₂ : SizeState V T}
    (hfirst : (s₁.pc t).2 = .first tailFirst) (hothers : ∀ e ∈ es, e.1 ≠ t)
    (h : exec sizeStep s₁ ((t, .load) :: es) = some s₂) (hstep : sizeStep s₂ (t, .load) = some s) :
    s.mem = s₂.mem ∧ (s.pc t).2 = if tailFirst then
      .returned true s₁.mem.queue.tail s₂.mem.queue.head
      else .returned false s₂.mem.queue.tail s₁.mem.queue.head := by
  obtain ⟨z, hload, hz⟩ := exec_cons_eq_some.mp h
  have hpc : s₂.pc t = z.pc t := exec_pc_of_ne hothers hz
  have hp₁ := prog_of_step hload
  have hp₂ := prog_of_step hstep
  rw [hpc] at hp₂
  generalize z.pc t = l₂ at hp₁ hp₂
  generalize hl₁ : s₁.pc t = l₁ at hp₁ hfirst
  obtain ⟨l₁, c₁⟩ := l₁
  obtain rfl : c₁ = .first tailFirst := hfirst
  cases tailFirst <;>
  · simp only [sizeProg, some.injEq, Prod.mk.injEq] at hp₁
    obtain ⟨-, rfl⟩ := hp₁
    simp only [sizeProg, some.injEq, Prod.mk.injEq] at hp₂
    exact ⟨hp₂.1.symm, hp₂.2 ▸ rfl⟩

end Loads

section Reachable

variable [Inhabited V] [DecidableEq T] {size : ℕ}

theorem Reachable.counters_eq {s : State V T} (hsize : size < 2 ^ 64) (h : Reachable size s)
    (hcalls : s.mem.calls < 2 ^ 64) :
    s.mem.head = s.mem.dequeued.length ∧ s.mem.tail = s.mem.enqueued.length + 1 ∧
      s.mem.dequeued <+: s.mem.enqueued := by
  rcases h.inv_or_unused hsize hcalls with ⟨-, hinv⟩ | hunused
  · exact ⟨hinv.sound.dequeued_length.symm, hinv.sound.tail_eq,
      hinv.sound.dequeued_prefix.trans (List.take_prefix _ _)⟩
  · rw [hunused.head_eq, hunused.tail_eq, hunused.enqueued_eq, hunused.dequeued_eq]
    exact ⟨rfl, rfl, prefix_rfl⟩

/-- The states of a queue whose size is asked for. -/
structure SizeInv (size : ℕ) (s : SizeState V T) : Prop where
  reachable : Reachable size s.queue
  enqueued_le : ∃ k, InPhase (fun l : Pc V => l.unplaced.isSome = true) s.queue.pc k ∧
    s.mem.queue.enqueued.length + k ≤ s.mem.started
  dequeued_le : ∃ k, InPhase (fun l : Pc V => l.call = some .dequeue) s.queue.pc k ∧
    s.mem.queue.dequeued.length + s.mem.started + k ≤ s.mem.queue.calls

theorem sizeInv_init : SizeInv size (sizeInit V T size) where
  reachable := reachable_init
  enqueued_le := ⟨0, inPhase_zero_iff.mpr fun _ => Bool.false_ne_true, le_rfl⟩
  dequeued_le := ⟨0, inPhase_zero_iff.mpr fun _ => (some_ne_none _).symm, le_rfl⟩

variable {s s' : SizeState V T}

theorem SizeInv.step (h : SizeInv size s) {e : T × SizeAct V}
    (hstep : sizeStep s e = some s') : SizeInv size s' := by
  obtain ⟨t, a⟩ := e
  obtain ⟨m, l, hp, rfl⟩ := step_eq_some.mp hstep
  have hqueue : SizeState.queue ⟨m, update s.pc t l⟩ =
      ⟨m.queue, update s.queue.pc t l.1⟩ := by
    simp only [SizeState.queue, Threads.mk.injEq, true_and]
    exact funext fun u => apply_update (fun _ (x : Pc V × SizeCall) => x.1) ..
  rcases sizeProg_cases hp with ⟨b, hb, hstarted⟩ | ⟨rfl, hl⟩
  · obtain ⟨-, henq, hdeq⟩ := counters_prog s.mem.started hb
    refine ⟨reachable_step h.reachable (step_eq_some.mpr ⟨_, _, hb, hqueue⟩), ?_, ?_⟩
    · rw [hqueue, hstarted]
      exact InPhase.budget h.enqueued_le henq
    · rw [hqueue, hstarted]
      exact InPhase.budget h.dequeued_le hdeq
  · have hsame : SizeState.queue ⟨s.mem, update s.pc t l⟩ = s.queue := by
      rw [hqueue, hl]
      exact congrArg (Threads.mk s.mem.queue) (update_eq_self t s.queue.pc)
    exact ⟨hsame ▸ h.reachable, hsame ▸ h.enqueued_le, hsame ▸ h.dequeued_le⟩

theorem sizeInv_of_exec (h : exec sizeStep (sizeInit V T size) es = some s) : SizeInv size s :=
  exec_invariant (SizeInv size) (fun _ _ _ hs hstep => hs.step hstep) sizeInv_init h

/-- The size that a call returns is at most the number of calls of `Enqueue` exactly if no element
that was put in after the load of `tail_` was taken before the load of `head_`. -/
theorem sizeValue_le_iff (hsize : size < 2 ^ 64) {t : T} {tailFirst : Bool}
    {s₁ s₂ : SizeState V T} (hs₁ : SizeInv size s₁)
    (hfirst : (s₁.pc t).2 = .first tailFirst) (hothers : ∀ e ∈ es, e.1 ≠ t)
    (h : exec sizeStep s₁ ((t, .load) :: es) = some s₂) (hstep : sizeStep s₂ (t, .load) = some s)
    (hcalls : s.mem.queue.calls < 2 ^ 64) :
    ∃ tail head, (s.pc t).2 = .returned tailFirst tail head ∧
      (sizeValue tail head ≤ s.mem.started ↔
        (tailFirst = true → s₂.mem.queue.dequeued <+: s₁.mem.queue.enqueued)) := by
  obtain ⟨hmem, hpc⟩ := loads_step hfirst hothers h hstep
  rw [hmem] at hcalls ⊢
  have hs₂ : SizeInv size s₂ := exec_invariant _ (fun _ _ _ hs hstep => hs.step hstep) hs₁ h
  obtain ⟨hpre, hle⟩ := grows_of_exec h
  obtain ⟨hhead₁, htail₁, hdeq₁⟩ := hs₁.reachable.counters_eq hsize (hle.trans_lt hcalls)
  obtain ⟨hhead₂, htail₂, hdeq₂⟩ := hs₂.reachable.counters_eq hsize hcalls
  obtain ⟨_, -, henq⟩ := hs₂.enqueued_le
  obtain ⟨_, -, hdeq⟩ := hs₂.dequeued_le
  simp only [SizeState.queue] at hhead₁ htail₁ hdeq₁ hhead₂ htail₂ hdeq₂
  have hlen₁ := hdeq₁.length_le
  have hlen₂ := hdeq₂.length_le
  have hlen := hpre.length_le
  cases tailFirst with
  | true =>
    refine ⟨_, _, hpc, ?_⟩
    -- both lists are prefixes of the elements put in so far, so their lengths decide
    have hiff : s₂.mem.queue.dequeued <+: s₁.mem.queue.enqueued ↔
        s₂.mem.queue.dequeued.length ≤ s₁.mem.queue.enqueued.length :=
      ⟨fun hp => hp.length_le, prefix_of_prefix_length_le hdeq₂ hpre⟩
    simp only [hiff, forall_const]
    unfold sizeValue wordSub
    split <;> split <;> omega
  | false =>
    refine ⟨_, _, hpc, iff_of_true ?_ nofun⟩
    unfold sizeValue wordSub
    split <;> split <;> omega

end Reachable

end Cyber.BoundedQueue

/-! ### Both queues -/

namespace Cyber

/-- **The sizes of the queues.** A call of `UnboundedQueue::Size` returns at most the number of
calls of `Enqueue` started so far (fewer than `2 ^ 63`) exactly if, when it loads `size_`, the calls
of `Enqueue` between their exchange of `tail_` and their `fetch_add` are at most as many as the
elements in the queue and the calls of `Dequeue` between their exchange of `head_` and their
`fetch_sub`. A call of `BoundedQueue::Size` does so, in a run with fewer than `2 ^ 64` calls,
exactly if it loads `head_` first, or no element put in after its load of `tail_` has been taken
before its load of `head_`. -/
theorem queueSize_le_started_iff {V T : Type*} [Inhabited V] [DecidableEq T] :
    (∀ (es : List (T × UnboundedQueue.Act V)) (t : T) (s : UnboundedQueue.State V T) (n : ℕ),
      exec UnboundedQueue.step (UnboundedQueue.init V T) (es ++ [(t, UnboundedQueue.Act.size)]) =
        some s →
      s.pc t = .idle (.size n) → s.mem.started < 2 ^ 63 →
      ∃ u d, InPhase (fun l : UnboundedQueue.Pc V => l.uncounted = true) s.pc u ∧
        InPhase (fun l : UnboundedQueue.Pc V => l.taking = true) s.pc d ∧
        (n ≤ s.mem.started ↔ u ≤ s.mem.enqueued.length - s.mem.dequeued.length + d)) ∧
    ∀ size < 2 ^ 64, ∀ (es₁ es₂ : List (T × BoundedQueue.SizeAct V))
      (s₁ s₂ s : BoundedQueue.SizeState V T) (t : T) (tailFirst : Bool),
      exec BoundedQueue.sizeStep (BoundedQueue.sizeInit V T size) es₁ = some s₁ →
      (s₁.pc t).2 = .first tailFirst → (∀ e ∈ es₂, e.1 ≠ t) →
      exec BoundedQueue.sizeStep s₁ ((t, .load) :: es₂) = some s₂ →
      BoundedQueue.sizeStep s₂ (t, .load) = some s → s.mem.queue.calls < 2 ^ 64 →
      ∃ tail head, (s.pc t).2 = .returned tailFirst tail head ∧
        (BoundedQueue.sizeValue tail head ≤ s.mem.started ↔
          (tailFirst = true → s₂.mem.queue.dequeued <+: s₁.mem.queue.enqueued)) := by
  constructor
  · intro es t s n h hn hstarted
    obtain ⟨s₁, h₁, hstep⟩ := exec_concat_eq_some.mp h
    obtain ⟨hmem, rfl⟩ := UnboundedQueue.size_step hstep hn
    have hle := (UnboundedQueue.inv_of_exec h₁).sound.taken_le
    rw [← hmem] at hle ⊢
    exact (UnboundedQueue.counted_of_exec h).size_le_iff hle hstarted
  · intro size hsize es₁ es₂ s₁ s₂ s t tailFirst h₁ hfirst hothers h₂ hstep hcalls
    exact BoundedQueue.sizeValue_le_iff hsize (BoundedQueue.sizeInv_of_exec h₁) hfirst hothers h₂
      hstep hcalls

/-- One thread is about to count its element, and another has taken one that it has not yet
subtracted; in the bounded queue an element that was there at the load of `tail_` is taken, and a
new one comes, before the load of `head_`. -/
theorem queueSize_le_started_in_windows :
    (∃ s : UnboundedQueue.State ℕ (Fin 4), s.pc 3 = .idle (.size 1) ∧ s.mem.started = 2 ∧
      1 ≤ s.mem.started) ∧
    ∃ s : BoundedQueue.SizeState ℕ ℕ, (s.pc 0).2 = .returned true 2 1 ∧ s.mem.started = 2 ∧
      BoundedQueue.sizeValue 2 1 ≤ s.mem.started := by
  constructor
  · let es : List (Fin 4 × UnboundedQueue.Act ℕ) :=
      (0, .enqueue 7) :: List.replicate 6 (0, .step) ++ (1, .enqueue 8) ::
        List.replicate 3 (1, .step) ++ (2, .dequeue) :: List.replicate 3 (2, .step)
    obtain ⟨s, hs, hsize, hstarted, hlen, hwindow, hone⟩ :
        ∃ s, exec UnboundedQueue.step (UnboundedQueue.init ℕ (Fin 4)) (es ++ [(3, .size)]) =
          some s ∧ s.pc 3 = .idle (.size 1) ∧ s.mem.started = 2 ∧
          s.mem.enqueued.length - s.mem.dequeued.length = 1 ∧ (s.pc 1).uncounted = true ∧
          ∀ t, (s.pc t).uncounted = true → t = 1 := by decide +kernel
    obtain ⟨u, d, hu, -, hiff⟩ := queueSize_le_started_iff.1 es 3 s 1 hs hsize (by omega)
    have hu' : u = 1 := (hu.eq_one_iff hwindow).mpr hone
    exact ⟨s, hsize, hstarted, hiff.mpr (by omega)⟩
  · let enqueue (t v : ℕ) : List (ℕ × BoundedQueue.SizeAct ℕ) :=
      (t, .queue (.enqueue v)) :: List.replicate 5 (t, .queue (.step false))
    obtain ⟨s₁, h₁, hfirst, s₂, h₂, hpre, s, hstep, hpc, hcalls, hstarted⟩ :
        ∃ s₁, exec BoundedQueue.sizeStep (BoundedQueue.sizeInit ℕ ℕ 2)
          (enqueue 1 7 ++ [(0, .size true)]) = some s₁ ∧ (s₁.pc 0).2 = .first true ∧
        ∃ s₂, exec BoundedQueue.sizeStep s₁ ((0, .load) :: (enqueue 2 8 ++
          (1, .queue .dequeue) :: List.replicate 4 (1, .queue (.step false)))) = some s₂ ∧
          s₂.mem.queue.dequeued <+: s₁.mem.queue.enqueued ∧
        ∃ s ∈ BoundedQueue.sizeStep s₂ (0, .load), (s.pc 0).2 = .returned true 2 1 ∧
          s.mem.queue.calls < 2 ^ 64 ∧ s.mem.started = 2 := by decide +kernel
    obtain ⟨tail, head, hpc', hiff⟩ := queueSize_le_started_iff.2 2 (by decide) _ _ s₁ s₂ s 0 true
      h₁ hfirst (by decide) h₂ hstep hcalls
    cases hpc'.symm.trans hpc
    exact ⟨s, hpc, hstarted, hiff.mpr fun _ => hpre⟩

/-- Thread `0` enqueues an element until its node is linked; thread `1` takes it and decrements
`size_`; then thread `2` asks for the size. -/
def sizeDuringEnqueue : List (ℕ × UnboundedQueue.Act ℕ) :=
  (0, .enqueue 7) :: (List.replicate 3 (0, .step) ++ (1, .dequeue) ::
    (List.replicate 5 (1, .step) ++ [(2, .size)]))

/-- Thread `0` asks for the size and makes its first load; an element passes through the queue; then
thread `0` makes its second load. -/
def sizeAroundElement : List (ℕ × BoundedQueue.SizeAct ℕ) :=
  let steps (t n : ℕ) : List (ℕ × BoundedQueue.SizeAct ℕ) :=
    List.replicate n (t, .queue (.step false))
  (0, .size true) :: (0, .load) :: (1, .queue (.enqueue 7)) :: (steps 1 5 ++
    (2, .queue .dequeue) :: (steps 2 4 ++ [(0, .load)]))

/-- **Sizes that wrap around.** After one call of `Enqueue`, both queues can report
`2 ^ 64 - 1` elements. -/
theorem queueSize_wraps :
    (∃ s, exec UnboundedQueue.step (UnboundedQueue.init ℕ ℕ) sizeDuringEnqueue =
        some s ∧
      s.mem.started = 1 ∧ s.pc 2 = .idle (.size (2 ^ 64 - 1))) ∧
    ∃ s, exec BoundedQueue.sizeStep (BoundedQueue.sizeInit ℕ ℕ 2) sizeAroundElement =
        some s ∧
      s.mem.started = 1 ∧ s.pc 0 = (.idle .none, .returned true 1 1) ∧
      BoundedQueue.sizeValue 1 1 = 2 ^ 64 - 1 := by decide +kernel

end Cyber
