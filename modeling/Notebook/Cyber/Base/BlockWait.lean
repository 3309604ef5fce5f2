import Notebook.Cyber.Base.BoundedQueueUse
import Notebook.Interleaving.Wakeup

/-!
# Waiting for an element of the bounded queue

A `BoundedQueue` with a `BlockWaitStrategy` (`base/wait_strategy.h`), as the `ThreadPool`
(`base/thread_pool.h`) uses it. `WaitDequeue` reads `break_all_wait_`, tries `Dequeue` and, when
this finds no element, blocks in `EmptyWait` on a condition variable. `Enqueue` notifies one of the
blocked threads after it has published its element; `BreakAllWait` sets `break_all_wait_` and then
notifies all. A notification releases threads that are blocked at this moment and no others.

Neither the tests of the consumer nor the notifications are made under the mutex of the condition
variable. A consumer that has made its test and does not yet block is not reached by a notification.

## Main definitions

* `step` — the operations of `WaitDequeue`, `Enqueue` and `BreakAllWait`, over `BoundedQueue`.
* `Attended` — a notification finds a consumer that is blocked or will look again.
* `Stranded` — all consumers are blocked although there is work, and no notification is to come.

## Main results

* `Linked.move`, `Alert.move` — what attended steps keep.
* `no_lost_wakeup` — no run with attended notifications is stranded.
-/

open Interleaving Function Option Threads

namespace Cyber.BlockWait

open BoundedQueue (Call Reachable)

/-- Where a thread is: outside of all calls, in `Enqueue` before its notification, before a
notification, or in `WaitDequeue` before the load of `break_all_wait_`, in `Dequeue`, before the
wait of `EmptyWait`, or blocked. -/
inductive Pc
  | outside
  | enqueue
  | notifyOne
  | notifyAll
  | loadBreak
  | dequeue
  | emptyWait
  | blocked
deriving DecidableEq, Repr

/-- The call of the queue that a thread is in. -/
def Pc.call : Pc → Option Call
  | .enqueue => some .enqueue
  | .dequeue => some .dequeue
  | _ => none

/-- Where a thread is after an operation of its call of the queue. `WaitDequeue` goes on to
`EmptyWait` when `Dequeue` has returned `false`. -/
def Pc.next {V : Type*} : Pc → BoundedQueue.Pc V → Pc
  | .enqueue, .idle .accepted => .notifyOne
  | .dequeue, .idle .empty => .emptyWait
  | _, .idle _ => .outside
  | pc, _ => pc

/-- The queue, `break_all_wait_` and the threads. -/
structure State (V T : Type*) where
  queue : BoundedQueue.State V T
  breakAllWait : Bool
  pc : T → Pc

/-- What a thread does next: call a function, or make the next operation of its call. `notifyOne`
names the thread that is released, if any, and `wake` is a wait that ends without a notification. -/
inductive Act (V T : Type*)
  | enqueue (element : V)
  | waitDequeue
  | breakAllWait
  | step (spurious : Bool)
  | notifyOne (released : Option T)
  | notifyAll
  | loadBreak
  | wait
  | wake
deriving DecidableEq, Repr

variable {V T : Type*} [DecidableEq T]

/-- The thread `t` goes to `pc`. -/
def State.move (s : State V T) (t : T) (pc : Pc) : State V T :=
  { s with pc := update s.pc t pc }

/-- The effect of `notify_all` on the blocked threads. -/
def State.releaseAll (s : State V T) : State V T :=
  { s with pc := fun u => if s.pc u = .blocked then .loadBreak else s.pc u }

/-- One atomic operation of one thread. -/
def step [Fintype T] (consumers : Finset T) (s : State V T) (e : T × Act V T) :
    Option (State V T) :=
  match s.pc e.1, e.2 with
  | .outside, .enqueue v =>
    (BoundedQueue.step s.queue (e.1, .enqueue v)).map fun queue =>
      { s with queue }.move e.1 .enqueue
  | .outside, .waitDequeue => if e.1 ∈ consumers then some (s.move e.1 .loadBreak) else none
  | .outside, .breakAllWait => some ({ s with breakAllWait := true }.move e.1 .notifyAll)
  | pc, .step spurious =>
    if pc.call = none then none
    else
      (BoundedQueue.step s.queue (e.1, .step spurious)).map fun queue =>
        { s with queue }.move e.1 (pc.next (queue.pc e.1))
  | .notifyOne, .notifyOne none =>
    if ∀ u, s.pc u ≠ .blocked then some (s.move e.1 .outside) else none
  | .notifyOne, .notifyOne (some u) =>
    if s.pc u = .blocked then some ((s.move u .loadBreak).move e.1 .outside) else none
  | .notifyAll, .notifyAll => some (s.releaseAll.move e.1 .outside)
  | .loadBreak, .loadBreak =>
    if s.breakAllWait then some (s.move e.1 .outside)
    else
      (BoundedQueue.step s.queue (e.1, .dequeue)).map fun queue =>
        { s with queue }.move e.1 .dequeue
  | .emptyWait, .wait => some (s.move e.1 .blocked)
  | .blocked, .wake => some (s.move e.1 .loadBreak)
  | _, _ => none

/-- A queue after `Init`, with every thread outside. -/
def init (V T : Type*) [Inhabited V] (size : ℕ) : State V T :=
  ⟨BoundedQueue.init V T size, false, fun _ => .outside⟩

/-- There is a published element, or `break_all_wait_` is set; all consumers are blocked, and no
notification is to come. -/
def Stranded (consumers : Finset T) (s : State V T) : Prop :=
  (s.queue.mem.HasElement ∨ s.breakAllWait = true) ∧ (∀ c ∈ consumers, s.pc c = .blocked) ∧
    ∀ t, s.pc t ≠ .notifyOne ∧ s.pc t ≠ .notifyAll

instance [Fintype T] (consumers : Finset T) (s : State V T) :
    Decidable (Stranded consumers s) := inferInstanceAs (Decidable (_ ∧ _))

/-- The thread is not on its way into the wait, and not blocked. -/
def Pc.Awake : Pc → Prop
  | .emptyWait | .blocked => False
  | _ => True

/-- The thread does not block before it has read `break_all_wait_`. -/
def Pc.Heedful : Pc → Prop
  | .dequeue | .emptyWait | .blocked => False
  | _ => True

/-- A notification finds a consumer that is blocked or will look again: for the notification of an
element, one that is not between an unsuccessful `Dequeue` and the wait; for that of
`break_all_wait_`, one that is not between its load of `break_all_wait_` and the wait. -/
def Attended (consumers : Finset T) (s : State V T) (e : T × Act V T) : Prop :=
  (s.pc e.1 = .notifyOne → s.queue.mem.HasElement → ∃ c ∈ consumers, s.pc c ≠ .emptyWait) ∧
    (s.pc e.1 = .notifyAll → ∃ c ∈ consumers, s.pc c ≠ .dequeue ∧ s.pc c ≠ .emptyWait)
deriving Decidable

/-! ### What a step can do -/

section Moves

/-- The effects of the steps of the thread `t`. -/
inductive Move (consumers : Finset T) (s : State V T) (t : T) : State V T → Prop
  | enqueue (v : V) (queue) (hpc : s.pc t = .outside)
      (hqueue : BoundedQueue.step s.queue (t, .enqueue v) = some queue) :
      Move consumers s t ({ s with queue }.move t .enqueue)
  | waitDequeue (hpc : s.pc t = .outside) (ht : t ∈ consumers) :
      Move consumers s t (s.move t .loadBreak)
  | breakAllWait (hpc : s.pc t = .outside) :
      Move consumers s t ({ s with breakAllWait := true }.move t .notifyAll)
  | queue (spurious : Bool) (queue) (hpc : (s.pc t).call ≠ none)
      (hqueue : BoundedQueue.step s.queue (t, .step spurious) = some queue) :
      Move consumers s t ({ s with queue }.move t ((s.pc t).next (queue.pc t)))
  | notifyNone (hpc : s.pc t = .notifyOne) (hnone : ∀ u, s.pc u ≠ .blocked) :
      Move consumers s t (s.move t .outside)
  | notifyOne (u : T) (hpc : s.pc t = .notifyOne) (hu : s.pc u = .blocked) :
      Move consumers s t ((s.move u .loadBreak).move t .outside)
  | notifyAll (hpc : s.pc t = .notifyAll) : Move consumers s t (s.releaseAll.move t .outside)
  | leave (hpc : s.pc t = .loadBreak) (hbreak : s.breakAllWait = true) :
      Move consumers s t (s.move t .outside)
  | dequeue (queue) (hpc : s.pc t = .loadBreak) (hbreak : s.breakAllWait = false)
      (hqueue : BoundedQueue.step s.queue (t, .dequeue) = some queue) :
      Move consumers s t ({ s with queue }.move t .dequeue)
  | wait (hpc : s.pc t = .emptyWait) : Move consumers s t (s.move t .blocked)
  | wake (hpc : s.pc t = .blocked) : Move consumers s t (s.move t .loadBreak)

theorem move_of_step [Fintype T] {consumers : Finset T} {s s' : State V T} {t : T} {a : Act V T}
    (h : step consumers s (t, a) = some s') : Move consumers s t s' := by
  revert h
  simp only [step]
  split
  next v hpc =>
    rw [map_eq_some_iff]
    rintro ⟨queue, hqueue, rfl⟩
    exact .enqueue v queue hpc hqueue
  next hpc =>
    split_ifs with ht
    · rintro ⟨⟩
      exact .waitDequeue hpc ht
    · exact False.elim
  next hpc =>
    rintro ⟨⟩
    exact .breakAllWait hpc
  next spurious =>
    split_ifs with hcall
    · exact False.elim
    · rw [map_eq_some_iff]
      rintro ⟨queue, hqueue, rfl⟩
      exact .queue spurious queue hcall hqueue
  next hpc =>
    split_ifs with hnone
    · rintro ⟨⟩
      exact .notifyNone hpc hnone
    · exact False.elim
  next u hpc =>
    split_ifs with hu
    · rintro ⟨⟩
      exact .notifyOne u hpc hu
    · exact False.elim
  next hpc =>
    rintro ⟨⟩
    exact .notifyAll hpc
  next hpc =>
    split_ifs with hbreak
    · rintro ⟨⟩
      exact .leave hpc hbreak
    · rw [map_eq_some_iff]
      rintro ⟨queue, hqueue, rfl⟩
      exact .dequeue queue hpc (Bool.eq_false_iff.mpr hbreak) hqueue
  next hpc =>
    rintro ⟨⟩
    exact .wait hpc
  next hpc =>
    rintro ⟨⟩
    exact .wake hpc
  next => exact fun h => absurd h (some_ne_none _).symm

/-- The thread is in `WaitDequeue`. -/
def Pc.Waiting : Pc → Prop
  | .loadBreak | .dequeue | .emptyWait | .blocked => True
  | _ => False

variable {consumers : Finset T} {s s' : State V T} {t : T}

section

variable (h : Move consumers s t s')

include h

theorem Move.pc_of_ne {u : T} (hu : u ≠ t) :
    s'.pc u = s.pc u ∨ s.pc u = .blocked ∧ s'.pc u = .loadBreak := by
  cases h with
  | notifyOne v hpc hv =>
    by_cases huv : u = v
    · subst huv
      exact .inr ⟨hv, by simp [State.move, hu]⟩
    · exact .inl (by simp [State.move, hu, huv])
  | notifyAll hpc =>
    by_cases hblocked : s.pc u = .blocked
    · exact .inr ⟨hblocked, by simp [State.move, State.releaseAll, hu, hblocked]⟩
    · exact .inl (by simp [State.move, State.releaseAll, hu, hblocked])
  | _ => exact .inl (by simp [State.move, hu])

/-- What is true of another thread stays true, if it is true of a thread that is released. -/
theorem Move.of_ne {Q : Pc → Prop} (hQ : Q .loadBreak) {u : T}
    (hu : u ≠ t) (hs : Q (s.pc u)) : Q (s'.pc u) := by
  rcases h.pc_of_ne hu with heq | ⟨-, hload⟩
  · rwa [heq]
  · rwa [hload]

theorem Move.pc_eq_of_ne {pc : Pc} (hpc : pc ≠ .blocked) {u : T}
    (hu : u ≠ t) (hs : s.pc u = pc) : s'.pc u = pc := by
  rcases h.pc_of_ne hu with heq | ⟨hblocked, -⟩
  · exact heq.trans hs
  · exact absurd (hs.symm.trans hblocked) hpc

theorem Move.queue_step :
    s'.queue = s.queue ∨ ∃ a, BoundedQueue.step s.queue (t, a) = some s'.queue := by
  cases h with
  | enqueue v queue hpc hqueue => exact .inr ⟨_, hqueue⟩
  | queue spurious queue hpc hqueue => exact .inr ⟨_, hqueue⟩
  | dequeue queue hpc hbreak hqueue => exact .inr ⟨_, hqueue⟩
  | _ => exact .inl rfl

end

theorem next_cases {queue : BoundedQueue.State V T} {spurious : Bool}
    (hcall : (s.queue.pc t).call = (s.pc t).call) (hpc : (s.pc t).call ≠ none)
    (hqueue : BoundedQueue.step s.queue (t, .step spurious) = some queue) :
    (s.pc t).next (queue.pc t) = s.pc t ∧ (queue.pc t).call = (s.pc t).call ∨
      s.pc t = .enqueue ∧ (s.pc t).next (queue.pc t) = .notifyOne ∧
        queue.pc t = .idle .accepted ∨
      s.pc t = .dequeue ∧ (s.pc t).next (queue.pc t) = .emptyWait ∧ queue.pc t = .idle .empty ∨
      (s.pc t).next (queue.pc t) = .outside ∧ (queue.pc t).call = none ∧
        queue.pc t ≠ .idle .accepted := by
  have hp := prog_of_step hqueue
  cases htpc : s.pc t with
  | enqueue =>
    rw [htpc] at hcall
    rcases BoundedQueue.enqueue_prog hcall hp with hl | hl | hl
    · exact .inl ⟨by cases hq : queue.pc t <;> simp_all [Pc.next, BoundedQueue.Pc.call], hl⟩
    · rw [hl]
      exact .inr (.inr (.inr ⟨rfl, rfl, by simp⟩))
    · rw [hl]
      exact .inr (.inl ⟨rfl, rfl, rfl⟩)
  | dequeue =>
    rw [htpc] at hcall
    rcases (BoundedQueue.dequeue_prog hcall hp).1 with hl | ⟨v, hl⟩ | hl
    · exact .inl ⟨by cases hq : queue.pc t <;> simp_all [Pc.next, BoundedQueue.Pc.call], hl⟩
    · rw [hl]
      exact .inr (.inr (.inr ⟨rfl, rfl, by simp⟩))
    · rw [hl]
      exact .inr (.inr (.inl ⟨rfl, rfl, rfl⟩))
  | _ => exact absurd (by rw [htpc]; rfl) hpc

section

variable (h : Move consumers s t s')

include h

theorem Move.call_self (hcall : (s.queue.pc t).call = (s.pc t).call) :
    (s'.queue.pc t).call = (s'.pc t).call := by
  cases h with
  | enqueue v queue hpc hqueue =>
    simpa [State.move, Pc.call] using BoundedQueue.call_enqueue_step hqueue
  | dequeue queue hpc hbreak hqueue =>
    simpa [State.move, Pc.call] using BoundedQueue.call_dequeue_step hqueue
  | queue spurious queue hpc hqueue =>
    simp only [State.move, update_self]
    rcases next_cases hcall hpc hqueue with
      ⟨hnext, hq⟩ | ⟨-, hnext, hq⟩ | ⟨-, hnext, hq⟩ | ⟨hnext, hq, -⟩
    · rw [hnext, hq]
    · rw [hnext, hq]
      rfl
    · rw [hnext, hq]
      rfl
    · rw [hnext, hq]
      rfl
  | _ =>
    rw [‹s.pc t = _›] at hcall
    simpa [State.move, State.releaseAll, Pc.call] using hcall

theorem Move.consumer_self (hcall : (s.queue.pc t).call = (s.pc t).call) (hs' : (s'.pc t).Waiting) :
    (s.pc t).Waiting ∨ t ∈ consumers := by
  cases h with
  | waitDequeue hpc ht => exact .inr ht
  | queue spurious queue hpc hqueue =>
    simp only [State.move, update_self] at hs'
    rcases next_cases hcall hpc hqueue with
      ⟨hnext, -⟩ | ⟨-, hnext, -⟩ | ⟨hpc, -, -⟩ | ⟨hnext, -, -⟩
    · exact .inl (hnext ▸ hs')
    · rw [hnext] at hs'
      exact hs'.elim
    · exact .inl (by rw [hpc]; trivial)
    · rw [hnext] at hs'
      exact hs'.elim
  | dequeue | wait | wake => exact .inl (by rw [‹s.pc t = _›]; trivial)
  | _ =>
    simp only [State.move, update_self] at hs'
    exact hs'.elim

/-- A notification of `break_all_wait_` that is attended leaves a consumer that will read it. -/
theorem Move.exists_heedful (hpc : s.pc t = .notifyAll)
    (hc : ∃ c ∈ consumers, s.pc c ≠ .dequeue ∧ s.pc c ≠ .emptyWait) :
    ∃ c ∈ consumers, (s'.pc c).Heedful := by
  obtain ⟨c, hc, hdequeue, hempty⟩ := hc
  cases h with
  | notifyAll _ =>
    refine ⟨c, hc, ?_⟩
    by_cases hct : c = t
    · subst hct
      simp only [State.move, update_self]
      trivial
    · simp only [State.move, State.releaseAll, update_of_ne hct]
      cases hpc : s.pc c <;> trivial
  | queue spurious queue hcall => exact absurd (by rw [hpc]; rfl) hcall
  | _ => simp_all

theorem Move.breakAllWait_of_move (hs' : s'.breakAllWait = true) :
    s.breakAllWait = true ∨ s'.pc t = .notifyAll := by
  cases h with
  | breakAllWait hpc => exact .inr (by simp [State.move])
  | _ => exact .inl hs'

theorem Move.calls_le : s.queue.mem.calls ≤ s'.queue.mem.calls := by
  rcases h.queue_step with heq | ⟨a, ha⟩
  · rw [heq]
  · exact BoundedQueue.calls_le_step ha

end

/-! ### The threads and the queue agree -/

/-- The threads are in the calls of the queue that their places say, and only consumers wait. -/
structure Linked [Inhabited V] (size : ℕ) (consumers : Finset T) (s : State V T) : Prop where
  reachable : Reachable size s.queue
  call : ∀ t, (s.queue.pc t).call = (s.pc t).call
  consumer : ∀ t, (s.pc t).Waiting → t ∈ consumers

variable [Inhabited V] {size : ℕ}

theorem linked_init : Linked size consumers (init V T size) where
  reachable := BoundedQueue.reachable_init
  call _ := rfl
  consumer _ h := h.elim

theorem Linked.move (hinv : Linked size consumers s) (h : Move consumers s t s') :
    Linked size consumers s' := by
  refine ⟨?_, fun u => ?_, fun u hu => ?_⟩
  · rcases h.queue_step with heq | ⟨a, ha⟩
    · rw [heq]
      exact hinv.reachable
    · exact BoundedQueue.reachable_step hinv.reachable ha
  · by_cases hu : u = t
    · subst hu
      exact h.call_self (hinv.call u)
    · have hqueue : s'.queue.pc u = s.queue.pc u := by
        rcases h.queue_step with heq | ⟨a, ha⟩
        · rw [heq]
        · exact pc_of_ne ha hu
      rw [hqueue, hinv.call u]
      rcases h.pc_of_ne hu with heq | ⟨hblocked, hload⟩
      · rw [heq]
      · rw [hblocked, hload]
        rfl
  · by_cases hut : u = t
    · subst hut
      exact (h.consumer_self (hinv.call u) hu).elim (hinv.consumer u) id
    · rcases h.pc_of_ne hut with heq | ⟨hblocked, -⟩
      · exact hinv.consumer u (heq ▸ hu)
      · exact hinv.consumer u (by rw [hblocked]; trivial)

/-! ### No work is stranded -/

/-- Where there is an element or a request to stop, some consumer will look again, or a notification
is to come. -/
structure Alert (consumers : Finset T) (s : State V T) : Prop where
  element : s.queue.mem.HasElement →
    (∃ c ∈ consumers, (s.pc c).Awake) ∨ ∃ t, s.pc t = .notifyOne
  stop : s.breakAllWait = true → (∃ c ∈ consumers, (s.pc c).Heedful) ∨ ∃ t, s.pc t = .notifyAll

omit [DecidableEq T] [Inhabited V] in
theorem Alert.not_stranded (h : Alert consumers s) : ¬Stranded consumers s := by
  rintro ⟨hwork, hblocked, hnone⟩
  rcases hwork with helement | hbreak
  · rcases h.element helement with ⟨c, hc, hawake⟩ | ⟨t, ht⟩
    · rw [hblocked c hc] at hawake
      exact hawake
    · exact (hnone t).1 ht
  · rcases h.stop hbreak with ⟨c, hc, hheedful⟩ | ⟨t, ht⟩
    · rw [hblocked c hc] at hheedful
      exact hheedful
    · exact (hnone t).2 ht

section

variable (hinv : Linked size consumers s)

include hinv

/-- An element that was not there before has just been published, and its notification is to come.
-/
theorem Linked.hasElement_of_move (hsize : size < 2 ^ 64)
    (hcalls : s.queue.mem.calls < 2 ^ 64) (h : Move consumers s t s')
    (hs' : s'.queue.mem.HasElement) : s.queue.mem.HasElement ∨ s'.pc t = .notifyOne := by
  cases h with
  | enqueue v queue hpc hqueue =>
    refine .inl (hinv.reachable.hasElement_of_step hsize hcalls hqueue (fun hacc => ?_) hs')
    simpa [hacc, BoundedQueue.Pc.call] using BoundedQueue.call_enqueue_step hqueue
  | dequeue queue hpc hbreak hqueue =>
    refine .inl (hinv.reachable.hasElement_of_step hsize hcalls hqueue (fun hacc => ?_) hs')
    simpa [hacc, BoundedQueue.Pc.call] using BoundedQueue.call_dequeue_step hqueue
  | queue spurious queue hpc hqueue =>
    by_cases hacc : queue.pc t = .idle .accepted
    · right
      simp only [State.move, update_self]
      rcases next_cases (hinv.call t) hpc hqueue with
        ⟨-, hq⟩ | ⟨-, hnext, -⟩ | ⟨-, -, hq⟩ | ⟨-, -, hq⟩
      · rw [hacc] at hq
        exact absurd hq.symm hpc
      · exact hnext
      · simp [hacc] at hq
      · exact absurd hacc hq
    · exact .inl (hinv.reachable.hasElement_of_step hsize hcalls hqueue hacc hs')
  | _ => exact .inl hs'

theorem Linked.awake_of_move (hsize : size < 2 ^ 64)
    (hcalls : s.queue.mem.calls < 2 ^ 64) (h : Move consumers s t s')
    (hs' : s'.queue.mem.HasElement) (hawake : (s.pc t).Awake) : (s'.pc t).Awake := by
  cases h with
  | queue spurious queue hpc hqueue =>
    simp only [State.move, update_self]
    rcases next_cases (hinv.call t) hpc hqueue with
      ⟨hnext, -⟩ | ⟨-, hnext, -⟩ | ⟨-, -, hq⟩ | ⟨hnext, -, -⟩
    · rwa [hnext]
    · rw [hnext]
      trivial
    · exact absurd hs' (hinv.reachable.not_hasElement_of_empty hsize hcalls hqueue hq)
    · rw [hnext]
      trivial
  | wait hpc =>
    rw [hpc] at hawake
    exact hawake.elim
  | _ =>
    simp only [State.move, update_self]
    trivial

/-- A thread that has not read `break_all_wait_` reads it before it blocks. -/
theorem Linked.heedful_of_move (h : Move consumers s t s')
    (hbreak : s.breakAllWait = true) (hheedful : (s.pc t).Heedful) : (s'.pc t).Heedful := by
  cases h with
  | queue spurious queue hpc hqueue =>
    simp only [State.move, update_self]
    rcases next_cases (hinv.call t) hpc hqueue with
      ⟨hnext, -⟩ | ⟨-, hnext, -⟩ | ⟨hpc, -, -⟩ | ⟨hnext, -, -⟩
    · rwa [hnext]
    · rw [hnext]
      trivial
    · rw [hpc] at hheedful
      exact hheedful.elim
    · rw [hnext]
      trivial
  | wait hpc =>
    rw [hpc] at hheedful
    exact hheedful.elim
  | dequeue queue hpc hfalse hqueue => simp [hbreak] at hfalse
  | _ =>
    simp only [State.move, update_self]
    trivial

/-- A notification of an element that is attended leaves a consumer that will look again. -/
theorem Linked.exists_awake (h : Move consumers s t s')
    (hpc : s.pc t = .notifyOne) (hc : ∃ c ∈ consumers, s.pc c ≠ .emptyWait) :
    ∃ c ∈ consumers, (s'.pc c).Awake := by
  obtain ⟨c, hc, hne⟩ := hc
  cases h with
  | notifyNone _ hnone =>
    refine ⟨c, hc, ?_⟩
    by_cases hct : c = t
    · subst hct
      simp only [State.move, update_self]
      trivial
    · have hblocked := hnone c
      simp only [State.move, update_of_ne hct]
      cases hpc : s.pc c <;> trivial
  | notifyOne u _ hu =>
    refine ⟨u, hinv.consumer u (by rw [hu]; trivial), ?_⟩
    have hut : u ≠ t := by
      rintro rfl
      simp [hpc] at hu
    simp only [State.move, update_of_ne hut, update_self]
    trivial
  | queue spurious queue hcall => exact absurd (by rw [hpc]; rfl) hcall
  | _ => simp_all

end

/-- An attended step leaves no work without a consumer that will look or a notification. -/
theorem Alert.move (halert : Alert consumers s) (hinv : Linked size consumers s)
    (hsize : size < 2 ^ 64) (hcalls : s.queue.mem.calls < 2 ^ 64) {a : Act V T}
    (h : Move consumers s t s') (hattended : Attended consumers s (t, a)) :
    Alert consumers s' := by
  constructor
  · refine exists_looks_or_owes halert.element (fun helement => ?_) (fun _ helement c hc => ?_)
      fun hbefore u hu => ?_
    · exact (hinv.hasElement_of_move hsize hcalls h helement).imp_right fun hnotify => ⟨t, hnotify⟩
    · refine ⟨hc.1, ?_⟩
      by_cases hct : c = t
      · subst hct
        exact hinv.awake_of_move hsize hcalls h helement hc.2
      · exact h.of_ne trivial hct hc.2
    · by_cases hut : u = t
      · subst hut
        exact .inr (hinv.exists_awake h hu (hattended.1 hu hbefore))
      · exact .inl (h.pc_eq_of_ne (by simp) hut hu)
  · refine exists_looks_or_owes halert.stop (fun hbreak => ?_) (fun hbefore _ c hc => ?_)
      fun _ u hu => ?_
    · exact (h.breakAllWait_of_move hbreak).imp_right fun hnotify => ⟨t, hnotify⟩
    · refine ⟨hc.1, ?_⟩
      by_cases hct : c = t
      · subst hct
        exact hinv.heedful_of_move h hbefore hc.2
      · exact h.of_ne trivial hct hc.2
    · by_cases hut : u = t
      · subst hut
        exact .inr (h.exists_heedful hu (hattended.2 hu))
      · exact .inl (h.pc_eq_of_ne (by simp) hut hu)

end Moves

/-- **No lost wake-up.** In every run with fewer than `2 ^ 64` calls of the queue in which every
notification is attended, no state has a published element or a set `break_all_wait_` while all
consumers are blocked and no notification is to come. -/
theorem no_lost_wakeup {V T : Type*} [Inhabited V] [DecidableEq T] [Fintype T]
    (consumers : Finset T) (size : ℕ) (hsize : size < 2 ^ 64) (es : List (T × Act V T))
    (s : State V T) (h : exec (step consumers) (init V T size) es = some s)
    (hcalls : s.queue.mem.calls < 2 ^ 64)
    (hattended : AllSteps (step consumers) (Attended consumers) (init V T size) es) :
    ¬Stranded consumers s := by
  suffices hinv : Linked size consumers s ∧
      (s.queue.mem.calls < 2 ^ 64 → Alert consumers s) from (hinv.2 hcalls).not_stranded
  refine exec_invariant_of_allSteps
    (fun s => Linked size consumers s ∧ (s.queue.mem.calls < 2 ^ 64 → Alert consumers s))
    ?_ ?_ hattended h
  · rintro s ⟨t, a⟩ s' ⟨hlinked, halert⟩ hattended hstep
    have hmove := move_of_step hstep
    refine ⟨hlinked.move hmove, fun hcalls => ?_⟩
    have hbefore := hmove.calls_le.trans_lt hcalls
    exact (halert hbefore).move hlinked hsize hbefore hmove hattended
  · refine ⟨linked_init, fun _ => ⟨fun helement => ?_, fun hbreak => ?_⟩⟩
    · exact absurd helement (lt_irrefl 1)
    · exact absurd hbreak Bool.false_ne_true

/-- The consumer calls `WaitDequeue` and finds the queue empty. -/
def findEmpty : List (Bool × Act ℕ Bool) :=
  [(true, .waitDequeue), (true, .loadBreak), (true, .step false), (true, .step false)]

/-- The other thread publishes an element and comes to its notification. -/
def publish : List (Bool × Act ℕ Bool) :=
  (false, .enqueue 7) :: List.replicate 5 (false, .step false)

theorem no_lost_wakeup_of_blocked :
    ∃ s, exec (step {true}) (init ℕ Bool 1)
        (findEmpty ++ [(true, .wait)] ++ publish ++ [(false, .notifyOne (some true))]) = some s ∧
      s.queue.mem.HasElement ∧ ¬Stranded {true} s :=
  exists_exec_mono (P := fun s => s.queue.mem.HasElement ∧ s.queue.mem.calls < 2 ^ 64)
    (by decide +kernel) fun s hs ⟨helement, hcalls⟩ =>
      ⟨helement, no_lost_wakeup {true} 1 (by decide) _ s hs hcalls (by decide +kernel)⟩

/-- **A lost wake-up.** A notification that comes after the consumer has found the queue empty, or
has read `break_all_wait_`, and before it waits is lost: the consumer blocks with an element in the
queue, or with `break_all_wait_` set, and no notification is to come. -/
theorem stranded_after_test :
    (∃ s, exec (step {true}) (init ℕ Bool 1)
        (findEmpty ++ publish ++ [(false, .notifyOne none), (true, .wait)]) = some s ∧
      s.queue.mem.HasElement ∧ Stranded {true} s) ∧
    ∃ s, exec (step {true}) (init ℕ Bool 1)
        (findEmpty ++ [(false, .breakAllWait), (false, .notifyAll), (true, .wait)]) = some s ∧
      s.breakAllWait = true ∧ Stranded {true} s := by
  decide +kernel

end Cyber.BlockWait
