import Notebook.Cyber.Base.BoundedQueueUse

/-!
# Submitting a task

`ThreadPool::Enqueue` (`base/thread_pool.h`) and `TaskManager::Enqueue` (`task/task_manager.h`)
make a task, test `stop_`, put the task into a `BoundedQueue` for the workers and return the future
of the task. Neither looks at what `BoundedQueue::Enqueue` returns. They differ when `stop_` is
set: the thread pool returns a future that is not valid, the task manager one that is.

The tasks are numbered in the order in which they are made. Any thread may submit tasks, take tasks
from the queue as the workers do, and set `stop_`. What the task manager does to wake its workers
does not change what it returns.

## Main definitions

* `step` — the operations of a submission, over those of `BoundedQueue`.
* `Accepting` — the submission is not refused in this step.
* `FuturesAccepted` — the task of every valid future was put into the queue.

## Main results

* `Inv.enqueue_cases` — what an operation of a submission on the queue leads to.
* `futures_accepted_iff` — the futures are accepted exactly while no submission is refused.
-/

open Interleaving Function List Option Threads

namespace Cyber.TaskSubmission

/-- The owners of a task queue. -/
inductive Pool
  | threadPool
  | taskManager
deriving DecidableEq, Repr

/-- Whether the future that `Enqueue` returns when `stop_` is set is valid. -/
def Pool.validWhenStopped : Pool → Bool
  | .threadPool => false
  | .taskManager => true

/-- Where a thread is: outside of all calls, in `Enqueue` of the pool with its task, before the load
of `stop_` or in `Enqueue` of the queue, or in `Dequeue` of the queue. -/
inductive Pc
  | outside
  | loadStop (task : ℕ)
  | enqueue (task : ℕ)
  | dequeue
deriving DecidableEq, Repr

/-- The task queue, `stop_` and the threads. `made` is the number of tasks made, and `returned`
lists the tasks of the calls that have returned and whether their futures are valid. -/
structure State (T : Type*) where
  queue : BoundedQueue.State ℕ T
  stop : Bool
  made : ℕ
  pc : T → Pc
  returned : List (ℕ × Bool)

/-- What a thread does next: call `Enqueue` of the pool, take a task, set `stop_`, or make the next
operation of its call. -/
inductive Act
  | submit
  | dequeue
  | stop
  | loadStop
  | step (spurious : Bool)
deriving DecidableEq, Repr

variable {T : Type*} [DecidableEq T]

/-- The thread `t` goes to `pc`. -/
def State.move (s : State T) (t : T) (pc : Pc) : State T :=
  { s with pc := update s.pc t pc }

/-- The call with the task `task` returns its future. -/
def State.giveFuture (s : State T) (task : ℕ) (valid : Bool) : State T :=
  { s with returned := s.returned ++ [(task, valid)] }

/-- One atomic operation of one thread. -/
def step (pool : Pool) (s : State T) (e : T × Act) : Option (State T) :=
  match s.pc e.1, e.2 with
  | .outside, .submit => some ({ s with made := s.made + 1 }.move e.1 (.loadStop s.made))
  | .loadStop task, .loadStop =>
    if s.stop then some ((s.giveFuture task pool.validWhenStopped).move e.1 .outside)
    else
      (BoundedQueue.step s.queue (e.1, .enqueue task)).map fun queue =>
        { s with queue }.move e.1 (.enqueue task)
  | .enqueue task, .step spurious =>
    (BoundedQueue.step s.queue (e.1, .step spurious)).map fun queue =>
      if (queue.pc e.1).call = none then ({ s with queue }.giveFuture task true).move e.1 .outside
      else { s with queue }
  | .outside, .dequeue =>
    (BoundedQueue.step s.queue (e.1, .dequeue)).map fun queue => { s with queue }.move e.1 .dequeue
  | .dequeue, .step spurious =>
    (BoundedQueue.step s.queue (e.1, .step spurious)).map fun queue =>
      if (queue.pc e.1).call = none then { s with queue }.move e.1 .outside else { s with queue }
  | .outside, .stop => some { s with stop := true }
  | _, _ => none

/-- A pool that was not used, with a queue for `size` tasks. -/
def init (T : Type*) (size : ℕ) : State T :=
  ⟨BoundedQueue.init ℕ T size, false, 0, fun _ => .outside, []⟩

/-- The task of every valid future was put into the queue. -/
def FuturesAccepted (s : State T) : Prop :=
  ∀ x ∈ s.returned, x.2 = true → x.1 ∈ s.queue.mem.enqueued

instance (s : State T) : Decidable (FuturesAccepted s) := List.decidableBAll _ _

/-- The submission that the thread is in is not refused here: the task manager is not found stopped,
and the test of the queue against `head_` does not find the slots equal. -/
def Accepting (pool : Pool) (s : State T) (e : T × Act) : Prop :=
  match s.pc e.1 with
  | .loadStop _ => pool.validWhenStopped = true → s.stop = false
  | .enqueue _ => ¬(s.queue.pc e.1).rejecting s.queue.mem
  | _ => True

instance (pool : Pool) (s : State T) (e : T × Act) : Decidable (Accepting pool s e) := by
  unfold Accepting
  split <;> infer_instance

/-! ### What a step can do -/

section Moves

/-- The effects of the steps of the thread `t`. -/
inductive Move (pool : Pool) (s : State T) (t : T) : State T → Prop
  | submit (hpc : s.pc t = .outside) :
      Move pool s t ({ s with made := s.made + 1 }.move t (.loadStop s.made))
  | stopped (task : ℕ) (hpc : s.pc t = .loadStop task) (hstop : s.stop = true) :
      Move pool s t ((s.giveFuture task pool.validWhenStopped).move t .outside)
  | enqueue (task : ℕ) (queue) (hpc : s.pc t = .loadStop task) (hstop : s.stop = false)
      (hqueue : BoundedQueue.step s.queue (t, .enqueue task) = some queue) :
      Move pool s t ({ s with queue }.move t (.enqueue task))
  | place (task : ℕ) (spurious : Bool) (queue) (hpc : s.pc t = .enqueue task)
      (hqueue : BoundedQueue.step s.queue (t, .step spurious) = some queue)
      (hcall : (queue.pc t).call ≠ none) : Move pool s t { s with queue }
  | leave (task : ℕ) (spurious : Bool) (queue) (hpc : s.pc t = .enqueue task)
      (hqueue : BoundedQueue.step s.queue (t, .step spurious) = some queue)
      (hcall : (queue.pc t).call = none) :
      Move pool s t (({ s with queue }.giveFuture task true).move t .outside)
  | dequeue (queue) (hpc : s.pc t = .outside)
      (hqueue : BoundedQueue.step s.queue (t, .dequeue) = some queue) :
      Move pool s t ({ s with queue }.move t .dequeue)
  | take (spurious : Bool) (queue) (hpc : s.pc t = .dequeue)
      (hqueue : BoundedQueue.step s.queue (t, .step spurious) = some queue)
      (hcall : (queue.pc t).call ≠ none) : Move pool s t { s with queue }
  | taken (spurious : Bool) (queue) (hpc : s.pc t = .dequeue)
      (hqueue : BoundedQueue.step s.queue (t, .step spurious) = some queue)
      (hcall : (queue.pc t).call = none) : Move pool s t ({ s with queue }.move t .outside)
  | stop (hpc : s.pc t = .outside) : Move pool s t { s with stop := true }

theorem move_of_step {pool : Pool} {s s' : State T} {t : T} {a : Act}
    (h : step pool s (t, a) = some s') : Move pool s t s' := by
  revert h
  simp only [step]
  split
  next hpc =>
    rintro ⟨⟩
    exact .submit hpc
  next task hpc =>
    split_ifs with hstop
    · rintro ⟨⟩
      exact .stopped task hpc hstop
    · rw [map_eq_some_iff]
      rintro ⟨queue, hqueue, rfl⟩
      exact .enqueue task queue hpc (Bool.eq_false_iff.mpr hstop) hqueue
  next task spurious hpc =>
    rw [map_eq_some_iff]
    rintro ⟨queue, hqueue, rfl⟩
    split_ifs with hcall
    · exact .leave task spurious queue hpc hqueue hcall
    · exact .place task spurious queue hpc hqueue hcall
  next hpc =>
    rw [map_eq_some_iff]
    rintro ⟨queue, hqueue, rfl⟩
    exact .dequeue queue hpc hqueue
  next spurious hpc =>
    rw [map_eq_some_iff]
    rintro ⟨queue, hqueue, rfl⟩
    split_ifs with hcall
    · exact .taken spurious queue hpc hqueue hcall
    · exact .take spurious queue hpc hqueue hcall
  next hpc =>
    rintro ⟨⟩
    exact .stop hpc
  next => exact fun h => absurd h (some_ne_none _).symm

/-- The task of the call that a thread is in. -/
def Pc.task : Pc → Option ℕ
  | .loadStop task | .enqueue task => some task
  | _ => none

/-- The thread is in the call of the queue that its place says, and its task is in the queue or was
in it exactly when the call has placed it. -/
def Fits (enqueued : List ℕ) : Pc → BoundedQueue.Pc ℕ → Prop
  | .outside, l => l.call = none
  | .loadStop task, l => l.call = none ∧ task ∉ enqueued
  | .enqueue task, l => l.call = some .enqueue ∧
    (l.unplaced = some task ∧ task ∉ enqueued ∨ l.unplaced = none ∧ task ∈ enqueued)
  | .dequeue, l => l.call = some .dequeue

/-- The invariant of a pool. -/
structure Inv (s : State T) : Prop where
  fits : ∀ t, Fits s.queue.mem.enqueued (s.pc t) (s.queue.pc t)
  task_lt : ∀ t task, (s.pc t).task = some task → task < s.made
  enqueued_lt : ∀ task ∈ s.queue.mem.enqueued, task < s.made
  distinct : ∀ t u task, (s.pc t).task = some task → (s.pc u).task = some task → t = u

omit [DecidableEq T] in
theorem inv_init {size : ℕ} : Inv (init T size) where
  fits _ := rfl
  task_lt _ _ h := by simp [init, Pc.task] at h
  enqueued_lt _ h := by simp [init, BoundedQueue.init, BoundedQueue.Mem.init] at h
  distinct _ _ _ h := by simp [init, Pc.task] at h

variable {task : ℕ}

theorem Fits.append {enqueued : List ℕ} {pc : Pc} {l : BoundedQueue.Pc ℕ} (h : Fits enqueued pc l)
    (hne : pc.task ≠ some task) : Fits (enqueued ++ [task]) pc l := by
  cases pc with
  | outside | dequeue => exact h
  | loadStop task' =>
    have hne : task' ≠ task := fun heq => hne (congrArg some heq)
    exact ⟨h.1, by simpa [hne] using h.2⟩
  | enqueue task' =>
    have hne : task' ≠ task := fun heq => hne (congrArg some heq)
    obtain ⟨hcall, ⟨hl, hmem⟩ | ⟨hl, hmem⟩⟩ := h
    · exact ⟨hcall, .inl ⟨hl, by simpa [hne] using hmem⟩⟩
    · exact ⟨hcall, .inr ⟨hl, mem_append_left _ hmem⟩⟩

variable {pool : Pool} {s s' : State T} {t : T}

/-- What an operation of a submission on the queue leads to: the test against `head_` rejects the
call, or the call goes on, or it is accepted. -/
theorem Inv.enqueue_cases (hinv : Inv s) {spurious : Bool}
    {queue : BoundedQueue.State ℕ T} (hpc : s.pc t = .enqueue task)
    (hqueue : BoundedQueue.step s.queue (t, .step spurious) = some queue) :
    (s.queue.pc t).rejecting s.queue.mem ∧ (queue.pc t).call = none ∧
        queue.mem.enqueued = s.queue.mem.enqueued ∧ task ∉ s.queue.mem.enqueued ∨
      ¬(s.queue.pc t).rejecting s.queue.mem ∧
        ((queue.pc t).call = none ∧ task ∈ queue.mem.enqueued ∨
          Fits queue.mem.enqueued (.enqueue task) (queue.pc t)) ∧
        (queue.mem.enqueued = s.queue.mem.enqueued ∨
          queue.mem.enqueued = s.queue.mem.enqueued ++ [task]) := by
  have hp := prog_of_step hqueue
  have hfits := hinv.fits t
  rw [hpc] at hfits
  obtain ⟨hcall, ⟨hl, hmem⟩ | ⟨hl, hmem⟩⟩ := hfits
  · rcases BoundedQueue.unplaced_prog hl hp with ⟨hrej, hidle, heq⟩ | ⟨hrej, hcall', hplace⟩
    · exact .inl ⟨hrej, by rw [hidle]; rfl, heq, hmem⟩
    · rcases hplace with ⟨hl', heq⟩ | ⟨hl', heq⟩
      · exact .inr ⟨hrej, .inr ⟨hcall', .inl ⟨hl', heq ▸ hmem⟩⟩, .inl heq⟩
      · exact .inr ⟨hrej, .inr ⟨hcall', .inr ⟨hl', by simp [heq]⟩⟩, .inr heq⟩
  · have hrej : ¬(s.queue.pc t).rejecting s.queue.mem := by
      cases hlt : s.queue.pc t <;> simp_all [BoundedQueue.Pc.rejecting, BoundedQueue.Pc.unplaced]
    obtain ⟨⟨hcall', hl'⟩ | hidle, heq⟩ := BoundedQueue.placed_prog hcall hl hp
    · exact .inr ⟨hrej, .inr ⟨hcall', .inr ⟨hl', heq ▸ hmem⟩⟩, .inl heq⟩
    · exact .inr ⟨hrej, .inl ⟨by rw [hidle]; rfl, heq ▸ hmem⟩, .inl heq⟩

variable (h : Move pool s t s')

include h

theorem Move.of_ne {u : T} (hu : u ≠ t) : s'.pc u = s.pc u ∧ s'.queue.pc u = s.queue.pc u := by
  cases h with
  | submit | stopped => exact ⟨update_of_ne hu _ _, rfl⟩
  | stop => exact ⟨rfl, rfl⟩
  | place task spurious queue hpc hqueue | take spurious queue hpc hqueue =>
    exact ⟨rfl, pc_of_ne hqueue hu⟩
  | enqueue task queue hpc hstop hqueue =>
    exact ⟨update_of_ne hu _ _, pc_of_ne hqueue hu⟩
  | leave task spurious queue hpc hqueue =>
    exact ⟨update_of_ne hu _ _, pc_of_ne hqueue hu⟩
  | dequeue queue hpc hqueue =>
    exact ⟨update_of_ne hu _ _, pc_of_ne hqueue hu⟩
  | taken spurious queue hpc hqueue =>
    exact ⟨update_of_ne hu _ _, pc_of_ne hqueue hu⟩

theorem Move.task_self : (s'.pc t).task = none ∧ s'.made = s.made ∨
      (s'.pc t).task = (s.pc t).task ∧ s'.made = s.made ∨
      (s'.pc t).task = some s.made ∧ s'.made = s.made + 1 := by
  cases h with
  | submit hpc => exact .inr (.inr ⟨by simp [State.move, Pc.task], rfl⟩)
  | enqueue task queue hpc => exact .inr (.inl ⟨by simp [State.move, Pc.task, hpc], rfl⟩)
  | place | take | stop => exact .inr (.inl ⟨rfl, rfl⟩)
  | _ => exact .inl ⟨by simp [State.move, Pc.task], rfl⟩

theorem Inv.enqueued_move (hinv : Inv s) :
    s'.queue.mem.enqueued = s.queue.mem.enqueued ∨ ∃ task, (s.pc t).task = some task ∧
      s'.queue.mem.enqueued = s.queue.mem.enqueued ++ [task] := by
  cases h with
  | submit | stopped | stop => exact .inl rfl
  | enqueue task queue hpc hstop hqueue =>
    exact .inl (BoundedQueue.call_enqueue_prog (prog_of_step hqueue)).2.2
  | dequeue queue hpc hqueue =>
    exact .inl (BoundedQueue.call_dequeue_prog (prog_of_step hqueue)).2
  | place task spurious queue hpc hqueue | leave task spurious queue hpc hqueue =>
    rcases hinv.enqueue_cases hpc hqueue with ⟨-, -, heq, -⟩ | ⟨-, -, heq | heq⟩
    · exact .inl heq
    · exact .inl heq
    · exact .inr ⟨task, by rw [hpc, Pc.task], heq⟩
  | take spurious queue hpc hqueue | taken spurious queue hpc hqueue =>
    have hcall := hinv.fits t
    rw [hpc] at hcall
    exact .inl (BoundedQueue.dequeue_prog hcall (prog_of_step hqueue)).2

theorem Inv.fits_self (hinv : Inv s) : Fits s'.queue.mem.enqueued (s'.pc t) (s'.queue.pc t) := by
  have hfits := hinv.fits t
  cases h with
  | submit hpc =>
    rw [hpc] at hfits
    simp only [State.move, update_self]
    exact ⟨hfits, fun hmem => lt_irrefl _ (hinv.enqueued_lt _ hmem)⟩
  | stopped task hpc hstop =>
    rw [hpc] at hfits
    simp only [State.move, State.giveFuture, update_self]
    exact hfits.1
  | enqueue task queue hpc hstop hqueue =>
    rw [hpc] at hfits
    obtain ⟨hcall, hl, heq⟩ := BoundedQueue.call_enqueue_prog (prog_of_step hqueue)
    simp only [State.move, update_self]
    exact ⟨hcall, .inl ⟨hl, heq ▸ hfits.2⟩⟩
  | place task spurious queue hpc hqueue hcall =>
    simp only [hpc]
    rcases hinv.enqueue_cases hpc hqueue with ⟨-, hnone, -⟩ | ⟨-, ⟨hnone, -⟩ | hfits', -⟩
    · exact absurd hnone hcall
    · exact absurd hnone hcall
    · exact hfits'
  | leave task spurious queue hpc hqueue hcall =>
    simp only [State.move, State.giveFuture, update_self]
    exact hcall
  | dequeue queue hpc hqueue =>
    simp only [State.move, update_self]
    exact BoundedQueue.call_dequeue_step hqueue
  | take spurious queue hpc hqueue hcall =>
    rw [hpc] at hfits
    simp only [hpc]
    have hp := prog_of_step hqueue
    rcases (BoundedQueue.dequeue_prog hfits hp).1 with hl | ⟨v, hl⟩ | hl
    · exact hl
    · exact absurd (by rw [hl]; rfl) hcall
    · exact absurd (by rw [hl]; rfl) hcall
  | taken spurious queue hpc hqueue hcall =>
    simp only [State.move, update_self]
    exact hcall
  | stop => exact hfits

theorem Move.task_eq {u : T} (hu : (s'.pc u).task = some task) :
    (s.pc u).task = some task ∧ s.made ≤ s'.made ∨
      u = t ∧ task = s.made ∧ s'.made = s.made + 1 := by
  have hmade : s.made ≤ s'.made := by
    rcases h.task_self with ⟨-, heq⟩ | ⟨-, heq⟩ | ⟨-, heq⟩ <;> omega
  by_cases hut : u = t
  · subst hut
    rcases h.task_self with ⟨hnone, -⟩ | ⟨heq, -⟩ | ⟨heq, hsucc⟩
    · simp [hnone] at hu
    · exact .inl ⟨heq ▸ hu, hmade⟩
    · exact .inr ⟨rfl, (some.inj (heq.symm.trans hu)).symm, hsucc⟩
  · rw [(h.of_ne hut).1] at hu
    exact .inl ⟨hu, hmade⟩

theorem Inv.move (hinv : Inv s) : Inv s' := by
  have hmade : s.made ≤ s'.made := by
    rcases h.task_self with ⟨-, heq⟩ | ⟨-, heq⟩ | ⟨-, heq⟩ <;> omega
  refine ⟨fun u => ?_, fun u task hu => ?_, fun task htask => ?_, fun u v task hu hv => ?_⟩
  · by_cases hut : u = t
    · subst hut
      exact hinv.fits_self h
    · obtain ⟨hpc, hqueue⟩ := h.of_ne hut
      rw [hpc, hqueue]
      rcases hinv.enqueued_move h with heq | ⟨task, ht, heq⟩
      · rw [heq]
        exact hinv.fits u
      · rw [heq]
        exact (hinv.fits u).append fun hu => hut (hinv.distinct u t task hu ht)
  · rcases h.task_eq hu with ⟨hbefore, -⟩ | ⟨-, rfl, hsucc⟩
    · exact (hinv.task_lt u task hbefore).trans_le hmade
    · omega
  · rcases hinv.enqueued_move h with heq | ⟨task', ht, heq⟩
    · exact (hinv.enqueued_lt task (heq ▸ htask)).trans_le hmade
    · rw [heq, mem_append, mem_singleton] at htask
      rcases htask with hmem | rfl
      · exact (hinv.enqueued_lt task hmem).trans_le hmade
      · exact (hinv.task_lt t task ht).trans_le hmade
  · -- a new task is different from all tasks before
    rcases h.task_eq hu with ⟨hu, -⟩ | ⟨rfl, rfl, -⟩ <;>
      rcases h.task_eq hv with ⟨hv, -⟩ | ⟨rfl, hv, -⟩
    · exact hinv.distinct u v task hu hv
    · exact absurd (hinv.task_lt u task hu) (by omega)
    · exact absurd (hinv.task_lt v _ hv) (lt_irrefl _)
    · rfl

/-! ### Valid futures -/

/-- Submissions that are not refused give valid futures of tasks in the queue only. -/
theorem Inv.futuresAccepted_move (hinv : Inv s) {a : Act}
    (hs : FuturesAccepted s) (haccept : Accepting pool s (t, a)) : FuturesAccepted s' := by
  have hmono : s.queue.mem.enqueued ⊆ s'.queue.mem.enqueued := by
    rcases hinv.enqueued_move h with heq | ⟨task, -, heq⟩
    · exact heq ▸ List.Subset.refl _
    · exact heq ▸ subset_append_left _ _
  have hold : ∀ x ∈ s.returned, x.2 = true → x.1 ∈ s'.queue.mem.enqueued :=
    fun x hx hvalid => hmono (hs x hx hvalid)
  cases h with
  | stopped task hpc hstop =>
    intro x hx hvalid
    simp only [State.move, State.giveFuture, mem_append, mem_singleton] at hx
    rcases hx with hx | rfl
    · exact hold x hx hvalid
    · simp only [Accepting, hpc] at haccept
      simp [haccept hvalid] at hstop
  | leave task spurious queue hpc hqueue hcall =>
    intro x hx hvalid
    simp only [State.move, State.giveFuture, mem_append, mem_singleton] at hx
    rcases hx with hx | rfl
    · exact hold x hx hvalid
    · simp only [Accepting, hpc] at haccept
      rcases hinv.enqueue_cases hpc hqueue with ⟨hrej, -⟩ | ⟨-, ⟨-, hmem⟩ | hfits, -⟩
      · exact absurd hrej haccept
      · exact hmem
      · exact absurd (hfits.1.symm.trans hcall) (some_ne_none _)
  | _ => exact hold

/-- A submission that is refused gives a valid future of a task that is not in the queue. -/
theorem Inv.not_futuresAccepted_move (hinv : Inv s) {a : Act}
    (hrefuse : ¬Accepting pool s (t, a)) : ¬FuturesAccepted s' := by
  intro hs'
  have hfits := hinv.fits t
  cases h with
  | stopped task hpc hstop =>
    simp only [Accepting, hpc, Classical.not_imp] at hrefuse
    rw [hpc] at hfits
    exact hfits.2 (hs' (task, pool.validWhenStopped)
      (mem_append_right _ (mem_singleton_self _)) hrefuse.1)
  | leave task spurious queue hpc hqueue hcall =>
    simp only [Accepting, hpc, not_not] at hrefuse
    rcases hinv.enqueue_cases hpc hqueue with ⟨-, -, heq, hmem⟩ | ⟨hrej, -⟩
    · exact hmem (heq ▸ hs' (task, true)
        (mem_append_right _ (mem_singleton_self _)) rfl)
    · exact hrej hrefuse
  | place task spurious queue hpc hqueue hcall =>
    simp only [Accepting, hpc, not_not] at hrefuse
    rcases hinv.enqueue_cases hpc hqueue with ⟨-, hnone, -⟩ | ⟨hrej, -⟩
    · exact hcall hnone
    · exact hrej hrefuse
  | enqueue task queue hpc hstop hqueue =>
    simp only [Accepting, hpc, Classical.not_imp] at hrefuse
    exact hrefuse.2 hstop
  | _ => exact hrefuse (by simp only [Accepting, ‹s.pc t = _›])

end Moves

/-- **Valid futures.** In a run of a thread pool or a task manager the tasks of all valid futures
are in the queue, or were taken from it, at every moment exactly when no submission is refused: no
test of the queue against `head_` finds the slots equal, and no call finds the task manager
stopped. -/
theorem futures_accepted_iff {T : Type*} [DecidableEq T] (pool : Pool) (size : ℕ)
    (es : List (T × Act)) (s : State T) (h : exec (step pool) (init T size) es = some s) :
    (∀ bs, bs <+: es → ∀ s', exec (step pool) (init T size) bs = some s' → FuturesAccepted s') ↔
      AllSteps (step pool) (Accepting pool) (init T size) es := by
  refine forall_prefix_iff_allSteps (fun s => Inv s ∧ FuturesAccepted s) (fun s hs => hs.2) ?_ ?_
    ⟨inv_init, fun x hx => absurd hx not_mem_nil⟩ h
  · rintro s ⟨t, a⟩ s' ⟨hinv, hs⟩ haccept hstep
    have hmove := move_of_step hstep
    exact ⟨hinv.move hmove, hinv.futuresAccepted_move hmove hs haccept⟩
  · rintro s ⟨t, a⟩ s' ⟨hinv, -⟩ hrefuse hstep
    exact hinv.not_futuresAccepted_move (move_of_step hstep) hrefuse

/-- A call of `Enqueue` of a pool, up to its return when the queue accepts the task. -/
def submission (t : Bool) : List (Bool × Act) :=
  [(t, .submit), (t, .loadStop)] ++ List.replicate 5 (t, .step false)

/-- A worker takes a task. -/
def taking (t : Bool) : List (Bool × Act) := (t, .dequeue) :: List.replicate 4 (t, .step false)

theorem futures_accepted_of_taking :
    ∃ s, exec (step .threadPool) (init Bool 1) (submission false ++ taking true) = some s ∧
      s.returned = [(0, true)] ∧ s.queue.mem.dequeued = [0] ∧ FuturesAccepted s :=
  exists_exec_mono (P := fun s => s.returned = [(0, true)] ∧ s.queue.mem.dequeued = [0])
    (by decide +kernel) fun s hs ⟨hreturned, hdequeued⟩ => ⟨hreturned, hdequeued,
      (futures_accepted_iff .threadPool 1 _ s hs).mpr (by decide +kernel) _ prefix_rfl s hs⟩

/-- **Valid futures without a task.** When its queue is full, the thread pool and the task manager
return a valid future of a task that is not in the queue, and so does the task manager when it is
stopped. -/
theorem valid_without_task :
    (∀ pool, ∃ s, exec (step pool) (init Bool 1) (submission false ++
        [(false, .submit), (false, .loadStop), (false, .step false), (false, .step false)]) =
          some s ∧
      s.returned = [(0, true), (1, true)] ∧ s.queue.mem.enqueued = [0]) ∧
    ∃ s, exec (step .taskManager) (init Bool 1)
        [(true, .stop), (false, .submit), (false, .loadStop)] = some s ∧
      s.returned = [(0, true)] ∧ s.queue.mem.enqueued = [] := by
  refine ⟨fun pool => ?_, by decide +kernel⟩
  cases pool with
  | threadPool | taskManager => decide +kernel

end Cyber.TaskSubmission
