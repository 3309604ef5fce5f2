import Notebook.Cyber.Base.BoundedQueueUse
import Notebook.Cyber.Croutine.CRoutine
import Notebook.Interleaving.Wakeup

/-!
# The workers of the task manager

The `TaskManager` (`task/task_manager.cc`) keeps a number of croutines as workers. A worker takes
tasks from a `BoundedQueue` and runs them; when `Dequeue` finds none, it hangs up: `HangUp`
switches its state to `DATA_WAIT` and the croutine back to its processor. `TaskManager::Enqueue`
(`task/task_manager.h`) puts a task into the queue and then calls `NotifyTask` for every worker,
whatever the queue has returned. `NotifyTask` ends in `NotifyProcessor`, which sets the update flag
of a worker only if it finds it waiting. A worker that has found the queue empty is still `READY`
until `HangUp` switches its state, and a notification whose loads fall into this time is lost.

Any number of producers call `TaskManager::Enqueue`. A task may yield its processor in a state other
than `DATA_WAIT`, as `Sleep` does. The task manager and the scheduler are not stopped.

## Main definitions

* `step` — the steps of the producers, the workers and the processors.
* `Heard` — a notification does not test a worker between its look in vain and `HangUp`.
* `Stranded` — a task is in the queue, and nobody will wake a worker.

## Main results

* `Inv.step` — a heard step keeps a wake-up for every worker that has looked in vain.
* `no_stranded_task` — no run with heard notifications is stranded.
-/

open Interleaving Function Option Threads

namespace Cyber.TaskManager

open BoundedQueue (Call Reachable)
open CRoutine (NotifyPc)

/-- Where a worker is: at the head of its loop, in `Dequeue`, before `HangUp`, or in a task. -/
inductive WorkerPc
  | loop
  | dequeue
  | hangUp
  | task
deriving DecidableEq, Repr

/-- The croutine of a worker and where its function is. -/
structure Worker where
  routine : CRoutine
  pc : WorkerPc
deriving DecidableEq, Repr

/-- Where a producer is: outside, in `Enqueue` of the queue, or in `NotifyTask` for a worker with
other workers to follow. -/
inductive ProducerPc (n : ℕ)
  | outside
  | enqueue
  | notify (w : Fin n) (pc : NotifyPc) (rest : List (Fin n))
deriving DecidableEq, Repr

/-- The loop over the workers that are still to be notified. -/
def ProducerPc.notifyAll {n : ℕ} : List (Fin n) → ProducerPc n
  | [] => .outside
  | w :: rest => .notify w .testData rest

/-- Where a producer is after an operation of `NotifyProcessor` for the worker `w`. -/
def ProducerPc.advance {n : ℕ} (w : Fin n) (rest : List (Fin n)) : Option NotifyPc → ProducerPc n
  | some pc => .notify w pc rest
  | none => .notifyAll rest

/-- The queue, the producers and the workers. -/
structure State (V P : Type*) (n : ℕ) where
  queue : BoundedQueue.State V (P ⊕ Fin n)
  producer : P → ProducerPc n
  worker : Fin n → Worker

/-- A step of a producer, of the function of a worker, or of a processor that has to do with a
worker. -/
inductive Event (V P : Type*) (n : ℕ)
  | enqueue (p : P) (task : V)
  | enqueueStep (p : P) (spurious : Bool)
  | notify (p : P)
  | dequeue (w : Fin n)
  | dequeueStep (w : Fin n) (spurious : Bool)
  | hangUp (w : Fin n)
  | yield (w : Fin n) (state : RoutineState)
  | finishTask (w : Fin n)
  | acquire (w : Fin n) (elapsed : Bool)
  | update (w : Fin n)
deriving DecidableEq, Repr

variable {V P : Type*} [DecidableEq P] {n : ℕ}

/-- The producer `p` goes to `pc`. -/
def State.setProducer (s : State V P n) (p : P) (pc : ProducerPc n) : State V P n :=
  { s with producer := update s.producer p pc }

/-- The worker `w` is replaced. -/
def State.setWorker (s : State V P n) (w : Fin n) (worker : Worker) : State V P n :=
  { s with worker := update s.worker w worker }

/-- Where a worker is after an operation of `Dequeue`. -/
def WorkerPc.next : BoundedQueue.Pc V → WorkerPc
  | .idle .empty => .hangUp
  | .idle _ => .task
  | _ => .dequeue

/-- The effect of a step. The function of a worker moves only while a processor runs it. -/
def step (s : State V P n) : Event V P n → Option (State V P n)
  | .enqueue p task =>
    if s.producer p = .outside then
      (BoundedQueue.step s.queue (.inl p, .enqueue task)).map fun queue =>
        { s with queue }.setProducer p .enqueue
    else none
  | .enqueueStep p spurious =>
    if s.producer p = .enqueue then
      (BoundedQueue.step s.queue (.inl p, .step spurious)).map fun queue =>
        { s with queue }.setProducer p (if (queue.pc (.inl p)).call = none then
          .notifyAll (List.finRange n) else .enqueue)
    else none
  | .notify p =>
    match s.producer p with
    | .notify w pc rest =>
      let r := (s.worker w).routine.notifyProcessor pc
      some ((s.setWorker w { s.worker w with routine := r.1 }).setProducer p (.advance w rest r.2))
    | _ => none
  | .dequeue w =>
    if (s.worker w).pc = .loop ∧ (s.worker w).routine.phase = .running then
      (BoundedQueue.step s.queue (.inr w, .dequeue)).map fun queue =>
        { s with queue }.setWorker w { s.worker w with pc := .dequeue }
    else none
  | .dequeueStep w spurious =>
    if (s.worker w).pc = .dequeue ∧ (s.worker w).routine.phase = .running then
      (BoundedQueue.step s.queue (.inr w, .step spurious)).map fun queue =>
        { s with queue }.setWorker w { s.worker w with pc := .next (queue.pc (.inr w)) }
    else none
  | .hangUp w =>
    if (s.worker w).pc = .hangUp ∧ (s.worker w).routine.phase = .running then
      some (s.setWorker w ⟨((s.worker w).routine.setState .dataWait).swapContext, .loop⟩)
    else none
  | .yield w state =>
    if (s.worker w).pc = .task ∧ (s.worker w).routine.phase = .running ∧ state ≠ .dataWait then
      some (s.setWorker w
        { s.worker w with routine := ((s.worker w).routine.setState state).swapContext })
    else none
  | .finishTask w =>
    if (s.worker w).pc = .task ∧ (s.worker w).routine.phase = .running then
      some (s.setWorker w { s.worker w with pc := .loop })
    else none
  | .acquire w elapsed =>
    ((s.worker w).routine.acquire elapsed).map fun routine =>
      s.setWorker w { s.worker w with routine }
  | .update w =>
    (s.worker w).routine.update.map fun routine => s.setWorker w { s.worker w with routine }

/-- A task manager with `n` workers that have not started, and a queue for `size` tasks. -/
def init (V P : Type*) [Inhabited V] (n size : ℕ) : State V P n :=
  ⟨BoundedQueue.init V (P ⊕ Fin n) size, fun _ => .outside, fun _ => ⟨.new, .loop⟩⟩

variable (worker : Worker)

/-- The worker is suspended in `DATA_WAIT` and no update flag is pending. -/
def Worker.Suspended : Prop :=
  worker.routine.state = .dataWait ∧ worker.routine.phase = .free ∧ worker.routine.updated = true
deriving Decidable

/-- A producer is in its calls of `NotifyTask`. -/
def ProducerPc.Notifying : ProducerPc n → Prop
  | .notify _ _ _ => True
  | _ => False

instance : (pc : ProducerPc n) → Decidable pc.Notifying
  | .notify _ _ _ => .isTrue trivial
  | .outside | .enqueue => .isFalse id

/-- A task is in the queue, every worker is suspended in `DATA_WAIT` without an update flag, and no
notification is in progress. -/
def Stranded (s : State V P n) : Prop :=
  s.queue.mem.HasElement ∧ (∀ w, (s.worker w).Suspended) ∧ ∀ p, ¬(s.producer p).Notifying

instance [Fintype P] (s : State V P n) : Decidable (Stranded s) :=
  inferInstanceAs (Decidable (_ ∧ _))

/-- A notification that is about to test a worker for `DATA_WAIT` while a task is in the queue does
not meet the worker between an unsuccessful `Dequeue` and `HangUp`. -/
def Heard (s : State V P n) : Event V P n → Prop
  | .notify p =>
    match s.producer p with
    | .notify w .testData _ => s.queue.mem.HasElement → (s.worker w).pc ≠ .hangUp
    | _ => True
  | _ => True

instance (s : State V P n) (e : Event V P n) : Decidable (Heard s e) := by
  unfold Heard
  split
  · split <;> infer_instance
  · infer_instance

/-! ### The invariant -/

/-- The worker has found the queue empty and has not yet been made ready again. -/
def Worker.Missed : Prop :=
  worker.pc = .hangUp ∨ worker.routine.state = .dataWait

/-- The producer is still to notify the worker. -/
def ProducerPc.Owes : ProducerPc n → Fin n → Prop
  | .notify w pc rest, w' => w' = w ∧ pc.Owes ∨ w' ∈ rest
  | _, _ => False

variable {w : Fin n}

omit [DecidableEq P] in
theorem ProducerPc.Owes.notifying {pc : ProducerPc n} (h : pc.Owes w) : pc.Notifying := by
  cases pc with
  | notify => trivial
  | _ => exact h

variable {rest : List (Fin n)}

theorem ProducerPc.owes_notifyAll (hw : w ∈ rest) : (ProducerPc.notifyAll rest).Owes w := by
  cases rest with
  | nil => exact absurd hw List.not_mem_nil
  | cons w' rest =>
    rcases List.mem_cons.mp hw with rfl | hrest
    · exact .inl ⟨rfl, trivial⟩
    · exact .inr hrest

variable [Inhabited V] {size : ℕ} {s s' : State V P n}

/-- The invariant of the task manager. Up to `2 ^ 64` calls of the queue, a worker that has found
the queue empty is woken, or owed a notification, whenever a task is in the queue. -/
structure Inv (size : ℕ) (s : State V P n) : Prop where
  reachable : Reachable size s.queue
  dequeue : ∀ w, (s.worker w).pc = .dequeue → (s.queue.pc (.inr w)).call = some .dequeue
  running : ∀ w, (s.worker w).pc = .dequeue ∨ (s.worker w).pc = .hangUp →
    (s.worker w).routine.phase = .running
  covered : s.queue.mem.calls < 2 ^ 64 → Covered s.queue.mem.HasElement
    (fun w => (s.worker w).Missed) (fun w => (s.worker w).routine.Woken)
    fun p w => (s.producer p).Owes w

theorem inv_init : Inv size (init V P n size) where
  reachable := BoundedQueue.reachable_init
  dequeue _ h := by simp [init] at h
  running _ h := by simp [init] at h
  covered _ := .of_not (lt_irrefl 1)

variable {p : P}

section

variable (hinv : Inv size s)

include hinv

theorem Inv.not_stranded (hcalls : s.queue.mem.calls < 2 ^ 64) (hn : 0 < n) : ¬Stranded s := by
  rintro ⟨helement, hsuspended, hnone⟩
  obtain ⟨hstate, hphase, hupdated⟩ := hsuspended ⟨0, hn⟩
  refine (hinv.covered hcalls).false_of_forgotten helement (.inr hstate) ?_
    fun p howes => hnone p howes.notifying
  rintro (hfalse | hupdating)
  · simp [hupdated] at hfalse
  · simp [hphase] at hupdating

/-- A step that replaces one worker and leaves the others in their calls of the queue. -/
theorem Inv.of_worker {worker : Worker} (hworker : s'.worker = update s.worker w worker)
    (hreachable : Reachable size s'.queue)
    (hothers : ∀ u ≠ w, (s.worker u).pc = .dequeue → (s'.queue.pc (.inr u)).call = some .dequeue)
    (hdequeue : worker.pc = .dequeue → (s'.queue.pc (.inr w)).call = some .dequeue)
    (hrunning : worker.pc = .dequeue ∨ worker.pc = .hangUp → worker.routine.phase = .running)
    (hcovered : s'.queue.mem.calls < 2 ^ 64 → Covered s'.queue.mem.HasElement
      (fun u => (s'.worker u).Missed) (fun u => (s'.worker u).routine.Woken)
      fun p u => (s'.producer p).Owes u) : Inv size s' := by
  refine ⟨hreachable, ?_, ?_, hcovered⟩
  · rw [hworker]
    exact (forall_update_iff s.worker fun u worker =>
      worker.pc = .dequeue → (s'.queue.pc (.inr u)).call = some .dequeue).mpr ⟨hdequeue, hothers⟩
  · rw [hworker]
    exact (forall_update_iff s.worker fun _ worker =>
      worker.pc = .dequeue ∨ worker.pc = .hangUp → worker.routine.phase = .running).mpr
        ⟨hrunning, fun u _ => hinv.running u⟩

theorem Inv.setWorker (w : Fin n) {worker : Worker}
    (hdequeue : worker.pc ≠ .dequeue) (hrunning : worker.pc ≠ .hangUp)
    (hmissed : worker.Missed →
      (s.worker w).Missed ∧ ((s.worker w).routine.Woken → worker.routine.Woken)) :
    Inv size (s.setWorker w worker) := by
  refine hinv.of_worker rfl hinv.reachable (fun u _ => hinv.dequeue u) (absurd · hdequeue)
    (fun hpc => (hpc.elim hdequeue hrunning).elim) fun hcalls => ?_
  refine (hinv.covered hcalls).step id fun _ u hu => ?_
  by_cases huw : u = w
  · subst huw
    simp only [State.setWorker, update_self] at hu ⊢
    exact ⟨(hmissed hu).1, (hmissed hu).2, fun _ => .inl⟩
  · simp only [State.setWorker, update_of_ne huw] at hu ⊢
    exact ⟨hu, id, fun _ => .inl⟩

theorem Inv.processor {routine : CRoutine}
    (h : (∃ elapsed, (s.worker w).routine.acquire elapsed = some routine) ∨
      (s.worker w).routine.update = some routine) :
    Inv size (s.setWorker w { s.worker w with routine }) := by
  have hphase : (s.worker w).routine.phase ≠ .running := by
    rcases h with ⟨elapsed, h⟩ | h
    · rw [(CRoutine.acquire_spec h).1]
      decide
    · rw [(CRoutine.update_spec h).1]
      decide
  have hhangUp : (s.worker w).pc ≠ .hangUp := fun h => hphase (hinv.running w (.inr h))
  refine hinv.setWorker w (fun h => hphase (hinv.running w (.inl h))) hhangUp fun hmissed => ?_
  have hstate : routine.state = .dataWait := hmissed.resolve_left hhangUp
  rcases h with ⟨elapsed, h⟩ | h
  · obtain ⟨hbefore, hwoken⟩ := (CRoutine.acquire_spec h).2 hstate
    exact ⟨.inr hbefore, hwoken⟩
  · exact absurd hstate (CRoutine.update_spec h).2

theorem Inv.hangUp (hpc : (s.worker w).pc = .hangUp)
    (hphase : (s.worker w).routine.phase = .running) :
    Inv size (s.setWorker w ⟨((s.worker w).routine.setState .dataWait).swapContext, .loop⟩) := by
  refine hinv.setWorker w (by simp) (by simp) fun _ => ⟨.inl hpc, fun hwoken => ?_⟩
  rcases hwoken with hupdated | hupdating
  · exact .inl hupdated
  · simp [hphase] at hupdating

variable {queue : BoundedQueue.State V (P ⊕ Fin n)} {a : BoundedQueue.Act V}

/-- An operation of the thread `t` on the queue leaves the queue fit for the workers other than
`t`. -/
theorem Inv.call_of_queueStep {t : P ⊕ Fin n}
    (hqueue : BoundedQueue.step s.queue (t, a) = some queue) (hw : .inr w ≠ t)
    (hpc : (s.worker w).pc = .dequeue) :
    (queue.pc (.inr w)).call = some .dequeue := by
  rw [pc_of_ne hqueue hw]
  exact hinv.dequeue w hpc

theorem Inv.setProducer {pc : ProducerPc n}
    (hqueue : BoundedQueue.step s.queue (.inl p, a) = some queue)
    (hcovered : s.queue.mem.calls < 2 ^ 64 → Covered queue.mem.HasElement
      (fun w => (s.worker w).Missed) (fun w => (s.worker w).routine.Woken)
      fun q w => (update s.producer p pc q).Owes w) :
    Inv size ({ s with queue }.setProducer p pc) := by
  refine ⟨BoundedQueue.reachable_step hinv.reachable hqueue, fun w hw => ?_, hinv.running,
    fun hcalls => ?_⟩
  · exact hinv.call_of_queueStep hqueue (by simp) hw
  · exact hcovered ((BoundedQueue.calls_le_step hqueue).trans_lt hcalls)

theorem Inv.enqueue (hsize : size < 2 ^ 64)
    (hqueue : BoundedQueue.step s.queue (.inl p, a) = some queue)
    (hcall : (queue.pc (.inl p)).call ≠ none) (hpc : ¬(s.producer p).Notifying) :
    Inv size ({ s with queue }.setProducer p .enqueue) := by
  refine hinv.setProducer hqueue fun hcalls => (hinv.covered hcalls).step
    (hinv.reachable.hasElement_of_step hsize hcalls hqueue fun hacc => ?_) fun _ w hw => ?_
  · exact hcall (by rw [hacc]; rfl)
  · refine ⟨hw, id, fun q hq => .inl ?_⟩
    by_cases hqp : q = p
    · subst hqp
      exact absurd hq.notifying hpc
    · rwa [update_of_ne hqp]

theorem Inv.enqueued (hqueue : BoundedQueue.step s.queue (.inl p, a) = some queue) :
    Inv size ({ s with queue }.setProducer p (.notifyAll (List.finRange n))) := by
  refine hinv.setProducer hqueue fun _ => .of_owes p fun w => ?_
  rw [update_self]
  exact ProducerPc.owes_notifyAll (List.mem_finRange w)

/-- An operation of a worker on the queue: either it finds the queue empty, or it does not look in
vain and publishes nothing. -/
theorem Inv.dequeueOp (hsize : size < 2 ^ 64) {pc : WorkerPc}
    (hqueue : BoundedQueue.step s.queue (.inr w, a) = some queue)
    (hphase : (s.worker w).routine.phase = .running)
    (hdequeue : pc = .dequeue → (queue.pc (.inr w)).call = some .dequeue)
    (hpc : pc = .hangUp ∧ queue.pc (.inr w) = .idle .empty ∨
      pc ≠ .hangUp ∧ queue.pc (.inr w) ≠ .idle .accepted) :
    Inv size ({ s with queue }.setWorker w { s.worker w with pc }) := by
  refine hinv.of_worker rfl (BoundedQueue.reachable_step hinv.reachable hqueue)
    (fun u huw => hinv.call_of_queueStep hqueue (by simpa using huw)) hdequeue (fun _ => hphase)
    fun hcalls => ?_
  have hbefore := (BoundedQueue.calls_le_step hqueue).trans_lt hcalls
  rcases hpc with ⟨-, hempty⟩ | ⟨hpc, hacc⟩
  · exact .of_not (hinv.reachable.not_hasElement_of_empty hsize hbefore hqueue hempty)
  · refine (hinv.covered hbefore).step
      (hinv.reachable.hasElement_of_step hsize hbefore hqueue hacc) fun _ u hu => ?_
    by_cases huw : u = w
    · subst huw
      simp only [State.setWorker, update_self] at hu ⊢
      exact ⟨.inr (hu.resolve_left hpc), id, fun _ => .inl⟩
    · simp only [State.setWorker, update_of_ne huw] at hu ⊢
      exact ⟨hu, id, fun _ => .inl⟩

theorem Inv.dequeueStep (hsize : size < 2 ^ 64) {spurious : Bool}
    (hqueue : BoundedQueue.step s.queue (.inr w, .step spurious) = some queue)
    (hpc : (s.worker w).pc = .dequeue) (hphase : (s.worker w).routine.phase = .running) :
    Inv size ({ s with queue }.setWorker w
      { s.worker w with pc := .next (queue.pc (.inr w)) }) := by
  have hcases : (queue.pc (.inr w)).call = some .dequeue ∨
      (∃ v, queue.pc (.inr w) = .idle (.value v)) ∨ queue.pc (.inr w) = .idle .empty :=
    (BoundedQueue.dequeue_prog (hinv.dequeue w hpc) (prog_of_step hqueue)).1
  rcases hcases with hcall | ⟨v, hvalue⟩ | hempty
  · have hnext : WorkerPc.next (queue.pc (.inr w)) = .dequeue := by
      cases hl : queue.pc (.inr w) <;> simp_all [WorkerPc.next, BoundedQueue.Pc.call]
    refine hinv.dequeueOp hsize hqueue hphase (fun _ => hcall) (.inr ⟨by simp [hnext], ?_⟩)
    rintro hacc
    simp [hacc, BoundedQueue.Pc.call] at hcall
  · rw [hvalue]
    exact hinv.dequeueOp hsize hqueue hphase (fun h => by simp [WorkerPc.next] at h)
      (.inr ⟨by simp [WorkerPc.next], by simp [hvalue]⟩)
  · rw [hempty]
    exact hinv.dequeueOp hsize hqueue hphase (fun h => by simp [WorkerPc.next] at h)
      (.inl ⟨rfl, hempty⟩)

end

theorem ProducerPc.owes_advance {w u : Fin n} (hu : u ∈ rest)
    (pc : Option NotifyPc) : (ProducerPc.advance w rest pc).Owes u := by
  cases pc with
  | none => exact owes_notifyAll hu
  | some pc => exact .inr hu

/-- An operation of `NotifyProcessor` that does not miss a worker before `HangUp`. -/
theorem Inv.notify (hinv : Inv size s) {pc : NotifyPc} (hp : s.producer p = .notify w pc rest)
    (hheard : pc = .testData → s.queue.mem.HasElement → (s.worker w).pc ≠ .hangUp) :
    Inv size ((s.setWorker w { s.worker w with
      routine := ((s.worker w).routine.notifyProcessor pc).1 }).setProducer p
        (.advance w rest ((s.worker w).routine.notifyProcessor pc).2)) := by
  obtain ⟨hstate, hphase, hwoken, howes⟩ :=
    @CRoutine.notifyProcessor_spec (s.worker w).routine pc
  refine hinv.of_worker rfl hinv.reachable (fun u _ => hinv.dequeue u) (hinv.dequeue w)
    (fun hpc => hphase.trans (hinv.running w hpc)) fun hcalls => ?_
  refine (hinv.covered hcalls).step id fun helement u hu => ?_
  by_cases huw : u = w
  · subst huw
    simp only [State.setProducer, State.setWorker, update_self] at hu ⊢
    have hmissed : (s.worker u).Missed := hu.imp_right hstate.symm.trans
    refine ⟨hmissed, hwoken, fun q hq => ?_⟩
    by_cases hqp : q = p
    · subst hqp
      rw [hp] at hq
      rw [update_self]
      rcases hq with ⟨-, hq⟩ | hq
      · -- a worker that has looked in vain is found in `DATA_WAIT`
        have htest : pc = .testData → (s.worker u).routine.state = .dataWait :=
          fun hpc => hmissed.resolve_left (hheard hpc helement)
        rcases howes htest hq with ⟨pc', hpc', howes'⟩ | hwoke
        · rw [hpc']
          exact .inl (.inl ⟨rfl, howes'⟩)
        · exact .inr hwoke
      · exact .inl (ProducerPc.owes_advance hq _)
    · rw [update_of_ne hqp]
      exact .inl hq
  · simp only [State.setProducer, State.setWorker, update_of_ne huw] at hu ⊢
    refine ⟨hu, id, fun q hq => .inl ?_⟩
    by_cases hqp : q = p
    · subst hqp
      rw [hp] at hq
      rw [update_self]
      rcases hq with ⟨heq, -⟩ | hq
      · exact absurd heq huw
      · exact ProducerPc.owes_advance hq _
    · rwa [update_of_ne hqp]

/-- A heard step keeps a wake-up for every worker that has looked in vain. -/
theorem Inv.step (hinv : Inv size s) (hsize : size < 2 ^ 64) {e : Event V P n} (hheard : Heard s e)
    (h : step s e = some s') : Inv size s' := by
  cases e with
  | enqueue p task =>
    obtain ⟨hp, h⟩ := ite_none_right_eq_some.mp h
    obtain ⟨queue, hqueue, rfl⟩ := map_eq_some_iff.mp h
    refine hinv.enqueue hsize hqueue ?_ (by rw [hp]; exact id)
    rw [BoundedQueue.call_enqueue_step hqueue]
    exact some_ne_none _
  | enqueueStep p spurious =>
    obtain ⟨hp, h⟩ := ite_none_right_eq_some.mp h
    obtain ⟨queue, hqueue, rfl⟩ := map_eq_some_iff.mp h
    split_ifs with hcall
    · exact hinv.enqueued hqueue
    · exact hinv.enqueue hsize hqueue hcall (by rw [hp]; exact id)
  | notify p =>
    simp only [TaskManager.step] at h
    split at h
    next w pc rest hp =>
      obtain rfl := some.inj h
      refine hinv.notify hp fun hpc => ?_
      subst hpc
      simpa only [Heard, hp] using hheard
    next => exact absurd h (some_ne_none _).symm
  | dequeue w =>
    obtain ⟨hw, h⟩ := ite_none_right_eq_some.mp h
    obtain ⟨queue, hqueue, rfl⟩ := map_eq_some_iff.mp h
    have hcall := BoundedQueue.call_dequeue_step hqueue
    refine hinv.dequeueOp hsize hqueue hw.2 (fun _ => hcall) (.inr ⟨by simp, fun hacc => ?_⟩)
    simp [hacc, BoundedQueue.Pc.call] at hcall
  | dequeueStep w spurious =>
    obtain ⟨hw, h⟩ := ite_none_right_eq_some.mp h
    obtain ⟨queue, hqueue, rfl⟩ := map_eq_some_iff.mp h
    exact hinv.dequeueStep hsize hqueue hw.1 hw.2
  | hangUp w =>
    obtain ⟨hw, ⟨⟩⟩ := ite_none_right_eq_some.mp h
    exact hinv.hangUp hw.1 hw.2
  | yield w state =>
    obtain ⟨hw, ⟨⟩⟩ := ite_none_right_eq_some.mp h
    refine hinv.setWorker w (by simp [hw.1]) (by simp [hw.1]) fun hmissed => ?_
    rcases hmissed with hpc | hstate
    · simp [hw.1] at hpc
    · exact absurd hstate hw.2.2
  | finishTask w =>
    obtain ⟨hw, ⟨⟩⟩ := ite_none_right_eq_some.mp h
    exact hinv.setWorker w (by simp) (by simp) fun hmissed =>
      ⟨.inr (hmissed.resolve_left (by simp)), id⟩
  | acquire w elapsed =>
    obtain ⟨routine, hroutine, rfl⟩ := map_eq_some_iff.mp h
    exact hinv.processor (.inl ⟨elapsed, hroutine⟩)
  | update w =>
    obtain ⟨routine, hroutine, rfl⟩ := map_eq_some_iff.mp h
    exact hinv.processor (.inr hroutine)

/-- **No stranded task.** In every run with at least one worker and fewer than `2 ^ 64` calls of
the queue in which no notification tests a worker between its unsuccessful `Dequeue` and `HangUp`
while a task is in the queue, no state has a task in the queue while all workers are suspended in
`DATA_WAIT`, no update flag is pending and no notification is in progress. -/
theorem no_stranded_task {V P : Type*} [Inhabited V] [DecidableEq P] (n : ℕ) (hn : 0 < n) (size : ℕ)
    (hsize : size < 2 ^ 64) (es : List (Event V P n)) (s : State V P n)
    (h : exec step (init V P n size) es = some s) (hcalls : s.queue.mem.calls < 2 ^ 64)
    (hheard : AllSteps step Heard (init V P n size) es) : ¬Stranded s :=
  (exec_invariant_of_allSteps (Inv size)
    (fun _ _ _ hinv hheard hstep => hinv.step hsize hheard hstep) inv_init hheard h).not_stranded
    hcalls hn

/-- A processor starts a worker, and the worker finds the queue empty. -/
def findEmpty : List (Event ℕ Unit 1) :=
  [.acquire 0 false, .dequeue 0, .dequeueStep 0 false, .dequeueStep 0 false]

/-- A producer puts a task into the queue. -/
def publish : List (Event ℕ Unit 1) := .enqueue () 7 :: List.replicate 5 (.enqueueStep () false)

theorem no_stranded_task_of_hangUp :
    ∃ s, exec step (init ℕ Unit 1 1000)
        (findEmpty ++ [.hangUp 0] ++ publish ++ [.notify (), .notify ()]) = some s ∧
      s.queue.mem.HasElement ∧ ¬Stranded s :=
  exists_exec_mono (P := fun s => s.queue.mem.HasElement ∧ s.queue.mem.calls < 2 ^ 64)
    (by decide +kernel) fun s hs ⟨helement, hcalls⟩ => ⟨helement,
      no_stranded_task 1 (by decide) 1000 (by decide) _ s hs hcalls (by decide +kernel)⟩

/-- **A stranded task.** The worker has found the queue empty; a task arrives, and its notification
finds the worker `READY`; then the worker hangs up. -/
theorem stranded_before_hangUp :
    ∃ s, exec step (init ℕ Unit 1 1000)
        (findEmpty ++ publish ++ [.notify (), .notify (), .hangUp 0]) = some s ∧ Stranded s := by
  decide +kernel

end Cyber.TaskManager
