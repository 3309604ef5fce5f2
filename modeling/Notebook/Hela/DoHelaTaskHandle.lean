import Notebook.Hela.ResourceRefs

/-!
# The life of a batch

`DoHelaTaskHandle::Start` (`do_hela_task.cc`) arms two timers, a one-shot timer for the timeout of
the batch and a periodic one for its scheduling rounds. A round that finds all pc tasks at their end
marks the tasks of the batch, as done or as failed, and cancels both timers. The timeout marks all
of them as failed and cancels nothing: from then on the periodic timer fires for ever, and its
callback, which holds the handle, returns at once.

## Implementation notes

`CheckTaskListValid` and `CheckClusterVersion` do not touch the marks or the timers, and the pc
tasks of the batch are those of `ConstructHelaPcTask`. A cancelled timer does not fire any more,
also when it is cancelled by its own callback.
-/

open Interleaving Option

namespace Hela

/-! ### The marks of a task -/

/-- `PbHelaTaskStatus` -/
inductive HelaTaskStatus
  | ready | executing | done | fail
deriving DecidableEq, Repr

/-- The fields of a `HelaTask` that its batch writes. `R` are the routes to the pcs of a disk. -/
structure TaskMark (R : Type*) where
  status : HelaTaskStatus
  needRepair : Bool
  repairJob : Bool
  pcRouters : R
  repairPcRouters : R

namespace TaskMark

variable {R : Type*} (t : TaskMark R)

/-- `set_status_executing` -/
def setStatusExecuting : TaskMark R := { t with status := .executing }

/-- `set_status_fail` -/
def setStatusFail : TaskMark R := { t with status := .fail }

/-- What `SetAllTaskDone` does with a task. One that needs repair is ready again, as a repair job;
the setter of the routes swaps. -/
def setDone : TaskMark R :=
  if t.needRepair then
    { status := .ready
      needRepair := false
      repairJob := true
      pcRouters := t.repairPcRouters
      repairPcRouters := t.pcRouters }
  else { t with status := .done }

/-- `SetAllTaskDone` has been here. -/
def MarkedDone : Prop := t.status = .done ∨ t.status = .ready

theorem not_markedDone_setStatusFail : ¬t.setStatusFail.MarkedDone := by
  simp [MarkedDone, setStatusFail]

end TaskMark

/-! ### The handle -/

/-- A `DoHelaTaskHandle` with the tasks of its batch. `taskTimer` and `scheduleTimer` say that the
timers of `SetTaskTimer` and `SetScheduleTimer` are armed. -/
structure DoHelaTaskHandle (R : Type*) where
  handle : DoHelaTask
  taskList : List (TaskMark R)
  taskTimer : Bool
  scheduleTimer : Bool

namespace DoHelaTaskHandle

variable {R : Type*} {b : Batch} {h h' : DoHelaTaskHandle R}

/-- `CheckHelaTaskFinish` -/
def checkHelaTaskFinish (b : Batch) (h : DoHelaTaskHandle R) : DoHelaTaskHandle R :=
  if h.handle.finishNum = b.pcs.length then
    { handle := { h.handle with completed := true }
      taskList :=
        if h.handle.failNum ≠ 0 then h.taskList.map TaskMark.setStatusFail
        else h.taskList.map TaskMark.setDone
      taskTimer := false
      scheduleTimer := false }
  else h

/-- `ScheduleHelaPcTask` -/
def scheduleHelaPcTask (b : Batch) (localLc : ℕ → Option ℕ) (idun : Bool)
    (h : DoHelaTaskHandle R) : Option (DoHelaTaskHandle R) :=
  if h.handle.completed || h.handle.timeout then some h
  else
    (h.handle.concurence b).bind fun maxConcurenceNum =>
      let s := { h.handle with maxConcurenceNum }
      (DoHelaTask.scheduleLoop b (b.pcs.rotate s.scheduleIter) (s.canScheduleNum b).toNat s).map
        fun r => checkHelaTaskFinish b
          { h with handle := DoHelaTask.handleHelaPcTask localLc idun r.1 r.2 }

/-- `TaskTimeOut`. The timer has fired; the schedule timer is not cancelled. -/
def taskTimeOut (b : Batch) (h : DoHelaTaskHandle R) : DoHelaTaskHandle R :=
  { h with
    handle := h.handle.taskTimeOut b
    taskList := h.taskList.map TaskMark.setStatusFail
    taskTimer := false }

/-- `Start` -/
def start (b : Batch) (localLc : ℕ → Option ℕ) (idun : Bool) (taskList : List (TaskMark R)) :
    Option (DoHelaTaskHandle R) :=
  if taskList = [] then some ⟨.init b, [], false, false⟩
  else
    scheduleHelaPcTask b localLc idun
      ⟨.init b, taskList.map TaskMark.setStatusExecuting, true, true⟩

/-- One event. The callbacks of the timers only come while their timers are armed. -/
def step (b : Batch) (h : DoHelaTaskHandle R) : DoHelaTask.Event → Option (DoHelaTaskHandle R)
  | .schedule localLc idun =>
    if h.scheduleTimer then h.scheduleHelaPcTask b localLc idun else none
  | .taskTimeOut => if h.taskTimer then some (h.taskTimeOut b) else none
  | e => (h.handle.step b e).map fun s => { h with handle := s }

end DoHelaTaskHandle

/-! ### The flags of the handle -/

namespace DoHelaTask

variable {b : Batch} {s s' : DoHelaTask}

/-- The batch has neither been completed nor timed out in between. -/
structure SameFlags (s s' : DoHelaTask) : Prop where
  completed : s'.completed = s.completed
  timeout : s'.timeout = s.timeout

theorem SameFlags.trans {s₁ : DoHelaTask} (h : SameFlags s s₁) (h' : SameFlags s₁ s') :
    SameFlags s s' :=
  ⟨h'.completed.trans h.completed, h'.timeout.trans h.timeout⟩

theorem SameFlags.of_eq {s₁ : DoHelaTask} (h : SameFlags s₁ s')
    (hcompleted : s₁.completed = s.completed) (htimeout : s₁.timeout = s.timeout) :
    SameFlags s s' :=
  ⟨h.completed.trans hcompleted, h.timeout.trans htimeout⟩

theorem StartsAll.sameFlags {l hits : List ℕ} (h : StartsAll s l hits s') : SameFlags s s' := by
  induction h with
  | nil s => exact ⟨rfl, rfl⟩
  | cons head tail ih => exact SameFlags.trans ⟨head.completed, head.timeout⟩ ih

theorem sameFlags_handleHelaPcTask (localLc : ℕ → Option ℕ) (idun : Bool) (tasks : List ℕ)
    (s : DoHelaTask) : SameFlags s (handleHelaPcTask localLc idun tasks s) := by
  obtain ⟨l, rest, hits, s₁, -, hall, heq | ⟨hits', hall'⟩⟩ :=
    handleHelaPcTask_cases localLc idun tasks s
  · rw [heq]
    exact hall.sameFlags.trans ⟨rfl, rfl⟩
  · exact hall.sameFlags.trans hall'.sameFlags

theorem sameFlags_scheduleLoop {lap : List ℕ} {can : ℕ} {r : List ℕ × DoHelaTask}
    (h : scheduleLoop b lap can s = some r) (hlap : lap.Nodup) : SameFlags s r.2 :=
  scheduleLoop_invariant (I := fun _ s' => SameFlags s s') h hlap
    (fun _ _ hflags => hflags.trans ⟨rfl, rfl⟩) (fun _ _ _ _ _ _ hflags => hflags)
    (fun _ _ _ _ _ _ hflags => hflags.trans ⟨rfl, rfl⟩) ⟨rfl, rfl⟩

theorem sameFlags_handlePcTaskResult (b : Batch) (s : DoHelaTask) (pc : ℕ) (retcode : Retcode) :
    SameFlags s (s.handlePcTaskResult b pc retcode) := by
  rw [handlePcTaskResult]
  split
  · exact ⟨rfl, rfl⟩
  split
  · exact ⟨rfl, rfl⟩
  split
  · exact ⟨rfl, rfl⟩
  rw [decResourceRef_eq]
  cases retcode <;> exact ⟨rfl, rfl⟩

/-- The event belongs to a timer of the batch. -/
def Event.IsTimer : Event → Prop
  | .schedule .. => True
  | .taskTimeOut => True
  | _ => False

theorem sameFlags_step {e : Event} (he : ¬e.IsTimer) (h : step b s e = some s') :
    SameFlags s s' := by
  cases e with
  | schedule localLc idun => exact absurd trivial he
  | queryResponse query res =>
    obtain ⟨-, ⟨⟩⟩ := ite_none_right_eq_some.mp h
    cases res with
    | none => exact (startsAll_dispatchAll _ query).sameFlags.of_eq rfl rfl
    | some lcInfos => exact (startsAll_dispatchQueried _ _ query).sameFlags.of_eq rfl rfl
  | queryTimeout query =>
    obtain ⟨-, ⟨⟩⟩ := ite_none_right_eq_some.mp h
    exact (startsAll_dispatchAll _ query).sameFlags.of_eq rfl rfl
  | result pc retcode =>
    obtain ⟨-, ⟨⟩⟩ := ite_none_right_eq_some.mp h
    exact (sameFlags_handlePcTaskResult b _ pc retcode).of_eq rfl rfl
  | taskTimeOut => exact absurd trivial he

end DoHelaTask

namespace DoHelaTaskHandle

variable {R : Type*} {b : Batch} {h h' : DoHelaTaskHandle R} {localLc : ℕ → Option ℕ} {idun : Bool}

/-! ### The handle without timers -/

theorem handle_checkHelaTaskFinish (b : Batch) (h : DoHelaTaskHandle R) :
    (h.checkHelaTaskFinish b).handle = h.handle.checkHelaTaskFinish b := by
  rw [checkHelaTaskFinish, DoHelaTask.checkHelaTaskFinish]
  split <;> rfl

/-- A round of the open batch: the tasks are scheduled, and then the batch may be finished. -/
theorem scheduleHelaPcTask_eq_some (hround : h.scheduleHelaPcTask b localLc idun = some h')
    (hopen : h.handle.completed = false) (hopen' : h.handle.timeout = false) :
    ∃ s, DoHelaTask.SameFlags h.handle s ∧ h' = checkHelaTaskFinish b { h with handle := s } ∧
      h.handle.scheduleHelaPcTask b localLc idun = some (s.checkHelaTaskFinish b) := by
  have hnot : ¬(h.handle.completed || h.handle.timeout) = true := by simp [hopen, hopen']
  rw [scheduleHelaPcTask, if_neg hnot] at hround
  obtain ⟨num, hnum, hround⟩ := bind_eq_some_iff.mp hround
  obtain ⟨r, hloop, rfl⟩ := map_eq_some_iff.mp hround
  refine ⟨DoHelaTask.handleHelaPcTask localLc idun r.1 r.2, ?_, rfl, ?_⟩
  · exact ((DoHelaTask.sameFlags_scheduleLoop hloop (List.nodup_rotate.mpr b.nodup)).trans
      (DoHelaTask.sameFlags_handleHelaPcTask localLc idun r.1 r.2)).of_eq rfl rfl
  · rw [DoHelaTask.scheduleHelaPcTask, if_neg hnot, hnum, bind_some]
    exact congrArg (Option.map _) hloop

theorem handle_scheduleHelaPcTask (hround : h.scheduleHelaPcTask b localLc idun = some h') :
    h.handle.scheduleHelaPcTask b localLc idun = some h'.handle := by
  by_cases hend : (h.handle.completed || h.handle.timeout) = true
  · rw [scheduleHelaPcTask, if_pos hend] at hround
    rw [DoHelaTask.scheduleHelaPcTask, if_pos hend]
    exact congrArg (Option.map DoHelaTaskHandle.handle) hround
  · simp only [Bool.or_eq_true, not_or, Bool.not_eq_true] at hend
    obtain ⟨s, -, rfl, heq⟩ := scheduleHelaPcTask_eq_some hround hend.1 hend.2
    rw [heq, handle_checkHelaTaskFinish]

/-! ### The phases of a batch -/

/-- Where a batch is in its life, and what that says about its timers. -/
inductive Phase (h : DoHelaTaskHandle R) : Prop
  /-- The batch goes on. -/
  | active (completed : h.handle.completed = false) (timeout : h.handle.timeout = false)
      (taskTimer : h.taskTimer = true) (scheduleTimer : h.scheduleTimer = true)
  /-- A round has found all pc tasks at their end. -/
  | completed (completed : h.handle.completed = true) (timeout : h.handle.timeout = false)
      (taskTimer : h.taskTimer = false) (scheduleTimer : h.scheduleTimer = false)
  /-- The timeout came first. -/
  | timedOut (completed : h.handle.completed = false) (timeout : h.handle.timeout = true)
      (taskTimer : h.taskTimer = false) (scheduleTimer : h.scheduleTimer = true)

theorem phase_checkHelaTaskFinish (hopen : h.handle.completed = false)
    (hopen' : h.handle.timeout = false) (htimer : h.taskTimer = true)
    (htimer' : h.scheduleTimer = true) : Phase (h.checkHelaTaskFinish b) := by
  rw [checkHelaTaskFinish]
  split
  · exact .completed rfl hopen' rfl rfl
  · exact .active hopen hopen' htimer htimer'

theorem Phase.scheduleHelaPcTask (hphase : Phase h)
    (hround : h.scheduleHelaPcTask b localLc idun = some h') : Phase h' := by
  cases hphase with
  | active hopen hopen' htimer htimer' =>
    obtain ⟨s, hflags, rfl, -⟩ := scheduleHelaPcTask_eq_some hround hopen hopen'
    exact phase_checkHelaTaskFinish (hflags.completed.trans hopen) (hflags.timeout.trans hopen')
      htimer htimer'
  | completed hend htimeout htimer htimer' =>
    rw [DoHelaTaskHandle.scheduleHelaPcTask, if_pos (by simp [hend])] at hround
    exact some.inj hround ▸ .completed hend htimeout htimer htimer'
  | timedOut hopen hend htimer htimer' =>
    rw [DoHelaTaskHandle.scheduleHelaPcTask, if_pos (by simp [hend])] at hround
    exact some.inj hround ▸ .timedOut hopen hend htimer htimer'

theorem Phase.of_sameFlags {s : DoHelaTask} (hphase : Phase h)
    (hflags : DoHelaTask.SameFlags h.handle s) : Phase { h with handle := s } := by
  cases hphase with
  | active hopen hopen' htimer htimer' =>
    exact .active (hflags.completed.trans hopen) (hflags.timeout.trans hopen') htimer htimer'
  | completed hend htimeout htimer htimer' =>
    exact .completed (hflags.completed.trans hend) (hflags.timeout.trans htimeout) htimer htimer'
  | timedOut hopen hend htimer htimer' =>
    exact .timedOut (hflags.completed.trans hopen) (hflags.timeout.trans hend) htimer htimer'

theorem Phase.open_of_taskTimer (hphase : Phase h) (htimer : h.taskTimer = true) :
    h.handle.completed = false ∧ h.handle.timeout = false ∧ h.scheduleTimer = true := by
  cases hphase with
  | active hopen hopen' _ htimer' => exact ⟨hopen, hopen', htimer'⟩
  | completed _ _ hfired _ => exact absurd (hfired.symm.trans htimer) Bool.false_ne_true
  | timedOut _ _ hfired _ => exact absurd (hfired.symm.trans htimer) Bool.false_ne_true

variable {e : DoHelaTask.Event}

theorem step_eq_some (hstep : step b h e = some h') :
    (∃ localLc idun, e = .schedule localLc idun ∧ h.scheduleTimer = true ∧
        h.scheduleHelaPcTask b localLc idun = some h') ∨
      (e = .taskTimeOut ∧ h.taskTimer = true ∧ h' = h.taskTimeOut b) ∨
      ∃ s, ¬e.IsTimer ∧ h.handle.step b e = some s ∧ h' = { h with handle := s } := by
  have hother : ¬e.IsTimer → (h.handle.step b e).map (fun s => { h with handle := s }) = some h' →
      ∃ s, ¬e.IsTimer ∧ h.handle.step b e = some s ∧ h' = { h with handle := s } := by
    intro he hmap
    obtain ⟨s, hs, rfl⟩ := map_eq_some_iff.mp hmap
    exact ⟨s, he, hs, rfl⟩
  cases e with
  | schedule localLc idun =>
    obtain ⟨harmed, hround⟩ := ite_none_right_eq_some.mp hstep
    exact Or.inl ⟨localLc, idun, rfl, harmed, hround⟩
  | taskTimeOut =>
    obtain ⟨harmed, heq⟩ := ite_none_right_eq_some.mp hstep
    exact Or.inr (Or.inl ⟨rfl, harmed, (some.inj heq).symm⟩)
  | queryResponse | queryTimeout | result => exact Or.inr (Or.inr (hother id hstep))

theorem Phase.step (hphase : Phase h) (hstep : step b h e = some h') : Phase h' := by
  obtain ⟨localLc, idun, rfl, -, hround⟩ | ⟨rfl, harmed, rfl⟩ | ⟨s, he, hs, rfl⟩ :=
    step_eq_some hstep
  · exact hphase.scheduleHelaPcTask hround
  · obtain ⟨hopen, -, htimer⟩ := hphase.open_of_taskTimer harmed
    exact .timedOut hopen rfl rfl htimer
  · exact hphase.of_sameFlags (DoHelaTask.sameFlags_step he hs)

theorem Phase.handle_step (hphase : Phase h)
    (hstep : DoHelaTaskHandle.step b h e = some h') : h.handle.step b e = some h'.handle := by
  obtain ⟨localLc, idun, rfl, -, hround⟩ | ⟨rfl, harmed, rfl⟩ | ⟨s, he, hs, rfl⟩ :=
    step_eq_some hstep
  · exact handle_scheduleHelaPcTask hround
  · obtain ⟨hopen, hopen', -⟩ := hphase.open_of_taskTimer harmed
    exact if_neg (by simp [hopen, hopen'])
  · exact hs

/-! ### Runs from `Start` -/

section Run

variable {taskList : List (TaskMark R)} {h₀ : DoHelaTaskHandle R} {es : List DoHelaTask.Event}

theorem phase_start (hne : taskList ≠ []) (hstart : start b localLc idun taskList = some h₀) :
    Phase h₀ := by
  rw [start, if_neg hne] at hstart
  exact Phase.scheduleHelaPcTask (.active rfl rfl rfl rfl) hstart

/-- **The phases of a run.** -/
theorem phase_of_exec (hphase : Phase h) (hrun : exec (step b) h es = some h') : Phase h' :=
  exec_invariant Phase (fun _ _ _ hphase hstep => hphase.step hstep) hphase hrun

/-- **Refinement.** A run of the handle with its timers is a run of the handle without them, in
which the first round is an event of its own. -/
theorem exec_handle (hne : taskList ≠ []) (hstart : start b localLc idun taskList = some h₀)
    (hrun : exec (step b) h₀ es = some h) :
    exec (DoHelaTask.step b) (.init b) (.schedule localLc idun :: es) = some h.handle := by
  have hphase := phase_start hne hstart
  rw [start, if_neg hne] at hstart
  refine exec_cons_eq_some.mpr ⟨h₀.handle, handle_scheduleHelaPcTask hstart, ?_⟩
  clear hstart
  induction es generalizing h₀ with
  | nil => exact congrArg (Option.map DoHelaTaskHandle.handle) hrun
  | cons e es ih =>
    obtain ⟨h₁, hstep, hrun⟩ := exec_cons_eq_some.mp hrun
    exact exec_cons_eq_some.mpr ⟨h₁.handle, hphase.handle_step hstep, ih hrun (hphase.step hstep)⟩

theorem Phase.exec_ticks (hphase : Phase h) (htimeout : h.handle.timeout = true)
    (localLc : ℕ → Option ℕ) (idun : Bool) (n : ℕ) :
    exec (DoHelaTaskHandle.step b) h (List.replicate n (.schedule localLc idun)) = some h := by
  have htimer : h.scheduleTimer = true := by
    cases hphase with
    | active _ hopen _ _ => exact absurd (hopen.symm.trans htimeout) Bool.false_ne_true
    | completed _ hopen _ _ => exact absurd (hopen.symm.trans htimeout) Bool.false_ne_true
    | timedOut _ _ _ htimer => exact htimer
  have htick : DoHelaTaskHandle.step b h (.schedule localLc idun) = some h := by
    rw [DoHelaTaskHandle.step, if_pos htimer, DoHelaTaskHandle.scheduleHelaPcTask,
      if_pos (by simp [htimeout])]
  induction n with
  | zero => rfl
  | succ n ih => exact exec_cons_eq_some.mpr ⟨h, htick, ih⟩

/-- **The timers of a batch.** Once a batch has been completed or has timed out, both timers are
released exactly if it has not timed out. After its timeout the periodic timer is armed, and fires
for ever without any effect. -/
theorem timers_released_iff (hne : taskList ≠ [])
    (hstart : start b localLc idun taskList = some h₀) (hrun : exec (step b) h₀ es = some h)
    (hend : h.handle.completed = true ∨ h.handle.timeout = true) :
    (h.taskTimer = false ∧ h.scheduleTimer = false ↔ h.handle.timeout = false) ∧
      (h.handle.timeout = true → h.scheduleTimer = true ∧ ∀ localLc idun n,
        exec (step b) h (List.replicate n (.schedule localLc idun)) = some h) := by
  have hphase := phase_of_exec (phase_start hne hstart) hrun
  have hticks := fun htimeout => hphase.exec_ticks (b := b) htimeout
  cases hphase with
  | active hopen hopen' _ _ => simp [hopen, hopen'] at hend
  | completed _ htimeout htimer htimer' => simp [htimeout, htimer, htimer']
  | timedOut _ htimeout htimer htimer' =>
    refine ⟨by simp [htimeout, htimer'], fun _ => ⟨htimer', hticks htimeout⟩⟩

end Run

/-- A batch for one disk. -/
def oneDisk : List (TaskMark Unit) := [⟨.ready, false, false, (), ()⟩]

/-- The only pc is read from a local chunk, and a round completes the batch. -/
theorem timers_released_completed :
    ∃ h₀ ∈ start DoHelaTask.onePc (fun _ => some 7) true oneDisk, ∃ h,
      exec (step DoHelaTask.onePc) h₀
        [.result 0 .success, .schedule (fun _ => none) true] = some h ∧
      h.handle.completed = true ∧ h.taskTimer = false ∧ h.scheduleTimer = false := by
  obtain ⟨h₀, hstart, hrun⟩ : ∃ h₀ ∈ start DoHelaTask.onePc (fun _ => some 7) true oneDisk, ∃ h,
      exec (step DoHelaTask.onePc) h₀ [.result 0 .success, .schedule (fun _ => none) true] =
        some h ∧ h.handle.completed = true ∧ h.handle.timeout = false := by decide +kernel
  refine ⟨h₀, hstart, exists_exec_mono hrun fun h hrun ⟨hcompleted, htimeout⟩ => ⟨hcompleted, ?_⟩⟩
  exact (timers_released_iff (List.cons_ne_nil _ _) hstart hrun (.inl hcompleted)).1.mpr htimeout

/-- The timeout comes before the result, and the schedule timer stays armed. -/
theorem schedule_timer_armed_after_timeout :
    ∃ h₀ ∈ start DoHelaTask.onePc (fun _ => some 7) true oneDisk, ∃ h,
      exec (step DoHelaTask.onePc) h₀ [.taskTimeOut] = some h ∧
      h.handle.timeout = true ∧ h.scheduleTimer = true := by
  decide +kernel

end DoHelaTaskHandle

end Hela
