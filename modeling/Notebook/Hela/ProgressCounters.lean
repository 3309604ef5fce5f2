import Notebook.Hela.DoHelaTaskHandle

/-!
# The progress counters of a batch

The handle of a batch counts the pc tasks that run, that have ended and that have failed. The
counters and the statuses are written in different places: a dispatch increments `t_running_num_`,
a result decrements it. A task whose source is unavailable is dispatched again, with the koala
source. It has not stopped running, and is counted a second time.

## Main definitions

* `Counted` — the counters agree with the statuses, up to some running tasks too many.
* `FallsBack` — the source of a running task is unavailable.

## Main results

* `Counted.step` — a task that falls back is counted once more, and nothing else goes wrong.
* `marked_of_exec` — a batch is only marked as done when all its pc tasks are.
* `progress_counters_iff` — when `t_running_num_` is the number of running tasks.
-/

open Container Interleaving Function List Option

namespace Hela

namespace TaskStatus

variable (t : TaskStatus)

/-- `status_running` -/
def isRunning : Bool := t = .running

/-- The task has ended. -/
def isFinished : Bool := t = .done ∨ t = .fail

/-- `status_fail` -/
def isFail : Bool := t = .fail

/-- The task waits to be dispatched. -/
def Waits : Prop := t = .ready ∨ t = .query

theorem Waits.not_counted {t : TaskStatus} (h : t.Waits) :
    t.isRunning = false ∧ t.isFinished = false ∧ t.isFail = false := by
  rcases h with rfl | rfl <;> decide

end TaskStatus

namespace DoHelaTask

variable {b : Batch} {s s' : DoHelaTask} {pc : ℕ} {l : List ℕ} {extra extra' : ℤ}

/-! ### Counting statuses -/

/-- The number of pc tasks with a status of some kind. -/
def statusCount (b : Batch) (s : DoHelaTask) (p : TaskStatus → Bool) : ℕ :=
  b.pcs.countP fun pc => p (s.task pc).status

theorem statusCount_update {t : HelaPcTask} (hpc : pc ∈ b.pcs)
    (htask : s'.task = update s.task pc t) (p : TaskStatus → Bool) :
    (s'.statusCount b p : ℤ) =
      s.statusCount b p + (p t.status).toNat - (p (s.task pc).status).toNat := by
  have hcount := countP_update b.nodup hpc s.task t fun t => p t.status
  rw [statusCount, statusCount, htask]
  omega

/-- The counters agree with the statuses, except that `extra` tasks too many are counted as
running. -/
structure Counted (b : Batch) (s : DoHelaTask) (extra : ℤ) : Prop where
  running : s.runningNum = s.statusCount b TaskStatus.isRunning + extra
  finish : s.finishNum = s.statusCount b TaskStatus.isFinished
  fail : s.failNum = s.statusCount b TaskStatus.isFail

theorem Counted.of_eq (h : Counted b s extra) (htask : s'.task = s.task)
    (hrunning : s'.runningNum = s.runningNum) (hfinish : s'.finishNum = s.finishNum)
    (hfail : s'.failNum = s.failNum) : Counted b s' extra := by
  have hcount : ∀ p, s'.statusCount b p = s.statusCount b p := by
    intro p
    rw [statusCount, htask, statusCount]
  exact ⟨by rw [hrunning, hcount, h.running], by rw [hfinish, hcount, h.finish],
    by rw [hfail, hcount, h.fail]⟩

theorem Counted.update {t : HelaPcTask} (h : Counted b s extra) (hpc : pc ∈ b.pcs)
    (htask : s'.task = update s.task pc t)
    (hrunning : s'.runningNum = s.runningNum + (t.status.isRunning.toNat : ℤ) -
      ((s.task pc).status.isRunning.toNat : ℤ) + (extra' - extra))
    (hfinish : s'.finishNum = s.finishNum + (t.status.isFinished.toNat : ℤ) -
      ((s.task pc).status.isFinished.toNat : ℤ))
    (hfail : s'.failNum = s.failNum + (t.status.isFail.toNat : ℤ) -
      ((s.task pc).status.isFail.toNat : ℤ)) : Counted b s' extra' := by
  refine ⟨?_, ?_, ?_⟩
  · rw [hrunning, statusCount_update hpc htask, h.running]
    omega
  · rw [hfinish, statusCount_update hpc htask, h.finish]
  · rw [hfail, statusCount_update hpc htask, h.fail]

/-! ### Dispatching -/

theorem Starts.counted {hits : List ℕ} (hstart : Starts s pc hits s') (hpc : pc ∈ b.pcs)
    (hwaits : (s.task pc).status.Waits) (h : Counted b s extra) : Counted b s' extra := by
  obtain ⟨t, htask, hrunning, -⟩ := hstart.task
  obtain ⟨hnotRunning, hnotFinished, hnotFail⟩ := hwaits.not_counted
  refine h.update hpc htask ?_ ?_ ?_
  · rw [hstart.runningNum, hrunning, hnotRunning]
    simp [TaskStatus.isRunning]
  · rw [hstart.finishNum, hrunning, hnotFinished]
    simp [TaskStatus.isFinished]
  · rw [hstart.failNum, hrunning, hnotFail]
    simp [TaskStatus.isFail]

theorem StartsAll.counted {hits acc : List ℕ} (hall : StartsAll s l hits s')
    (hs : s.timeout = false) (hw : Waiting b s (l ++ acc)) (h : Counted b s extra) :
    Counted b s' extra := by
  induction hall with
  | nil s => exact h
  | cons head tail ih =>
    have hs₁ := head.timeout.trans hs
    exact ih hs₁ ((head.waiting fun _ => hw).1 hs₁)
      (head.counted (hw.mem _ mem_cons_self) (hw.waits _ mem_cons_self) h)

theorem Waiting.statusCount_queryIdunResource (hw : Waiting b s l) {p : TaskStatus → Bool}
    (hp : ∀ t : TaskStatus, t.Waits → p t = false) :
    (s.queryIdunResource l).statusCount b p = s.statusCount b p := by
  refine countP_congr fun pc _ => ?_
  by_cases hl : pc ∈ l
  · rw [task_queryIdunResource_of_mem hl, hp _ (hw.waits pc hl), hp _ (Or.inr rfl)]
  · rw [task_queryIdunResource_of_notMem hl]

theorem Waiting.counted_queryIdunResource (hw : Waiting b s l) (h : Counted b s extra) :
    Counted b (s.queryIdunResource l) extra := by
  refine ⟨?_, ?_, ?_⟩
  · rw [hw.statusCount_queryIdunResource fun t ht => ht.not_counted.1]
    exact h.running
  · rw [hw.statusCount_queryIdunResource fun t ht => ht.not_counted.2.1]
    exact h.finish
  · rw [hw.statusCount_queryIdunResource fun t ht => ht.not_counted.2.2]
    exact h.fail

theorem Waiting.counted_handleHelaPcTask (localLc : ℕ → Option ℕ) (idun : Bool)
    (hw : Waiting b s l) (hs : s.timeout = false) (h : Counted b s extra) :
    Counted b (DoHelaTask.handleHelaPcTask localLc idun l s) extra := by
  obtain ⟨l₁, rest, hits, s₁, hperm, hall, hrest⟩ := handleHelaPcTask_cases localLc idun l s
  have hs₁ := hall.timeout.trans hs
  have hw₁ := (hall.waiting fun _ => hw.perm hperm).1 hs₁
  have h₁ := hall.counted hs (hw.perm hperm) h
  rcases hrest with heq | ⟨hits', hall'⟩
  · rw [heq]
    exact hw₁.counted_queryIdunResource h₁
  · exact hall'.counted hs₁ (hw₁.perm (.of_eq (append_nil rest).symm)) h₁

/-! ### A scheduling round -/

theorem counted_finishEmpty (hpc : pc ∈ b.pcs) (hready : (s.task pc).status = .ready)
    (h : Counted b s extra) : Counted b (s.finishEmpty pc) extra := by
  refine h.update (t := { s.task pc with status := .done }) hpc rfl ?_ ?_ ?_
  · rw [hready]
    simp [finishEmpty, setTask, TaskStatus.isRunning]
  · rw [hready]
    simp [finishEmpty, TaskStatus.isFinished]
  · rw [hready]
    simp [finishEmpty, setTask, TaskStatus.isFail]

theorem counted_scheduleLoop {lap : List ℕ} {can : ℕ} {r : List ℕ × DoHelaTask}
    (hloop : scheduleLoop b lap can s = some r) (hlap : ∀ pc ∈ lap, pc ∈ b.pcs)
    (hnodup : lap.Nodup) (h : Counted b s extra) : Counted b r.2 extra :=
  scheduleLoop_invariant (I := fun _ s => Counted b s extra) hloop hnodup
    (fun _ _ h => h.of_eq rfl rfl rfl rfl) (fun _ _ _ _ _ _ h => h)
    (fun _ _ pc hpc _ hready h => counted_finishEmpty (hlap pc hpc) hready h) h

theorem counted_checkHelaTaskFinish :
    Counted b (s.checkHelaTaskFinish b) extra ↔ Counted b s extra := by
  rw [checkHelaTaskFinish]
  split
  · exact ⟨fun h => h.of_eq rfl rfl rfl rfl, fun h => h.of_eq rfl rfl rfl rfl⟩
  · exact Iff.rfl

theorem counted_scheduleHelaPcTask {localLc : ℕ → Option ℕ} {idun : Bool}
    (hround : s.scheduleHelaPcTask b localLc idun = some s') (hc : Consistent b s)
    (hs : s.timeout = false) (h : Counted b s extra) : Counted b s' extra := by
  rw [scheduleHelaPcTask] at hround
  split_ifs at hround with hend
  · exact some.inj hround ▸ h
  · obtain ⟨num, -, hround⟩ := bind_eq_some_iff.mp hround
    obtain ⟨⟨tasks, s₁⟩, hloop, rfl⟩ := map_eq_some_iff.mp hround
    have hc' : Consistent b { s with maxConcurenceNum := num } := hc.of_eq rfl rfl rfl
    obtain ⟨hs₁, hw₁, -⟩ := hc'.waiting_round hs hloop
    have h₁ := counted_scheduleLoop hloop (fun _ => mem_rotate.mp)
      (nodup_rotate.mpr b.nodup) (h.of_eq rfl rfl rfl rfl)
    exact counted_checkHelaTaskFinish.mpr (hw₁.counted_handleHelaPcTask localLc idun hs₁ h₁)

theorem Consistent.counted_answered {query hits : List ℕ} (hc : Consistent b s)
    (hs : s.timeout = false) (hquery : query ∈ s.queries) (h : Counted b s extra)
    (hall : StartsAll { s with queries := s.queries.erase query } query hits s') :
    Counted b s' extra :=
  hall.counted hs ((hc.waiting_erase hquery).perm (.of_eq (append_nil query).symm))
    (h.of_eq rfl rfl rfl rfl)

/-! ### Results -/

/-- The source of a running task is unavailable, and the task is dispatched again. -/
def FallsBack (b : Batch) (s : DoHelaTask) (e : Event) : Prop :=
  s.timeout = false ∧ ∃ pc, e = .result pc .sourceUnavailable ∧ pc ∈ b.pcs ∧
    (s.task pc).status = .running

theorem handlePcTaskResult_of_not_running
    (hnot : ¬(pc ∈ b.pcs ∧ (s.task pc).status = .running)) (retcode : Retcode) :
    { s with dispatched := s.dispatched.erase pc }.handlePcTaskResult b pc retcode =
      { s with dispatched := s.dispatched.erase pc } := by
  rw [handlePcTaskResult]
  split
  · rfl
  split
  · rfl
  next hpc => exact if_pos fun hrunning => hnot ⟨not_not.mp hpc, hrunning⟩

/-- A result whose source is unavailable leaves one running task too many. -/
theorem counted_handlePcTaskResult (retcode : Retcode) (hs : s.timeout = false)
    (hpc : pc ∈ b.pcs) (hrunning : (s.task pc).status = .running) (h : Counted b s extra) :
    Counted b (s.handlePcTaskResult b pc retcode)
      (extra + if retcode = .sourceUnavailable then 1 else 0) := by
  rw [handlePcTaskResult, if_neg (by simp [hs]), if_neg (not_not.mpr hpc),
    if_neg (not_not.mpr hrunning), decResourceRef_eq]
  cases retcode with
  | success =>
    refine h.update (t := { s.task pc with status := .done }) hpc rfl ?_ ?_ ?_
    · rw [hrunning]
      simp [TaskStatus.isRunning]
    · rw [hrunning]
      simp [TaskStatus.isFinished]
    · rw [hrunning]
      simp [setTask, TaskStatus.isFail]
  | sourceUnavailable =>
    -- the task runs before and after, and is counted once more
    refine h.update (t := { s.task pc with srcType := .koala, status := .running }) hpc ?_ ?_ ?_ ?_
    · simp [dispatchHelaPcTask, setTask]
    · rw [hrunning]
      simp [dispatchHelaPcTask, setTask, TaskStatus.isRunning]
    · rw [hrunning]
      simp [dispatchHelaPcTask, setTask]
    · rw [hrunning]
      simp [dispatchHelaPcTask, setTask]
  | fail =>
    refine h.update (t := { s.task pc with status := .fail }) hpc rfl ?_ ?_ ?_
    · rw [hrunning]
      simp [TaskStatus.isRunning]
    · rw [hrunning]
      simp [TaskStatus.isFinished]
    · rw [hrunning]
      simp [TaskStatus.isFail]

/-- **One event.** The counters follow the statuses, and a task that falls back is counted once
more. -/
theorem Counted.step {e : Event} (h : Counted b s extra) (hc : Consistent b s)
    (hs : s.timeout = false) (hs' : s'.timeout = false) (hstep : step b s e = some s') :
    (¬FallsBack b s e → Counted b s' extra) ∧ (FallsBack b s e → Counted b s' (extra + 1)) := by
  have hother : (∀ pc, e ≠ .result pc .sourceUnavailable) → Counted b s' extra →
      (¬FallsBack b s e → Counted b s' extra) ∧ (FallsBack b s e → Counted b s' (extra + 1)) := by
    intro hne h'
    refine ⟨fun _ => h', ?_⟩
    rintro ⟨-, pc, heq, -⟩
    exact absurd heq (hne pc)
  cases e with
  | schedule localLc idun =>
    exact hother (fun _ => by simp) (counted_scheduleHelaPcTask hstep hc hs h)
  | queryResponse query res =>
    obtain ⟨hquery, ⟨⟩⟩ := ite_none_right_eq_some.mp hstep
    refine hother (fun _ => by simp) ?_
    cases res with
    | none => exact hc.counted_answered hs hquery h (startsAll_dispatchAll _ query)
    | some lcInfos => exact hc.counted_answered hs hquery h (startsAll_dispatchQueried _ _ query)
  | queryTimeout query =>
    obtain ⟨hquery, ⟨⟩⟩ := ite_none_right_eq_some.mp hstep
    exact hother (fun _ => by simp)
      (hc.counted_answered hs hquery h (startsAll_dispatchAll _ query))
  | result pc retcode =>
    obtain ⟨-, ⟨⟩⟩ := ite_none_right_eq_some.mp hstep
    by_cases hrunning : pc ∈ b.pcs ∧ (s.task pc).status = .running
    · have h' := counted_handlePcTaskResult (s := { s with dispatched := s.dispatched.erase pc })
        retcode hs hrunning.1 hrunning.2 (h.of_eq rfl rfl rfl rfl)
      by_cases hret : retcode = .sourceUnavailable
      · subst hret
        exact ⟨fun hnot => absurd ⟨hs, pc, rfl, hrunning⟩ hnot, fun _ => h'⟩
      · rw [if_neg hret, add_zero] at h'
        exact hother (fun _ heq => hret (Event.result.inj heq).2) h'
    · rw [handlePcTaskResult_of_not_running hrunning]
      refine ⟨fun _ => h.of_eq rfl rfl rfl rfl, ?_⟩
      rintro ⟨-, pc', heq, hrunning'⟩
      obtain ⟨rfl, -⟩ := Event.result.inj heq
      exact absurd hrunning' hrunning
  | taskTimeOut =>
    obtain ⟨-, ⟨⟩⟩ := ite_none_left_eq_some.mp hstep
    exact absurd hs' (by simp [DoHelaTask.taskTimeOut])

/-! ### The end of a batch -/

theorem Counted.all_done (h : Counted b s extra) (hfinish : s.finishNum = b.pcs.length)
    (hfail : s.failNum = 0) : ∀ pc ∈ b.pcs, (s.task pc).status = .done := by
  intro pc hpc
  have hall : s.statusCount b TaskStatus.isFinished = b.pcs.length := by
    rw [h.finish] at hfinish
    exact Int.ofNat.inj hfinish
  have hnone : s.statusCount b TaskStatus.isFail = 0 := by
    rw [h.fail] at hfail
    exact Int.ofNat.inj hfail
  have hfinished := countP_eq_length.mp hall pc hpc
  have hnotFail := countP_eq_zero.mp hnone pc hpc
  simp only [TaskStatus.isFinished, TaskStatus.isFail, decide_eq_true_eq] at hfinished hnotFail
  exact hfinished.resolve_right hnotFail

theorem task_step_of_done {e : Event} (he : ¬e.IsTimer) (hc : Consistent b s)
    (hdone : ∀ pc ∈ b.pcs, (s.task pc).status = .done) (hstep : step b s e = some s') :
    s'.task = s.task := by
  -- a query without an answer would have tasks that wait
  have hempty : ∀ query ∈ s.queries, query = [] := by
    refine fun query hquery => eq_nil_iff_forall_not_mem.mpr fun pc hpc => ?_
    obtain ⟨hmem, hstatus⟩ := hc.query pc (mem_flatten.mpr ⟨query, hquery, hpc⟩)
    exact absurd ((hdone pc hmem).symm.trans hstatus) (by decide)
  cases e with
  | schedule localLc idun => exact absurd trivial he
  | queryResponse query res =>
    obtain ⟨hquery, ⟨⟩⟩ := ite_none_right_eq_some.mp hstep
    obtain rfl := hempty query hquery
    cases res <;> rfl
  | queryTimeout query =>
    obtain ⟨hquery, ⟨⟩⟩ := ite_none_right_eq_some.mp hstep
    obtain rfl := hempty query hquery
    rfl
  | result pc retcode =>
    obtain ⟨-, ⟨⟩⟩ := ite_none_right_eq_some.mp hstep
    have hnot : ¬(pc ∈ b.pcs ∧ (s.task pc).status = .running) := by
      rintro ⟨hpc, hrunning⟩
      exact absurd ((hdone pc hpc).symm.trans hrunning) (by decide)
    rw [handlePcTaskResult_of_not_running hnot]
  | taskTimeOut => exact absurd trivial he

theorem counted_init (b : Batch) : Counted b (init b) 0 := by
  have hzero : ∀ p : TaskStatus → Bool, p .ready = false → (init b).statusCount b p = 0 := by
    intro p hp
    exact countP_eq_zero.mpr fun pc _ => by simp [init, HelaPcTask.new, hp]
  exact ⟨by rw [hzero _ rfl]; rfl, by rw [hzero _ rfl]; rfl, by rw [hzero _ rfl]; rfl⟩

end DoHelaTask

/-! ### Runs from `Start` -/

namespace DoHelaTaskHandle

variable {R : Type*} {b : Batch} {h h' : DoHelaTaskHandle R} {e : DoHelaTask.Event} {extra : ℤ}

/-- Until its timeout the batch is consistent, and its counters agree up to `extra` tasks. -/
structure Tallied (b : Batch) (h : DoHelaTaskHandle R) (extra : ℤ) : Prop where
  phase : Phase h
  consistent : h.handle.timeout = false → DoHelaTask.Consistent b h.handle
  counted : h.handle.timeout = false → DoHelaTask.Counted b h.handle extra

theorem timeout_eq_false_of_step (hstep : step b h e = some h')
    (htimeout : h'.handle.timeout = false) : h.handle.timeout = false := by
  by_contra hnot
  rw [Bool.not_eq_false] at hnot
  obtain ⟨localLc, idun, rfl, -, hround⟩ | ⟨rfl, -, rfl⟩ | ⟨s, he, hs, rfl⟩ := step_eq_some hstep
  · rw [scheduleHelaPcTask, if_pos (by simp [hnot])] at hround
    obtain rfl := some.inj hround
    exact absurd (hnot.symm.trans htimeout) (by decide)
  · exact absurd htimeout (by simp [taskTimeOut, DoHelaTask.taskTimeOut])
  · have hsame := (DoHelaTask.sameFlags_step he hs).timeout
    exact absurd (hnot.symm.trans (hsame.symm.trans htimeout)) (by decide)

theorem Tallied.step_of_not_fallsBack (htallied : Tallied b h extra)
    (hstep : step b h e = some h') (hnot : ¬h.handle.FallsBack b e) : Tallied b h' extra := by
  have hhandle := htallied.phase.handle_step hstep
  refine ⟨htallied.phase.step hstep, (DoHelaTask.excess_step hhandle htallied.consistent).1,
    fun htimeout => ?_⟩
  have hopen := timeout_eq_false_of_step hstep htimeout
  exact ((htallied.counted hopen).step (htallied.consistent hopen) hopen htimeout hhandle).1 hnot

theorem Tallied.step_of_fallsBack (htallied : Tallied b h extra)
    (hstep : step b h e = some h') (hfalls : h.handle.FallsBack b e) :
    h'.handle.timeout = false ∧ Tallied b h' (extra + 1) := by
  have hhandle := htallied.phase.handle_step hstep
  have hopen := hfalls.1
  obtain ⟨pc, rfl, -⟩ := hfalls.2
  have htimeout : h'.handle.timeout = false :=
    (DoHelaTask.sameFlags_step id hhandle).timeout.trans hopen
  exact ⟨htimeout, htallied.phase.step hstep,
    (DoHelaTask.excess_step hhandle htallied.consistent).1, fun _ =>
      ((htallied.counted hopen).step (htallied.consistent hopen) hopen htimeout hhandle).2 hfalls⟩

theorem tallied_armed (b : Batch) (taskList : List (TaskMark R)) :
    Tallied b ⟨.init b, taskList.map TaskMark.setStatusExecuting, true, true⟩ 0 :=
  ⟨.active rfl rfl rfl rfl, fun _ => DoHelaTask.consistent_init b,
    fun _ => DoHelaTask.counted_init b⟩

theorem tallied_start {localLc : ℕ → Option ℕ} {idun : Bool} {taskList : List (TaskMark R)}
    (hne : taskList ≠ []) (hstart : start b localLc idun taskList = some h) : Tallied b h 0 := by
  have hphase := phase_start hne hstart
  rw [start, if_neg hne] at hstart
  have hround := handle_scheduleHelaPcTask hstart
  have harmed := tallied_armed b taskList
  refine ⟨hphase, (DoHelaTask.consistent_scheduleHelaPcTask hround harmed.consistent).1,
    fun _ => ?_⟩
  exact DoHelaTask.counted_scheduleHelaPcTask hround (harmed.consistent rfl) rfl
    (harmed.counted rfl)

/-- The tasks of the batch are marked as done only when all its pc tasks are. -/
def MarksSound (b : Batch) (h : DoHelaTaskHandle R) : Prop :=
  (∃ t ∈ h.taskList, t.MarkedDone) →
    h.handle.completed = true ∧ ∀ pc ∈ b.pcs, (h.handle.task pc).status = .done

theorem marksSound_of_forall_not (hnot : ∀ t ∈ h.taskList, ¬t.MarkedDone) : MarksSound b h := by
  rintro ⟨t, ht, hmarked⟩
  exact absurd hmarked (hnot t ht)

theorem not_markedDone_map {f : TaskMark R → TaskMark R} (hf : ∀ t, ¬(f t).MarkedDone)
    (taskList : List (TaskMark R)) : ∀ t ∈ taskList.map f, ¬t.MarkedDone := by
  intro t ht
  obtain ⟨t', -, rfl⟩ := mem_map.mp ht
  exact hf t'

theorem marksSound_checkHelaTaskFinish (hcounted : DoHelaTask.Counted b h.handle extra)
    (hmarks : MarksSound b h) :
    MarksSound b (h.checkHelaTaskFinish b) := by
  rw [checkHelaTaskFinish]
  split
  next hfinish =>
    by_cases hfail : h.handle.failNum = 0
    · exact fun _ => ⟨rfl, hcounted.all_done hfinish hfail⟩
    · refine marksSound_of_forall_not ?_
      rw [if_pos hfail]
      exact not_markedDone_map TaskMark.not_markedDone_setStatusFail h.taskList
  next => exact hmarks

theorem Tallied.marksSound_scheduleHelaPcTask {localLc : ℕ → Option ℕ} {idun : Bool}
    (htallied : Tallied b h extra) (hmarks : MarksSound b h)
    (hround : h.scheduleHelaPcTask b localLc idun = some h') : MarksSound b h' := by
  by_cases hend : (h.handle.completed || h.handle.timeout) = true
  · rw [scheduleHelaPcTask, if_pos hend] at hround
    exact some.inj hround ▸ hmarks
  · simp only [Bool.or_eq_true, not_or, Bool.not_eq_true] at hend
    obtain ⟨hopen, hopen'⟩ := hend
    obtain ⟨s, -, rfl, hs⟩ := scheduleHelaPcTask_eq_some hround hopen hopen'
    have hcounted := DoHelaTask.counted_scheduleHelaPcTask hs (htallied.consistent hopen') hopen'
      (htallied.counted hopen')
    refine marksSound_checkHelaTaskFinish (DoHelaTask.counted_checkHelaTaskFinish.mp hcounted) ?_
    -- nothing was marked while the batch was open
    exact fun hmarked => absurd ((hmarks hmarked).1.symm.trans hopen) (by decide)

theorem Tallied.marksSound_step (htallied : Tallied b h extra) (hmarks : MarksSound b h)
    (hstep : step b h e = some h') : MarksSound b h' := by
  obtain ⟨localLc, idun, rfl, -, hround⟩ | ⟨rfl, -, rfl⟩ | ⟨s, he, hs, rfl⟩ := step_eq_some hstep
  · exact htallied.marksSound_scheduleHelaPcTask hmarks hround
  · exact marksSound_of_forall_not
      (not_markedDone_map TaskMark.not_markedDone_setStatusFail h.taskList)
  · intro hmarked
    obtain ⟨hcompleted, hdone⟩ := hmarks hmarked
    have hopen : h.handle.timeout = false := by
      cases htallied.phase with
      | active hnot _ _ _ => exact absurd (hnot.symm.trans hcompleted) (by decide)
      | completed _ hopen _ _ => exact hopen
      | timedOut hnot _ _ _ => exact absurd (hnot.symm.trans hcompleted) (by decide)
    refine ⟨(DoHelaTask.sameFlags_step he hs).completed.trans hcompleted, fun pc hpc => ?_⟩
    dsimp only
    rw [DoHelaTask.task_step_of_done he (htallied.consistent hopen) hdone hs]
    exact hdone pc hpc

section Run

variable {localLc : ℕ → Option ℕ} {idun : Bool} {taskList : List (TaskMark R)}
  {h₀ : DoHelaTaskHandle R} {es : List DoHelaTask.Event}

/-- **Marks.** In every run the tasks of the batch are marked as done only when all its pc tasks
are, and the batch stays tallied. -/
theorem marked_of_exec (hne : taskList ≠ []) (hstart : start b localLc idun taskList = some h₀)
    (hrun : exec (step b) h₀ es = some h) : (∃ extra, Tallied b h extra) ∧ MarksSound b h := by
  have hmarks : MarksSound b h₀ := by
    rw [start, if_neg hne] at hstart
    exact (tallied_armed b taskList).marksSound_scheduleHelaPcTask (marksSound_of_forall_not
      (not_markedDone_map
        (fun t => by simp [TaskMark.MarkedDone, TaskMark.setStatusExecuting]) taskList)) hstart
  have htallied := tallied_start hne hstart
  refine exec_invariant (fun h => (∃ extra, Tallied b h extra) ∧ MarksSound b h)
    (fun h e h' hinv hstep => ?_) ⟨⟨0, htallied⟩, hmarks⟩ hrun
  obtain ⟨⟨extra, htallied⟩, hmarks⟩ := hinv
  refine ⟨?_, htallied.marksSound_step hmarks hstep⟩
  by_cases hfalls : h.handle.FallsBack b e
  · exact ⟨extra + 1, (htallied.step_of_fallsBack hstep hfalls).2⟩
  · exact ⟨extra, htallied.step_of_not_fallsBack hstep hfalls⟩

/-- `t_running_num_` is the number of running tasks, as long as the batch has not timed out. -/
def RunningExact (b : Batch) (h : DoHelaTaskHandle R) : Prop :=
  h.handle.timeout = false → h.handle.runningNum = h.handle.statusCount b TaskStatus.isRunning

/-- **The progress counters.** Before the timeout, `t_finish_num_` and `t_fail_num_` are the numbers
of ended and of failed pc tasks, and the tasks are only marked as done when all pc tasks are done.
After all parts of a run `t_running_num_` is the number of running pc tasks exactly if no task of
the run falls back to koala. -/
theorem progress_counters_iff (hne : taskList ≠ [])
    (hstart : start b localLc idun taskList = some h₀) (hrun : exec (step b) h₀ es = some h) :
    (h.handle.timeout = false →
        h.handle.finishNum = h.handle.statusCount b TaskStatus.isFinished ∧
        h.handle.failNum = h.handle.statusCount b TaskStatus.isFail) ∧
      ((∃ t ∈ h.taskList, t.MarkedDone) → ∀ pc ∈ b.pcs, (h.handle.task pc).status = .done) ∧
      ((∀ es', es' <+: es → ∀ h', exec (step b) h₀ es' = some h' → RunningExact b h') ↔
        AllSteps (step b) (fun h e => ¬h.handle.FallsBack b e) h₀ es) := by
  obtain ⟨⟨extra, htallied⟩, hmarks⟩ := marked_of_exec hne hstart hrun
  refine ⟨fun hopen => ?_, fun hmarked => (hmarks hmarked).2, ?_⟩
  · exact ⟨(htallied.counted hopen).finish, (htallied.counted hopen).fail⟩
  · refine forall_prefix_iff_allSteps (fun h => Tallied b h 0) (fun h htallied hopen => ?_)
      (fun h e h' htallied hnot hstep => htallied.step_of_not_fallsBack hstep hnot)
      (fun h e h' htallied hfalls hstep hexact => ?_) (tallied_start hne hstart) hrun
    · rw [(htallied.counted hopen).running, add_zero]
    · obtain ⟨hopen, htallied'⟩ := htallied.step_of_fallsBack hstep (not_not.mp hfalls)
      have hrunning := (htallied'.counted hopen).running
      rw [hexact hopen] at hrunning
      omega

end Run

/-- Two pcs, which are scheduled at once. -/
def twoPcs : Batch := ⟨[0, 1], by decide, fun _ => true, 40, 4194304, false, 2⟩

/-- Two pcs are read from local chunks; the first succeeds and the second fails. -/
theorem progress_counters_twoPcs :
    ∃ h₀ ∈ start twoPcs (fun _ => some 7) true oneDisk, ∃ h,
      exec (step twoPcs) h₀ [.result 0 .success, .result 1 .fail] = some h ∧
      h.handle.finishNum = 2 ∧ h.handle.failNum = 1 ∧ (∀ t ∈ h.taskList, ¬t.MarkedDone) ∧
      ∀ es', es' <+: [.result 0 .success, .result 1 .fail] → ∀ h',
        exec (step twoPcs) h₀ es' = some h' → RunningExact twoPcs h' := by
  obtain ⟨h₀, hstart, hrun⟩ : ∃ h₀ ∈ start twoPcs (fun _ => some 7) true oneDisk, ∃ h,
      exec (step twoPcs) h₀ [.result 0 .success, .result 1 .fail] = some h ∧
      h.handle.timeout = false ∧ h.handle.statusCount twoPcs TaskStatus.isFinished = 2 ∧
      h.handle.statusCount twoPcs TaskStatus.isFail = 1 ∧ (h.handle.task 1).status = .fail := by
    decide +kernel
  refine ⟨h₀, hstart, exists_exec_mono hrun ?_⟩
  rintro h hrun ⟨htimeout, hfinished, hfail, hstatus⟩
  obtain ⟨hcounts, hmarks, hiff⟩ := progress_counters_iff (cons_ne_nil _ _) hstart hrun
  obtain ⟨hfinishNum, hfailNum⟩ := hcounts htimeout
  refine ⟨hfinishNum.trans (by rw [hfinished]; rfl), hfailNum.trans (by rw [hfail]; rfl),
    fun t ht hmarked => ?_, hiff.mpr (allSteps_of_forall_mem (fun h e he hfalls => ?_) _)⟩
  · have hdone := hmarks ⟨t, ht, hmarked⟩ 1 (by decide)
    simp [hstatus] at hdone
  · obtain ⟨-, pc, rfl, -⟩ := hfalls
    simp at he

/-- The local chunk is unavailable: one task runs, and two are counted. -/
theorem running_counted_twice :
    ∃ h₀ ∈ start DoHelaTask.onePc (fun _ => some 7) true oneDisk, ∃ h,
      exec (step DoHelaTask.onePc) h₀ [.result 0 .sourceUnavailable] = some h ∧
      h.handle.timeout = false ∧ h.handle.runningNum = 2 ∧
      h.handle.statusCount DoHelaTask.onePc TaskStatus.isRunning = 1 := by
  decide +kernel

end DoHelaTaskHandle

end Hela
