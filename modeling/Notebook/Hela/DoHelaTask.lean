import Notebook.Container.NestedMap
import Notebook.Interleaving.Threads

/-!
# The handle of a batch

`DoHelaTaskHandle` (`do_hela_task.cc`) runs in the loop of the manager. A timer lets it schedule pc
tasks. A task whose pc has a source in the local resources is dispatched at once; for the others the
idun service is asked, and they are dispatched when the answer comes, with the source that it names
or with the koala source of the image. A dispatched task gives one result. The whole batch has a
timeout.

A task that reads from another disk holds a reference to that disk, its *source lc*, from before it
is dispatched until its result is handled.

## Implementation notes

The calls of `IncResourceRef` and `DecResourceRef` on the resource manager are recorded in two lists
of source lc ids. The loop on which a pc task runs, the statuses of the `HelaTask`s of the batch and
the updates of the local and the idun resources after a success have no part in the references and
are left out.
-/

open Container Interleaving List

namespace Hela

/-! ### Pc tasks -/

/-- `HelaPcTask::TaskStatus` -/
inductive TaskStatus
  | ready | query | running | done | fail
deriving DecidableEq, Repr

/-- `HelaPcTask::ResourceType` -/
inductive ResourceType
  | koala | localChunk | remoteChunk
deriving DecidableEq, Repr

/-- The return codes of a pc task. -/
inductive Retcode
  | success | sourceUnavailable | fail
deriving DecidableEq, Repr

/-- What changes in a `HelaPcTask`: its status and its source. `lcId` is the source lc in
`chunk_source_info_`. -/
structure HelaPcTask where
  status : TaskStatus
  srcType : ResourceType
  lcId : ℕ
deriving DecidableEq, Repr

/-- `HelaPcTask::HelaPcTask` -/
def HelaPcTask.new : HelaPcTask := ⟨.ready, .koala, 0⟩

/-- `kKoalaImageSize40G`, from a header that is not in the repository; `lc_size_` is in GiB. -/
abbrev kKoalaImageSize40G : ℕ := 40

/-- The pc tasks of a batch after `ConstructHelaPcTask`, in the order of the iterators of
`pc_task_map_`, and what a scheduling round reads besides. -/
structure Batch where
  pcs : List ℕ
  nodup : pcs.Nodup
  hasData : ℕ → Bool
  lcSize : ℕ
  pcSize : ℕ
  enableDynamicConcurencePcNum : Bool
  maxConcurencePcNum : ℤ

/-! ### The handle -/

/-- A `DoHelaTaskHandle`. `queries` are the idun queries without an answer, `dispatched` the tasks
without a result, `incs` and `decs` the calls on the resource manager. The numbers of tasks are
`int`s in the source: a batch of `2 ^ 31` pc tasks is outside of the model. -/
structure DoHelaTask where
  task : ℕ → HelaPcTask
  scheduleIter : ℕ
  timeout : Bool
  maxConcurenceNum : ℤ
  runningNum : ℤ
  finishNum : ℤ
  succNum : ℤ
  failNum : ℤ
  completed : Bool
  queries : List (List ℕ)
  dispatched : List ℕ
  incs : List ℕ
  decs : List ℕ

namespace DoHelaTask

variable (b : Batch)

/-- The handle before the first scheduling round. -/
def init : DoHelaTask where
  task := fun _ => .new
  scheduleIter := 0
  timeout := false
  maxConcurenceNum := b.maxConcurencePcNum
  runningNum := 0
  finishNum := 0
  succNum := 0
  failNum := 0
  completed := false
  queries := []
  dispatched := []
  incs := []
  decs := []

variable (s : DoHelaTask)

/-- The task of a pc is changed. -/
def setTask (s : DoHelaTask) (pc : ℕ) (t : HelaPcTask) : DoHelaTask :=
  { s with task := Function.update s.task pc t }

/-- `IncResourceRef` -/
def incResourceRef (s : DoHelaTask) (pc : ℕ) : DoHelaTask :=
  if (s.task pc).srcType = .koala then s else { s with incs := (s.task pc).lcId :: s.incs }

/-- `DecResourceRef` -/
def decResourceRef (s : DoHelaTask) (pc : ℕ) : DoHelaTask :=
  if (s.task pc).srcType = .koala then s else { s with decs := (s.task pc).lcId :: s.decs }

/-- `DispatchHelaPcTask` -/
def dispatchHelaPcTask (s : DoHelaTask) (pc : ℕ) : DoHelaTask :=
  { s.setTask pc { s.task pc with status := .running } with
    dispatched := s.dispatched ++ [pc], runningNum := s.runningNum + 1 }

/-- A source has been found: `set_chunk_source_info` and the setter of the source type,
`IncResourceRef`, `DispatchHelaPcTask`. -/
def dispatchFromChunk (s : DoHelaTask) (pc : ℕ) (srcType : ResourceType) (lcId : ℕ) : DoHelaTask :=
  ((s.setTask pc { s.task pc with srcType, lcId }).incResourceRef pc).dispatchHelaPcTask pc

/-! ### Scheduling -/

/-- `ExecutingPcTaskNum` -/
def executingPcTaskNum : ℕ :=
  b.pcs.countP fun pc => (s.task pc).status = .running ∨ (s.task pc).status = .query

/-- `ReadyPcTaskNum` -/
def readyPcTaskNum : ℕ :=
  b.pcs.countP fun pc => (s.task pc).status = .ready

/-- How many tasks may run at a time. A division by `pc_size_ = 0` does not return. -/
def concurence : Option ℤ :=
  if b.enableDynamicConcurencePcNum then
    if b.pcSize = 0 then none
    else
      let lcSizeBytes := uint64 (b.lcSize * 1024 * 1024 * 1024)
      let num :=
        int32 (lcSizeBytes / b.pcSize / if b.lcSize > kKoalaImageSize40G then 20 else 10 : ℕ)
      some (if num < b.maxConcurencePcNum then b.maxConcurencePcNum else num)
  else some s.maxConcurenceNum

/-- `can_schedule_num`; it is negative if more tasks run than may. -/
def canScheduleNum : ℤ :=
  let maxScheduleNum := int32 (s.maxConcurenceNum - int32 (s.executingPcTaskNum b))
  let readyNum := int32 (s.readyPcTaskNum b)
  if maxScheduleNum > readyNum then readyNum else maxScheduleNum

/-- `schedule_iter_++`, and back to the beginning at the end. -/
def nextIter : DoHelaTask :=
  { s with scheduleIter := if s.scheduleIter + 1 = b.pcs.length then 0 else s.scheduleIter + 1 }

/-- A task without data is done. -/
def finishEmpty (s : DoHelaTask) (pc : ℕ) : DoHelaTask :=
  { s.setTask pc { s.task pc with status := .done } with finishNum := s.finishNum + 1 }

/-- The loop of `ScheduleHelaPcTask` until `can` more tasks are scheduled; `lap` are the tasks that
the iterator meets before it is back where it was. It gives the tasks that have data. -/
def scheduleLoop (b : Batch) : List ℕ → ℕ → DoHelaTask → Option (List ℕ × DoHelaTask)
  | _, 0, s => some ([], s)
  | [], _ + 1, _ => none
  | pc :: lap, can + 1, s =>
    if (s.task pc).status = .ready then
      if b.hasData pc then
        (scheduleLoop b lap can (s.nextIter b)).map fun r => (pc :: r.1, r.2)
      else
        scheduleLoop b lap can ((s.finishEmpty pc).nextIter b)
    else scheduleLoop b lap (can + 1) (s.nextIter b)

/-- The first loop of `HandleHelaPcTask`. `localLc` is `CheckLocalResource`: the lc of a local
source of a pc. It gives the tasks for which idun is asked. -/
def dispatchLocal (localLc : ℕ → Option ℕ) : List ℕ → DoHelaTask → List ℕ × DoHelaTask
  | [], s => ([], s)
  | pc :: tasks, s =>
    match localLc pc with
    | some lcId => dispatchLocal localLc tasks (s.dispatchFromChunk pc .localChunk lcId)
    | none =>
      let r := dispatchLocal localLc tasks s
      (pc :: r.1, r.2)

/-- The loops that dispatch the tasks of a query with the koala source. -/
def dispatchAll (s : DoHelaTask) (query : List ℕ) : DoHelaTask :=
  query.foldl dispatchHelaPcTask s

/-- `QueryIdunResource` once there is a connection: the tasks wait for the answer. -/
def queryIdunResource (s : DoHelaTask) (query : List ℕ) : DoHelaTask :=
  { s with
    task := fun pc => if pc ∈ query then { s.task pc with status := .query } else s.task pc
    queries := s.queries ++ [query] }

/-- `HandleHelaPcTask`. `idun` says that the idun service can be reached. -/
def handleHelaPcTask (localLc : ℕ → Option ℕ) (idun : Bool) (tasks : List ℕ) (s : DoHelaTask) :
    DoHelaTask :=
  let r := dispatchLocal localLc tasks s
  if r.1 = [] then r.2
  else if idun then r.2.queryIdunResource r.1
  else r.2.dispatchAll r.1

/-- `CheckHelaTaskFinish` -/
def checkHelaTaskFinish : DoHelaTask :=
  if s.finishNum = b.pcs.length then { s with completed := true } else s

/-- `ScheduleHelaPcTask` -/
def scheduleHelaPcTask (localLc : ℕ → Option ℕ) (idun : Bool) (s : DoHelaTask) :
    Option DoHelaTask :=
  if s.completed || s.timeout then some s
  else
    (s.concurence b).bind fun maxConcurenceNum =>
      let s := { s with maxConcurenceNum }
      (scheduleLoop b (b.pcs.rotate s.scheduleIter) (s.canScheduleNum b).toNat s).map fun r =>
        (handleHelaPcTask localLc idun r.1 r.2).checkHelaTaskFinish b

/-! ### Answers of idun -/

/-- The map from pcs to sources that `EntryQueryIdunResource` fills: `insert` keeps the first entry
of a pc. An `lc_info` of the answer is an lc id with the pcs that it has. -/
def idunRoute (lcInfos : List (ℕ × List ℕ)) : Map ℕ ℕ :=
  lcInfos.foldl (fun route lcInfo =>
    lcInfo.2.foldl (fun route pc => if pc ∈ route then route else route.insert pc lcInfo.1) route) ∅

/-- The loop of `EntryQueryIdunResource` over the tasks of the query. -/
def dispatchQueried : Map ℕ ℕ → List ℕ → DoHelaTask → DoHelaTask
  | _, [], s => s
  | route, pc :: query, s =>
    -- an empty map has no entry for the pc either
    match route.lookup pc with
    | none => dispatchQueried route query (s.dispatchHelaPcTask pc)
    | some lcId =>
      dispatchQueried (route.erase pc) query (s.dispatchFromChunk pc .remoteChunk lcId)

/-- `EntryQueryIdunResource`. The answer is `none` when its return code is an error. -/
def entryQueryIdunResource (s : DoHelaTask) (query : List ℕ) :
    Option (List (ℕ × List ℕ)) → DoHelaTask
  | none => s.dispatchAll query
  | some lcInfos => dispatchQueried (idunRoute lcInfos) query s

/-- `QueryIdunTimeout` -/
def queryIdunTimeout (s : DoHelaTask) (query : List ℕ) : DoHelaTask := s.dispatchAll query

/-! ### Results and the timeout -/

/-- `HandlePcTaskResult` -/
def handlePcTaskResult (s : DoHelaTask) (pc : ℕ) (retcode : Retcode) : DoHelaTask :=
  if s.timeout then s
  else if pc ∉ b.pcs then s
  else if (s.task pc).status ≠ .running then s
  else
    let s := s.decResourceRef pc
    match retcode with
    | .success =>
      { s.setTask pc { s.task pc with status := .done } with
        succNum := s.succNum + 1, runningNum := s.runningNum - 1, finishNum := s.finishNum + 1 }
    | .sourceUnavailable =>
      (s.setTask pc { s.task pc with srcType := .koala, status := .running }).dispatchHelaPcTask pc
    | .fail =>
      { s.setTask pc { s.task pc with status := .fail } with
        failNum := s.failNum + 1, runningNum := s.runningNum - 1, finishNum := s.finishNum + 1 }

/-- The source lcs of the tasks that `DecAllResourceRef` does not skip. -/
def heldLcs : List ℕ :=
  (b.pcs.filter fun pc =>
    (s.task pc).srcType ≠ .koala ∧ (s.task pc).status = .running).map fun pc => (s.task pc).lcId

/-- `TaskTimeOut`, with `DecAllResourceRef`. -/
def taskTimeOut : DoHelaTask :=
  { s with timeout := true, decs := (s.heldLcs b).reverse ++ s.decs }

/-! ### Events -/

/-- What the loop of the manager hands to the handle. -/
inductive Event
  /-- The schedule timer, with the local resources and the reachability of idun at this moment. -/
  | schedule (localLc : ℕ → Option ℕ) (idun : Bool)
  /-- The answer to a query. -/
  | queryResponse (query : List ℕ) (res : Option (List (ℕ × List ℕ)))
  /-- A query has no answer in time. -/
  | queryTimeout (query : List ℕ)
  /-- The result of a dispatched task. -/
  | result (pc : ℕ) (retcode : Retcode)
  /-- The timer of the batch, which is cancelled when the batch is completed. -/
  | taskTimeOut

/-- One event. A query gets one answer or timeout, a dispatched task gives one result. -/
def step : Event → Option DoHelaTask
  | .schedule localLc idun => s.scheduleHelaPcTask b localLc idun
  | .queryResponse query res =>
    if query ∈ s.queries then
      some ({ s with queries := s.queries.erase query }.entryQueryIdunResource query res)
    else none
  | .queryTimeout query =>
    if query ∈ s.queries then
      some ({ s with queries := s.queries.erase query }.queryIdunTimeout query)
    else none
  | .result pc retcode =>
    if pc ∈ s.dispatched then
      some ({ s with dispatched := s.dispatched.erase pc }.handlePcTaskResult b pc retcode)
    else none
  | .taskTimeOut => if s.timeout || s.completed then none else some (s.taskTimeOut b)

/-! ### One lap is enough -/

/-- **One lap is enough.** A scheduling round takes no more tasks than are ready, so it meets them
before the iterator comes to a task for the second time. -/
theorem isSome_scheduleLoop {b : Batch} {lap : List ℕ} {can : ℕ} {s : DoHelaTask}
    (hlap : lap.Nodup) (hcan : can ≤ lap.countP fun pc => (s.task pc).status = .ready) :
    (scheduleLoop b lap can s).isSome := by
  induction lap generalizing can s with
  | nil =>
    obtain rfl : can = 0 := Nat.le_zero.mp hcan
    rfl
  | cons pc lap ih =>
    obtain ⟨hpc, hlap⟩ := nodup_cons.mp hlap
    cases can with
    | zero => rfl
    | succ can =>
      rw [countP_cons] at hcan
      rw [scheduleLoop]
      by_cases hready : (s.task pc).status = .ready
      · simp only [hready, decide_true, if_true, add_le_add_iff_right] at hcan
        by_cases hdata : b.hasData pc
        · rw [if_pos hready, if_pos hdata, Option.isSome_map]
          exact ih hlap hcan
        · rw [if_pos hready, if_neg hdata]
          refine ih hlap (hcan.trans_eq (countP_congr fun q hq => ?_))
          have hne : q ≠ pc := fun heq => hpc (heq ▸ hq)
          simp [nextIter, finishEmpty, setTask, Function.update_of_ne hne]
      · simp only [hready, decide_false, Bool.false_eq_true, if_false, add_zero] at hcan
        rw [if_neg hready]
        exact ih hlap hcan

/-- A round takes no more tasks than are ready, also if the numbers do not fit into an `int`. -/
theorem canScheduleNum_le : s.canScheduleNum b ≤ s.readyPcTaskNum b := by
  have hready : int32 (s.readyPcTaskNum b) ≤ s.readyPcTaskNum b := int32_le_self (by omega)
  unfold canScheduleNum
  dsimp only
  split_ifs <;> omega

theorem isSome_scheduleLoop_rotate :
    (scheduleLoop b (b.pcs.rotate s.scheduleIter) (s.canScheduleNum b).toNat s).isSome := by
  refine isSome_scheduleLoop (nodup_rotate.mpr b.nodup) ?_
  rw [(rotate_perm b.pcs _).countP_eq, Int.toNat_le]
  exact canScheduleNum_le b s

/-- **When a scheduling round returns.** In every state, whatever the numbers, the loop of a round
ends, so that a round only does not return if the batch is open and it divides by zero. -/
theorem isSome_scheduleHelaPcTask_iff (s : DoHelaTask) (localLc : ℕ → Option ℕ)
    (idun : Bool) : (s.scheduleHelaPcTask b localLc idun).isSome ↔
      s.completed = true ∨ s.timeout = true ∨ (b.enableDynamicConcurencePcNum → b.pcSize ≠ 0) := by
  have hconcurence : (s.concurence b).isSome ↔
      (b.enableDynamicConcurencePcNum → b.pcSize ≠ 0) := by
    unfold concurence
    split_ifs with hdynamic hsize <;> simp [*]
  rw [scheduleHelaPcTask]
  split_ifs with hend
  · rw [Bool.or_eq_true] at hend
    exact iff_of_true rfl (or_assoc.mp (.inl hend))
  · rw [Bool.or_eq_true, not_or] at hend
    rw [or_iff_right hend.1, or_iff_right hend.2, ← hconcurence]
    cases s.concurence b with
    | none => rfl
    | some num =>
      rw [Option.bind_some, Option.isSome_map]
      exact iff_of_true (isSome_scheduleLoop_rotate b _) rfl

/-- **The loop of a round.** What every turn keeps, for the handle and the tasks that were picked
so far, holds when the loop is over. -/
theorem scheduleLoop_invariant {b : Batch} {I : List ℕ → DoHelaTask → Prop} {lap : List ℕ}
    {can : ℕ} {s : DoHelaTask} {r : List ℕ × DoHelaTask}
    (hloop : scheduleLoop b lap can s = some r) (hnodup : lap.Nodup)
    (hnext : ∀ l s, I l s → I l (s.nextIter b))
    (hpick : ∀ l s, ∀ pc ∈ lap, pc ∉ l → (s.task pc).status = .ready → I l s → I (pc :: l) s)
    (hempty : ∀ l s, ∀ pc ∈ lap, pc ∉ l → (s.task pc).status = .ready → I l s →
      I l (s.finishEmpty pc))
    (h : I [] s) : I r.1.reverse r.2 := by
  rw [← append_nil lap] at hnodup
  rw [← append_nil r.1.reverse]
  generalize ([] : List ℕ) = acc at hnodup h ⊢
  induction lap, can, s using scheduleLoop.induct b generalizing acc r with
  | case1 lap s =>
    rw [scheduleLoop] at hloop
    exact Option.some.inj hloop ▸ h
  | case2 can s => simp [scheduleLoop] at hloop
  | case3 pc lap can s hready hdata ih =>
    rw [scheduleLoop, if_pos hready, if_pos hdata] at hloop
    obtain ⟨r₁, hloop₁, rfl⟩ := Option.map_eq_some_iff.mp hloop
    have hacc : pc ∉ acc := fun hacc => (nodup_cons.mp hnodup).1 (mem_append_right _ hacc)
    have hrest := ih hloop₁ (fun l s q hq => hpick l s q (mem_cons_of_mem pc hq))
      (fun l s q hq => hempty l s q (mem_cons_of_mem pc hq)) (pc :: acc)
      (perm_middle.nodup_iff.mpr hnodup)
      (hnext _ s (hpick acc s pc mem_cons_self hacc hready h))
    rwa [reverse_cons, append_assoc]
  | case4 pc lap can s hready hdata ih =>
    rw [scheduleLoop, if_pos hready, if_neg hdata] at hloop
    obtain ⟨hpc, hnodup⟩ := nodup_cons.mp hnodup
    have hacc : pc ∉ acc := fun hacc => hpc (mem_append_right lap hacc)
    exact ih hloop (fun l s q hq => hpick l s q (mem_cons_of_mem pc hq))
      (fun l s q hq => hempty l s q (mem_cons_of_mem pc hq)) acc hnodup
      (hnext _ _ (hempty acc s pc mem_cons_self hacc hready h))
  | case5 pc lap can s hready ih =>
    rw [scheduleLoop, if_neg hready] at hloop
    exact ih hloop (fun l s q hq => hpick l s q (mem_cons_of_mem pc hq))
      (fun l s q hq => hempty l s q (mem_cons_of_mem pc hq)) acc
      (nodup_cons.mp hnodup).2 (hnext _ _ h)

/-! ### The answers -/

theorem mem_idunRoute {lcInfos : List (ℕ × List ℕ)} {pc : ℕ} :
    pc ∈ idunRoute lcInfos ↔ ∃ lcInfo ∈ lcInfos, pc ∈ lcInfo.2 := by
  have hinner : ∀ (lc : ℕ) (pcs : List ℕ) (route : Map ℕ ℕ),
      pc ∈ pcs.foldl (fun route pc => if pc ∈ route then route else route.insert pc lc) route ↔
        pc ∈ route ∨ pc ∈ pcs := by
    intro lc pcs
    induction pcs with
    | nil => simp
    | cons q pcs ih =>
      intro route
      rw [foldl_cons, ih]
      split_ifs with hq
      · by_cases hpc : pc = q
        · simp [hpc, hq]
        · simp [hpc]
      · simp only [AList.mem_insert, mem_cons]
        tauto
  have houter : ∀ route : Map ℕ ℕ, pc ∈ lcInfos.foldl (fun route lcInfo =>
        lcInfo.2.foldl (fun route pc => if pc ∈ route then route else route.insert pc lcInfo.1)
          route) route ↔ pc ∈ route ∨ ∃ lcInfo ∈ lcInfos, pc ∈ lcInfo.2 := by
    induction lcInfos with
    | nil => simp
    | cons lcInfo lcInfos ih =>
      intro route
      rw [foldl_cons, ih, hinner, exists_mem_cons_iff, or_assoc]
  exact (houter ∅).trans (or_iff_right (AList.notMem_empty pc))

end DoHelaTask

end Hela
