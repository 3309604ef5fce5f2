import Notebook.Hela.ResourceRefs

/-!
# A scheduling round

The loop of `ScheduleHelaPcTask` moves an iterator around the map of the pc tasks until it has
picked as many ready tasks as there is room for. It does not change the status of a task that has
data, which would be picked once more if the iterator came to it again. This does not happen: no
more tasks are picked than are ready, so the last one is met in the first lap, and what is picked
are the first ready tasks of this lap.

`HandleHelaPcTask` then starts the tasks that were picked, or lets them wait for an answer of idun.
So the number of tasks that run or wait grows at most by the room that there was.
-/

open Container Interleaving Function List Option

namespace Hela

/-! ### Rotations and counting -/

/-- A lap that begins at an element goes on with a lap from the next element, less the element
itself. -/
theorem isPrefix_rotate_succ {α : Type*} {l lap : List α} {a : α} {i : ℕ} (hi : i < l.length)
    (h : a :: lap <+: l.rotate i) : l[i]? = some a ∧ lap <+: l.rotate (i + 1) := by
  rw [rotate_eq_drop_append_take hi.le, drop_eq_getElem_cons hi, cons_append,
    cons_prefix_cons] at h
  obtain ⟨rfl, hlap⟩ := h
  refine ⟨getElem?_eq_getElem hi, ?_⟩
  rw [rotate_eq_drop_append_take hi, take_succ_eq_append_getElem hi, ← append_assoc]
  exact hlap.trans (prefix_append _ _)

/-- If a property is new for elements of `l'` only, then it holds for at most so many more. -/
theorem countP_le_add_length {ι : Type*} [DecidableEq ι] {l l' : List ι} {p q : ι → Bool}
    (hl : l.Nodup) (h : ∀ i, i ∉ l' → q i = true → p i = true) :
    l.countP q ≤ l.countP p + l'.length := by
  have hnew : (l.filter (· ∈ l')).countP q ≤ l'.length := by
    refine countP_le_length.trans (List.Subperm.length_le ?_)
    refine subperm_of_subset (hl.filter _) fun i hi => ?_
    simpa using (mem_filter.mp hi).2
  have hold : (l.filter fun i => !decide (i ∈ l')).countP q ≤ l.countP p :=
    calc (l.filter fun i => !decide (i ∈ l')).countP q
        ≤ (l.filter fun i => !decide (i ∈ l')).countP p := by
          refine countP_mono_left fun i hi => h i ?_
          simpa using (mem_filter.mp hi).2
      _ ≤ l.countP p := filter_sublist.countP_le
  rw [countP_eq_countP_filter_add l q (· ∈ l')]
  omega

namespace DoHelaTask

variable {b : Batch} {s s' : DoHelaTask} {pc : ℕ} {lap tasks : List ℕ} {n fuel : ℕ}

/-! ### The loop -/

/-- The loop of `ScheduleHelaPcTask`, of which no more than `fuel` turns are made. `has` is
`has_schedule_num` and `tasks` is `schedule_task`. -/
def selectLoop (b : Batch) (can : ℤ) :
    ℕ → ℤ → List ℕ → DoHelaTask → Option (List ℕ × DoHelaTask)
  | 0, has, tasks, s => if has < can then none else some (tasks, s)
  | fuel + 1, has, tasks, s =>
    if has < can then
      match b.pcs[s.scheduleIter]? with
      | none => none
      | some pc =>
        if (s.task pc).status = .ready then
          if b.hasData pc then selectLoop b can fuel (has + 1) (tasks ++ [pc]) (s.nextIter b)
          else selectLoop b can fuel (has + 1) tasks ((s.finishEmpty pc).nextIter b)
        else selectLoop b can fuel has tasks (s.nextIter b)
    else some (tasks, s)

/-- The iterator points to a task, unless there are none. -/
def CursorOk (b : Batch) (s : DoHelaTask) : Prop := b.pcs ≠ [] → s.scheduleIter < b.pcs.length

theorem selectLoop_of_le {can has : ℤ} (h : can ≤ has) :
    selectLoop b can fuel has tasks s = some (tasks, s) := by
  cases fuel with
  | zero | succ => exact if_neg h.not_gt

theorem rotate_nextIter (b : Batch) (s : DoHelaTask) :
    b.pcs.rotate (s.nextIter b).scheduleIter = b.pcs.rotate (s.scheduleIter + 1) := by
  unfold nextIter
  dsimp only
  split_ifs with hend
  · rw [hend, rotate_length, rotate_zero]
  · rfl

theorem CursorOk.nextIter (h : CursorOk b s) : CursorOk b (s.nextIter b) := by
  intro hne
  have hlt := h hne
  unfold DoHelaTask.nextIter
  dsimp only
  split_ifs with hend
  · exact length_pos_of_ne_nil hne
  · omega

theorem CursorOk.lap_cons (h : CursorOk b s)
    (hlap : pc :: lap <+: b.pcs.rotate s.scheduleIter) :
    b.pcs[s.scheduleIter]? = some pc ∧ lap <+: b.pcs.rotate (s.nextIter b).scheduleIter := by
  have hne : b.pcs ≠ [] := by
    intro hnil
    simp [hnil] at hlap
  rw [rotate_nextIter]
  exact isPrefix_rotate_succ (h hne) hlap

theorem selectLoop_succ {can has : ℤ} (hcan : has < can)
    (hpc : b.pcs[s.scheduleIter]? = some pc) :
    selectLoop b can (fuel + 1) has tasks s =
      if (s.task pc).status = .ready then
        if b.hasData pc then selectLoop b can fuel (has + 1) (tasks ++ [pc]) (s.nextIter b)
        else selectLoop b can fuel (has + 1) tasks ((s.finishEmpty pc).nextIter b)
      else selectLoop b can fuel has tasks (s.nextIter b) := by
  rw [selectLoop, if_pos hcan, hpc]

variable {r : List ℕ × DoHelaTask}

/-- **The loop makes at most one lap.** `scheduleLoop` has the tasks of the lap in its hand, here
they are found with the iterator. The induction is on the lap. -/
theorem selectLoop_eq {has : ℤ} (h : scheduleLoop b lap n s = some r) (hs : CursorOk b s)
    (hlap : lap <+: b.pcs.rotate s.scheduleIter) (hfuel : lap.length ≤ fuel) :
    selectLoop b (has + n) fuel has tasks s = some (tasks ++ r.1, r.2) := by
  induction lap, n, s using scheduleLoop.induct b generalizing has tasks fuel r with
  | case1 lap s =>
    simp only [scheduleLoop, some.injEq] at h
    subst h
    rw [selectLoop_of_le (by simp), append_nil]
  | case2 n s => simp [scheduleLoop] at h
  | case3 pc lap n s hready hdata ih =>
    rw [scheduleLoop, if_pos hready, if_pos hdata] at h
    obtain ⟨r', hloop, rfl⟩ := map_eq_some_iff.mp h
    obtain ⟨hpc, hlap'⟩ := hs.lap_cons hlap
    obtain ⟨fuel, rfl⟩ := Nat.exists_eq_add_one_of_ne_zero (Nat.ne_zero_of_lt hfuel)
    have hcan : has + (n + 1 : ℕ) = has + 1 + n := by omega
    rw [selectLoop_succ (by omega) hpc, if_pos hready, if_pos hdata, hcan,
      ih hloop hs.nextIter hlap' (Nat.le_of_succ_le_succ hfuel), append_assoc]
    rfl
  | case4 pc lap n s hready hdata ih =>
    rw [scheduleLoop, if_pos hready, if_neg hdata] at h
    obtain ⟨hpc, hlap'⟩ := hs.lap_cons hlap
    obtain ⟨fuel, rfl⟩ := Nat.exists_eq_add_one_of_ne_zero (Nat.ne_zero_of_lt hfuel)
    have hcan : has + (n + 1 : ℕ) = has + 1 + n := by omega
    rw [selectLoop_succ (by omega) hpc, if_pos hready, if_neg hdata, hcan]
    exact ih h (CursorOk.nextIter hs) hlap' (Nat.le_of_succ_le_succ hfuel)
  | case5 pc lap n s hready ih =>
    rw [scheduleLoop, if_neg hready] at h
    obtain ⟨hpc, hlap'⟩ := hs.lap_cons hlap
    obtain ⟨fuel, rfl⟩ := Nat.exists_eq_add_one_of_ne_zero (Nat.ne_zero_of_lt hfuel)
    rw [selectLoop_succ (by omega) hpc, if_neg hready]
    exact ih h hs.nextIter hlap' (Nat.le_of_succ_le_succ hfuel)

theorem selectLoop_round (hs : CursorOk b s) (hfuel : b.pcs.length ≤ fuel) :
    selectLoop b (s.canScheduleNum b) fuel 0 [] s =
      scheduleLoop b (b.pcs.rotate s.scheduleIter) (s.canScheduleNum b).toNat s := by
  obtain ⟨r, hr⟩ := isSome_iff_exists.mp (isSome_scheduleLoop_rotate b s)
  rw [hr]
  rcases le_or_gt (s.canScheduleNum b) 0 with hnone | hsome
  · rw [Int.toNat_of_nonpos hnone, scheduleLoop] at hr
    rw [selectLoop_of_le hnone, hr]
  · have hcan : s.canScheduleNum b = 0 + ((s.canScheduleNum b).toNat : ℤ) := by omega
    have hlap : (b.pcs.rotate s.scheduleIter).length ≤ fuel := by
      rw [length_rotate]
      exact hfuel
    rw [hcan, selectLoop_eq hr hs prefix_rfl hlap, nil_append]

/-- A scheduling round of the handle consists of this loop and the calls after it. -/
theorem scheduleHelaPcTask_eq_selectLoop (localLc : ℕ → Option ℕ) (idun : Bool)
    (hs : CursorOk b s) (hopen : ¬(s.completed || s.timeout) = true) :
    s.scheduleHelaPcTask b localLc idun = (s.concurence b).bind fun maxConcurenceNum =>
      let s := { s with maxConcurenceNum }
      (selectLoop b (s.canScheduleNum b) b.pcs.length 0 [] s).map fun r =>
        (handleHelaPcTask localLc idun r.1 r.2).checkHelaTaskFinish b := by
  rw [scheduleHelaPcTask, if_neg hopen]
  refine congrArg _ (funext fun maxConcurenceNum => ?_)
  have hs' : CursorOk b { s with maxConcurenceNum } := hs
  dsimp only
  rw [selectLoop_round hs' le_rfl]

/-! ### What is picked -/

/-- The first `n` ready tasks of a lap. -/
def picked (s : DoHelaTask) (lap : List ℕ) (n : ℕ) : List ℕ :=
  (lap.filter fun pc => (s.task pc).status = .ready).take n

/-- What the loop does if it picks the tasks `l`: it hands over those with data, the others are
done. -/
structure Selects (b : Batch) (s : DoHelaTask) (l : List ℕ) (r : List ℕ × DoHelaTask) : Prop where
  tasks : r.1 = l.filter b.hasData
  task : ∀ pc, r.2.task pc =
    if pc ∈ l ∧ b.hasData pc = false then { s.task pc with status := .done } else s.task pc
  finishNum : r.2.finishNum = s.finishNum + l.countP fun pc => !b.hasData pc

theorem picked_cons_of_ready (hready : (s.task pc).status = .ready) :
    picked s (pc :: lap) (n + 1) = pc :: picked s lap n := by
  rw [picked, filter_cons_of_pos (by simpa using hready), take_succ_cons, picked]

theorem picked_cons_of_not_ready (hready : (s.task pc).status ≠ .ready) :
    picked s (pc :: lap) n = picked s lap n := by
  rw [picked, filter_cons_of_neg (by simpa using hready), picked]

theorem picked_congr (h : ∀ pc ∈ lap, s'.task pc = s.task pc) :
    picked s' lap n = picked s lap n := by
  rw [picked, picked, filter_congr fun pc hpc => by rw [h pc hpc]]

theorem mem_of_mem_picked (h : pc ∈ picked s lap n) : pc ∈ lap ∧ (s.task pc).status = .ready := by
  simpa using mem_filter.mp (mem_of_mem_take h)

variable {l : List ℕ}

theorem Selects.cons_data (h : Selects b (s.nextIter b) l r)
    (hdata : b.hasData pc = true) : Selects b s (pc :: l) (pc :: r.1, r.2) where
  tasks := by rw [filter_cons_of_pos hdata, h.tasks]
  task q := by
    have hmem : (q ∈ pc :: l ∧ b.hasData q = false) ↔ q ∈ l ∧ b.hasData q = false := by
      refine and_congr_left fun hq => ?_
      have hne : q ≠ pc := by
        rintro rfl
        simp [hdata] at hq
      rw [mem_cons, or_iff_right hne]
    simp only [hmem]
    exact h.task q
  finishNum := by
    rw [countP_cons_of_neg (by simp [hdata])]
    exact h.finishNum

theorem Selects.cons_empty (h : Selects b ((s.finishEmpty pc).nextIter b) l r)
    (hdata : b.hasData pc = false)
    (hpc : pc ∉ l) : Selects b s (pc :: l) r where
  tasks := by rw [filter_cons_of_neg (by simp [hdata]), h.tasks]
  task q := by
    have hnext : ((s.finishEmpty pc).nextIter b).task =
        update s.task pc { s.task pc with status := .done } := rfl
    rw [h.task q, hnext]
    by_cases hq : q = pc
    · subst hq
      simp [hpc, hdata]
    · simp [hq]
  finishNum := by
    have hnext : ((s.finishEmpty pc).nextIter b).finishNum = s.finishNum + 1 := rfl
    rw [h.finishNum, hnext, countP_cons_of_pos (by simp [hdata])]
    omega

/-- The loop picks the first ready tasks of the lap. -/
theorem selects_scheduleLoop (h : scheduleLoop b lap n s = some r)
    (hlap : lap.Nodup) : Selects b s (picked s lap n) r := by
  induction lap, n, s using scheduleLoop.induct b generalizing r with
  | case1 lap s =>
    simp only [scheduleLoop, some.injEq] at h
    subst h
    exact ⟨rfl, fun pc => by simp [picked], by simp [picked]⟩
  | case2 n s => simp [scheduleLoop] at h
  | case3 pc lap n s hready hdata ih =>
    rw [scheduleLoop, if_pos hready, if_pos hdata] at h
    obtain ⟨r', hloop, rfl⟩ := map_eq_some_iff.mp h
    rw [picked_cons_of_ready hready]
    exact (ih hloop (nodup_cons.mp hlap).2).cons_data hdata
  | case4 pc lap n s hready hdata ih =>
    rw [scheduleLoop, if_pos hready, if_neg hdata] at h
    obtain ⟨hpc, hlap'⟩ := nodup_cons.mp hlap
    -- the task that is done now does not come again in this lap
    have hrest : picked ((s.finishEmpty pc).nextIter b) lap n = picked s lap n :=
      picked_congr fun q hq => update_of_ne (ne_of_mem_of_not_mem hq hpc) _ _
    have hselects := ih h hlap'
    rw [hrest] at hselects
    rw [picked_cons_of_ready hready]
    exact hselects.cons_empty (Bool.eq_false_iff.mpr hdata) fun hmem =>
      hpc (mem_of_mem_picked hmem).1
  | case5 pc lap n s hready ih =>
    rw [scheduleLoop, if_neg hready] at h
    rw [picked_cons_of_not_ready hready]
    obtain ⟨htasks, htask, hfinish⟩ := ih h (nodup_cons.mp hlap).2
    exact ⟨htasks, htask, hfinish⟩

/-! ### What is started -/

theorem StartsAll.task_of_notMem {l hits : List ℕ} (h : StartsAll s l hits s') (hpc : pc ∉ l) :
    s'.task pc = s.task pc := by
  induction h with
  | nil s => rfl
  | cons head tail ih =>
    rw [ih fun hmem => hpc (mem_cons_of_mem _ hmem)]
    obtain ⟨t, htask, -⟩ := head.task
    rw [htask, update_of_ne (ne_of_not_mem_cons hpc)]

/-- **Only the tasks that are handed over change**, whatever sources they have and whether or not
idun can be asked. -/
theorem task_handleHelaPcTask (localLc : ℕ → Option ℕ) (idun : Bool) (hpc : pc ∉ tasks) :
    (handleHelaPcTask localLc idun tasks s).task pc = s.task pc := by
  obtain ⟨l, rest, hits, s₁, hperm, hall, hrest⟩ := handleHelaPcTask_cases localLc idun tasks s
  rw [hperm.mem_iff, mem_append, not_or] at hpc
  rcases hrest with heq | ⟨hits', hall'⟩
  · rw [heq, task_queryIdunResource_of_notMem hpc.2, hall.task_of_notMem hpc.1]
  · rw [hall'.task_of_notMem hpc.2, hall.task_of_notMem hpc.1]

theorem Selects.executing_le (h : Selects b s l r) (localLc : ℕ → Option ℕ) (idun : Bool) :
    (handleHelaPcTask localLc idun r.1 r.2).executingPcTaskNum b ≤
      s.executingPcTaskNum b + l.length := by
  refine countP_le_add_length b.nodup fun pc hpc hexec => ?_
  have hnotMem : pc ∉ r.1 := by
    rw [h.tasks]
    exact fun hmem => hpc (mem_of_mem_filter hmem)
  rw [task_handleHelaPcTask localLc idun hnotMem, h.task, if_neg fun hmem => hpc hmem.1] at hexec
  exact hexec

/-! ### The round -/

theorem toNat_canScheduleNum (hpcs : b.pcs.length < 2 ^ 31)
    (hroom : s.executingPcTaskNum b - 2 ^ 31 ≤ s.maxConcurenceNum)
    (hlimit : s.maxConcurenceNum < 2 ^ 31) :
    ((s.canScheduleNum b).toNat : ℤ) =
      min (s.readyPcTaskNum b : ℤ) (max 0 (s.maxConcurenceNum - s.executingPcTaskNum b)) := by
  have hexec : s.executingPcTaskNum b ≤ b.pcs.length := countP_le_length
  have hready : s.readyPcTaskNum b ≤ b.pcs.length := countP_le_length
  have hexec' : int32 (s.executingPcTaskNum b) = s.executingPcTaskNum b :=
    int32_eq_self (by omega) (by omega)
  have hready' : int32 (s.readyPcTaskNum b) = s.readyPcTaskNum b :=
    int32_eq_self (by omega) (by omega)
  rw [canScheduleNum, hexec', hready', int32_eq_self (by omega) (by omega)]
  split_ifs <;> omega

/-- **A scheduling round.** Let there be fewer than `2 ^ 31` tasks, in any states, and let the room
for more of them be in the range of an `int`. Then the loop ends within one lap, after it has picked
as many different ready tasks as there is room for, or all of them. After `HandleHelaPcTask`, with
any local sources and whether or not idun can be asked, no more tasks run or wait than the limit
allows or did before. -/
theorem scheduling_round (b : Batch) (s : DoHelaTask) (hcursor : CursorOk b s)
    (hpcs : b.pcs.length < 2 ^ 31)
    (hroom : s.executingPcTaskNum b - 2 ^ 31 ≤ s.maxConcurenceNum)
    (hlimit : s.maxConcurenceNum < 2 ^ 31) :
    ∃ l r, (∀ fuel ≥ b.pcs.length, selectLoop b (s.canScheduleNum b) fuel 0 [] s = some r) ∧
      Selects b s l r ∧ l.Nodup ∧ (∀ pc ∈ l, pc ∈ b.pcs ∧ (s.task pc).status = .ready) ∧
      (l.length : ℤ) =
        min (s.readyPcTaskNum b : ℤ) (max 0 (s.maxConcurenceNum - s.executingPcTaskNum b)) ∧
      ∀ localLc idun, ((handleHelaPcTask localLc idun r.1 r.2).executingPcTaskNum b : ℤ) ≤
        max s.maxConcurenceNum (s.executingPcTaskNum b) := by
  have hlap : (b.pcs.rotate s.scheduleIter).Nodup := nodup_rotate.mpr b.nodup
  obtain ⟨r, hr⟩ := isSome_iff_exists.mp (isSome_scheduleLoop_rotate b s)
  have hselects := selects_scheduleLoop hr hlap
  have hcan := toNat_canScheduleNum hpcs hroom hlimit
  have hlength : (picked s (b.pcs.rotate s.scheduleIter) (s.canScheduleNum b).toNat).length =
      (s.canScheduleNum b).toNat := by
    have hready := canScheduleNum_le b s
    rw [picked, length_take, ← countP_eq_length_filter,
      (rotate_perm b.pcs _).countP_eq]
    exact min_eq_left (Int.toNat_le.mpr hready)
  refine ⟨_, r, fun fuel hfuel => ?_, hselects, ?_, fun pc hpc => ?_, ?_, fun localLc idun => ?_⟩
  · rw [selectLoop_round hcursor hfuel, hr]
  · exact (hlap.filter _).sublist (take_sublist _ _)
  · obtain ⟨hmem, hready⟩ := mem_of_mem_picked hpc
    exact ⟨mem_rotate.mp hmem, hready⟩
  · rw [hlength, hcan]
  · have hle := hselects.executing_le localLc idun
    rw [hlength] at hle
    omega

/-- Four tasks, the last one without data, of which no more than `maxConcurencePcNum` may run. -/
def fourPcs (maxConcurencePcNum : ℤ) : Batch :=
  ⟨[0, 1, 2, 3], by decide, fun pc => pc ≠ 3, 40, 4194304, false, maxConcurencePcNum⟩

/-- The handle when the first of them runs and the iterator is at the third. -/
def oneRuns (maxConcurencePcNum : ℤ) : DoHelaTask :=
  { init (fourPcs maxConcurencePcNum) with
    task := fun pc => if pc = 0 then ⟨.running, .koala, 0⟩ else .new
    scheduleIter := 2 }

/-- There is room for two of the three ready tasks. One of them has no data, so there is still room
when the other one has been started. -/
theorem scheduling_round_three :
    ∃ l r, selectLoop (fourPcs 3) ((oneRuns 3).canScheduleNum (fourPcs 3)) 4 0 [] (oneRuns 3) =
        some r ∧ Selects (fourPcs 3) (oneRuns 3) l r ∧ l.Nodup ∧ (l.length : ℤ) = 2 ∧
      ((handleHelaPcTask (fun _ => none) true r.1 r.2).executingPcTaskNum (fourPcs 3) : ℤ) ≤ 3 := by
  obtain ⟨l, r, hloop, hselects, hnodup, -, hlength, hexec⟩ :=
    scheduling_round (fourPcs 3) (oneRuns 3) (fun _ => by decide) (by decide) (by decide)
      (by decide)
  exact ⟨l, r, hloop 4 le_rfl, hselects, hnodup, hlength.trans (by decide),
    (hexec _ _).trans_eq (by decide)⟩

/-- The limit is the smallest `int`, and one task runs. The difference is not in the range of an
`int`, and what is computed is the largest one: all ready tasks are picked, and three tasks run or
wait. -/
theorem scheduling_round_overflows :
    (selectLoop (fourPcs (-2 ^ 31)) ((oneRuns (-2 ^ 31)).canScheduleNum (fourPcs (-2 ^ 31))) 4 0 []
        (oneRuns (-2 ^ 31))).map (fun r => (r.1,
          (handleHelaPcTask (fun _ => none) true r.1 r.2).executingPcTaskNum
            (fourPcs (-2 ^ 31)))) = some ([2, 1], 3) ∧
      (oneRuns (-2 ^ 31)).executingPcTaskNum (fourPcs (-2 ^ 31)) = 1 := by
  decide

end DoHelaTask

end Hela
