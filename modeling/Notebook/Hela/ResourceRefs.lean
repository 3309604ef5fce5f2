import Notebook.Hela.DoHelaTask

/-!
# References to source disks

Every reference that the handle of a batch takes should be given back. While the batch has not timed
out, the references in hand are those of the running tasks that do not read from koala; its timeout
gives all of them back, and the results that come later are ignored. But an idun answer that comes
later is not: its tasks are dispatched, with references that nobody gives back.

## Main definitions

* `excess` — the references taken that are neither given back nor held by a task.
* `Consistent` — the tasks of a batch that has not timed out.
* `LateHit` — an answer names a source after the timeout.

## Main results

* `excess_step` — one event changes the excess by its late hits.
* `balanced_iff` — the references are balanced exactly in the runs without late hits.
-/

open Container Interleaving Function List Option

namespace Hela

/-! ### Counting -/

theorem countP_update {ι β : Type*} [DecidableEq ι] {l : List ι} {a : ι} (hl : l.Nodup)
    (ha : a ∈ l) (f : ι → β) (v : β) (p : β → Bool) :
    (l.countP fun i => p (update f a v i)) + (p (f a)).toNat =
      (l.countP fun i => p (f i)) + (p v).toNat := by
  have hperm : l.Perm (a :: l.erase a) := perm_cons_erase ha
  have hrest : ((l.erase a).countP fun i => p (update f a v i)) =
      (l.erase a).countP fun i => p (f i) := by
    refine countP_congr fun i hi => ?_
    rw [update_of_ne (hl.mem_erase_iff.mp hi).1]
  rw [hperm.countP_eq, hperm.countP_eq, countP_cons, countP_cons, hrest,
    update_self]
  cases p (f a) <;> cases p v <;> simp

/-- The task has a reference to the source lc `lc`. -/
def HelaPcTask.holds (t : HelaPcTask) (lc : ℕ) : Bool :=
  t.srcType ≠ .koala ∧ t.status = .running ∧ t.lcId = lc

namespace DoHelaTask

variable {b : Batch} {s s' : DoHelaTask} {pc lc : ℕ} {l : List ℕ}

/-- The number of references that the tasks hold. -/
def live (b : Batch) (s : DoHelaTask) (lc : ℕ) : ℕ :=
  if s.timeout then 0 else b.pcs.countP fun pc => (s.task pc).holds lc

/-- The references taken that are neither given back nor held by a task. -/
def excess (b : Batch) (s : DoHelaTask) (lc : ℕ) : ℤ :=
  s.incs.count lc - s.decs.count lc - s.live b lc

theorem live_of_timeout (h : s.timeout = true) : s.live b lc = 0 := if_pos h

theorem live_of_not_timeout (h : s.timeout = false) :
    s.live b lc = b.pcs.countP fun pc => (s.task pc).holds lc := if_neg (by simp [h])

variable {t : HelaPcTask}

/-- The excess after one task has changed: what has been taken, given back, and put in its hands. -/
theorem excess_update (lc : ℕ) (hpc : pc ∈ b.pcs) (hs : s.timeout = false)
    (hs' : s'.timeout = false) (htask : s'.task = update s.task pc t) :
    s'.excess b lc + (s.incs.count lc - s.decs.count lc) + (t.holds lc).toNat =
      s.excess b lc + (s'.incs.count lc - s'.decs.count lc) + ((s.task pc).holds lc).toNat := by
  have hlive := countP_update b.nodup hpc s.task t fun t => t.holds lc
  rw [excess, excess, live_of_not_timeout hs, live_of_not_timeout hs', htask]
  omega

/-! ### The tasks that wait -/

/-- The tasks of a batch that has not timed out. A task that waits has the koala source, the tasks
of the queries wait for an answer, each for one, and a running task will give a result. -/
structure Consistent (b : Batch) (s : DoHelaTask) : Prop where
  koala : ∀ pc, (s.task pc).status = .ready ∨ (s.task pc).status = .query →
    (s.task pc).srcType = .koala
  query : ∀ pc ∈ s.queries.flatten, pc ∈ b.pcs ∧ (s.task pc).status = .query
  nodup : s.queries.flatten.Nodup
  running : ∀ pc, (s.task pc).status = .running → pc ∈ b.pcs ∧ pc ∈ s.dispatched

/-- The tasks `l` are about to be dispatched: they wait, and no query has them. -/
structure Waiting (b : Batch) (s : DoHelaTask) (l : List ℕ) : Prop extends Consistent b s where
  distinct : l.Nodup
  mem : ∀ pc ∈ l, pc ∈ b.pcs
  notMem : ∀ pc ∈ l, pc ∉ s.queries.flatten
  waits : ∀ pc ∈ l, (s.task pc).status = .ready ∨ (s.task pc).status = .query

theorem Waiting.perm {l' : List ℕ} (h : Waiting b s l) (hperm : l.Perm l') : Waiting b s l' :=
  { h with
    distinct := hperm.nodup_iff.mp h.distinct
    mem := fun pc hpc => h.mem pc (hperm.mem_iff.mpr hpc)
    notMem := fun pc hpc => h.notMem pc (hperm.mem_iff.mpr hpc)
    waits := fun pc hpc => h.waits pc (hperm.mem_iff.mpr hpc) }

theorem Consistent.waiting_nil (h : Consistent b s) : Waiting b s [] :=
  { h with
    distinct := nodup_nil
    mem := fun _ hpc => absurd hpc not_mem_nil
    notMem := fun _ hpc => absurd hpc not_mem_nil
    waits := fun _ hpc => absurd hpc not_mem_nil }

theorem Consistent.notMem_queries (h : Consistent b s) (hstatus : (s.task pc).status ≠ .query) :
    pc ∉ s.queries.flatten := fun hquery => hstatus (h.query pc hquery).2

theorem Consistent.of_eq (h : Consistent b s) (htask : s'.task = s.task)
    (hqueries : s'.queries = s.queries) (hdispatched : s'.dispatched = s.dispatched) :
    Consistent b s' := by
  obtain ⟨hkoala, hquery, hnodup, hrunning⟩ := h
  exact ⟨by rwa [htask], by rwa [htask, hqueries], by rwa [hqueries], by rwa [htask, hdispatched]⟩

theorem Waiting.of_eq (h : Waiting b s l) (htask : s'.task = s.task)
    (hqueries : s'.queries = s.queries) (hdispatched : s'.dispatched = s.dispatched) :
    Waiting b s' l := by
  obtain ⟨hc, hdistinct, hmem, hnotMem, hwaits⟩ := h
  exact ⟨hc.of_eq htask hqueries hdispatched, hdistinct, hmem, by rwa [hqueries], by rwa [htask]⟩

theorem Waiting.tail (h : Waiting b s (pc :: l)) : Waiting b s l :=
  { h with
    distinct := (nodup_cons.mp h.distinct).2
    mem := fun q hq => h.mem q (mem_cons_of_mem pc hq)
    notMem := fun q hq => h.notMem q (mem_cons_of_mem pc hq)
    waits := fun q hq => h.waits q (mem_cons_of_mem pc hq) }

theorem Waiting.cons (h : Waiting b s l) (hpc : pc ∈ b.pcs) (hl : pc ∉ l)
    (hready : (s.task pc).status = .ready) : Waiting b s (pc :: l) :=
  { h with
    distinct := nodup_cons.mpr ⟨hl, h.distinct⟩
    mem := forall_mem_cons.mpr ⟨hpc, h.mem⟩
    notMem := forall_mem_cons.mpr ⟨h.notMem_queries (by simp [hready]), h.notMem⟩
    waits := forall_mem_cons.mpr ⟨.inl hready, h.waits⟩ }

/-- A task that no query has and that is not about to be dispatched runs or ends. -/
theorem Waiting.update (h : Waiting b s l) (hl : pc ∉ l)
    (hquery : pc ∉ s.queries.flatten) (htask : s'.task = update s.task pc t)
    (ht : ¬(t.status = .ready ∨ t.status = .query))
    (hrunning : t.status = .running → pc ∈ b.pcs ∧ pc ∈ s'.dispatched)
    (hqueries : s'.queries = s.queries)
    (hdispatched : ∀ q, q ≠ pc → q ∈ s.dispatched → q ∈ s'.dispatched) : Waiting b s' l := by
  have hother : ∀ q, q ≠ pc → s'.task q = s.task q := fun q hq => by
    rw [htask, update_of_ne hq]
  have hself : s'.task pc = t := by rw [htask, update_self]
  have hne : ∀ q ∈ l, q ≠ pc := fun q hq heq => hl (heq ▸ hq)
  refine ⟨⟨fun q hq => ?_, fun q hq => ?_, hqueries ▸ h.nodup, fun q hq => ?_⟩, h.distinct, h.mem,
    fun q hq => hqueries ▸ h.notMem q hq, fun q hq => ?_⟩
  · have hq' : q ≠ pc := fun heq => ht (hself ▸ heq ▸ hq)
    rw [hother q hq'] at hq ⊢
    exact h.koala q hq
  · rw [hqueries] at hq
    rw [hother q fun heq => hquery (heq ▸ hq)]
    exact h.query q hq
  · by_cases hq' : q = pc
    · subst hq'
      exact hrunning (hself ▸ hq)
    · rw [hother q hq'] at hq
      exact (h.running q hq).imp_right (hdispatched q hq')
  · rw [hother q (hne q hq)]
    exact h.waits q hq

theorem holds_eq_false (h : t.status ≠ .running) : t.holds lc = false := by
  simp [HelaPcTask.holds, h]

theorem Waiting.holds_eq_false (h : Waiting b s l) (hpc : pc ∈ l) :
    (s.task pc).holds lc = false := by
  refine DoHelaTask.holds_eq_false ?_
  rcases h.waits pc hpc with hstatus | hstatus <;> simp [hstatus]

/-! ### Dispatching -/

/-- The task `pc` is dispatched, after references to the source lcs `hits` have been taken for
it. -/
structure Starts (s : DoHelaTask) (pc : ℕ) (hits : List ℕ) (s' : DoHelaTask) : Prop where
  task : ∃ t : HelaPcTask, s'.task = Function.update s.task pc t ∧ t.status = .running ∧
    ((s.task pc).srcType = .koala → ∀ lc, hits.count lc = (t.holds lc).toNat)
  timeout : s'.timeout = s.timeout
  completed : s'.completed = s.completed
  runningNum : s'.runningNum = s.runningNum + 1
  finishNum : s'.finishNum = s.finishNum
  failNum : s'.failNum = s.failNum
  queries : s'.queries = s.queries
  dispatched : s'.dispatched = s.dispatched ++ [pc]
  incs : s'.incs = hits ++ s.incs
  decs : s'.decs = s.decs

theorem starts_dispatchHelaPcTask (s : DoHelaTask) (pc : ℕ) :
    Starts s pc [] (s.dispatchHelaPcTask pc) := by
  refine ⟨⟨{ s.task pc with status := .running }, rfl, rfl, fun hkoala lc => ?_⟩, rfl, rfl, rfl,
    rfl, rfl, rfl, rfl, rfl, rfl⟩
  simp [HelaPcTask.holds, hkoala]

theorem starts_dispatchFromChunk (s : DoHelaTask) (pc : ℕ) (srcType : ResourceType)
    (hsrc : srcType ≠ .koala) (lcId : ℕ) :
    Starts s pc [lcId] (s.dispatchFromChunk pc srcType lcId) := by
  have heq : s.dispatchFromChunk pc srcType lcId =
      { s with
        task := update s.task pc ⟨.running, srcType, lcId⟩
        incs := lcId :: s.incs
        dispatched := s.dispatched ++ [pc], runningNum := s.runningNum + 1 } := by
    simp [dispatchFromChunk, incResourceRef, dispatchHelaPcTask, setTask, hsrc]
  rw [heq]
  refine ⟨⟨_, rfl, rfl, fun _ lc => ?_⟩, rfl, rfl, rfl, rfl, rfl, rfl, rfl, rfl, rfl⟩
  by_cases hlc : lcId = lc <;> simp [HelaPcTask.holds, hsrc, hlc]

/-- While the batch has not timed out, a reference that is taken for a task is then held by it. -/
theorem Starts.waiting {hits : List ℕ} (h : Starts s pc hits s')
    (hs : s.timeout = false → Waiting b s (pc :: l)) :
    (s'.timeout = false → Waiting b s' l) ∧
      ∀ lc, s'.excess b lc = s.excess b lc + if s.timeout then (hits.count lc : ℤ) else 0 := by
  obtain ⟨t, htask, hrunning, hholds⟩ := h.task
  have hincs : ∀ lc, (s'.incs.count lc : ℤ) = hits.count lc + s.incs.count lc := by
    intro lc
    rw [h.incs, count_append, Nat.cast_add]
  constructor
  · intro htimeout
    have hw := hs (h.timeout ▸ htimeout)
    have hdispatched : pc ∈ s'.dispatched := by simp [h.dispatched]
    exact hw.tail.update (nodup_cons.mp hw.distinct).1 (hw.notMem pc mem_cons_self)
      htask (by simp [hrunning]) (fun _ => ⟨hw.mem pc mem_cons_self, hdispatched⟩) h.queries
      fun q _ hq => h.dispatched ▸ mem_append_left [pc] hq
  · intro lc
    cases htimeout : s.timeout with
    | true =>
      rw [excess, excess, h.decs, hincs, live_of_timeout htimeout,
        live_of_timeout (h.timeout.trans htimeout), if_pos rfl]
      omega
    | false =>
      have hw := hs htimeout
      have hcount := hholds (hw.koala pc (hw.waits pc mem_cons_self)) lc
      have hexcess := excess_update lc (hw.mem pc mem_cons_self) htimeout
        (h.timeout.trans htimeout) htask
      rw [hw.holds_eq_false mem_cons_self, Bool.toNat_false, ← hcount, h.decs, hincs]
        at hexcess
      rw [if_neg Bool.false_ne_true]
      omega

/-- The tasks of a list are dispatched one after the other. -/
inductive StartsAll : DoHelaTask → List ℕ → List ℕ → DoHelaTask → Prop
  | nil (s : DoHelaTask) : StartsAll s [] [] s
  | cons {s s₁ s' : DoHelaTask} {pc : ℕ} {hits l hits' : List ℕ} (head : Starts s pc hits s₁)
      (tail : StartsAll s₁ l hits' s') : StartsAll s (pc :: l) (hits ++ hits') s'

theorem StartsAll.timeout {hits : List ℕ} (h : StartsAll s l hits s') :
    s'.timeout = s.timeout := by
  induction h with
  | nil s => rfl
  | cons head tail ih => exact ih.trans head.timeout

theorem StartsAll.waiting {hits acc : List ℕ} (h : StartsAll s l hits s')
    (hs : s.timeout = false → Waiting b s (l ++ acc)) :
    (s'.timeout = false → Waiting b s' acc) ∧
      ∀ lc, s'.excess b lc = s.excess b lc + if s.timeout then (hits.count lc : ℤ) else 0 := by
  induction h with
  | nil s => exact ⟨hs, fun lc => by simp⟩
  | cons head tail ih =>
    obtain ⟨hhead, hexcess⟩ := head.waiting hs
    obtain ⟨htail, hexcess'⟩ := ih hhead
    refine ⟨htail, fun lc => ?_⟩
    rw [hexcess', hexcess, head.timeout, count_append, add_assoc]
    split_ifs <;> simp

theorem StartsAll.consistent {hits : List ℕ} (h : StartsAll s l hits s')
    (hs : s.timeout = false → Waiting b s l) :
    (s'.timeout = false → Consistent b s') ∧
      ∀ lc, s'.excess b lc = s.excess b lc + if s.timeout then (hits.count lc : ℤ) else 0 := by
  rw [← append_nil l] at hs
  exact (h.waiting hs).imp_left fun hw htimeout => (hw htimeout).toConsistent

theorem startsAll_dispatchAll (s : DoHelaTask) (query : List ℕ) :
    StartsAll s query [] (s.dispatchAll query) := by
  induction query generalizing s with
  | nil => exact .nil s
  | cons pc query ih => exact .cons (starts_dispatchHelaPcTask s pc) (ih _)

/-- The source lcs that an answer gives to the tasks of a query. -/
def hits : Map ℕ ℕ → List ℕ → List ℕ
  | _, [] => []
  | route, pc :: query =>
    match route.lookup pc with
    | none => hits route query
    | some lcId => lcId :: hits (route.erase pc) query

theorem startsAll_dispatchQueried (route : Map ℕ ℕ) (s : DoHelaTask) (query : List ℕ) :
    StartsAll s query (hits route query) (dispatchQueried route query s) := by
  induction query generalizing route s with
  | nil => exact .nil s
  | cons pc query ih =>
    rw [hits, dispatchQueried]
    cases route.lookup pc with
    | none => exact .cons (starts_dispatchHelaPcTask s pc) (ih _ _)
    | some lcId =>
      exact .cons (starts_dispatchFromChunk s pc .remoteChunk (by decide) lcId) (ih _ _)

theorem hits_eq_nil_iff {route : Map ℕ ℕ} {query : List ℕ} :
    hits route query = [] ↔ ∀ pc ∈ query, pc ∉ route := by
  induction query with
  | nil => simp [hits]
  | cons pc query ih =>
    rw [hits, forall_mem_cons, ← AList.lookup_eq_none]
    cases route.lookup pc with
    | none => simp [ih]
    | some lcId => simp

/-! ### A scheduling round -/

theorem Waiting.finishEmpty (hw : Waiting b s l) (hs : s.timeout = false) (hpc : pc ∈ b.pcs)
    (hl : pc ∉ l) (hready : (s.task pc).status = .ready) :
    Waiting b (s.finishEmpty pc) l ∧ ∀ lc, (s.finishEmpty pc).excess b lc = s.excess b lc := by
  have htask : (s.finishEmpty pc).task =
      Function.update s.task pc { s.task pc with status := .done } := rfl
  have hquery : pc ∉ s.queries.flatten := hw.notMem_queries (by simp [hready])
  refine ⟨hw.update hl hquery htask (by simp) (by simp) rfl fun q _ hq => hq, fun lc => ?_⟩
  have hs' : (s.finishEmpty pc).timeout = false := hs
  have hupdate := excess_update lc hpc hs hs' htask
  have hwaits : (s.task pc).holds lc = false := DoHelaTask.holds_eq_false (by simp [hready])
  rw [hwaits, DoHelaTask.holds_eq_false (by simp)] at hupdate
  exact add_right_cancel (add_right_cancel hupdate)

/-- The first loop of a round takes tasks that wait, and ends the ready tasks without data. -/
theorem waiting_scheduleLoop {lap : List ℕ} {can : ℕ} {r : List ℕ × DoHelaTask}
    (h : scheduleLoop b lap can s = some r) (hlap : ∀ pc ∈ lap, pc ∈ b.pcs) (hnodup : lap.Nodup)
    (hs : s.timeout = false) (hw : Waiting b s []) :
    r.2.timeout = false ∧ Waiting b r.2 r.1 ∧ ∀ lc, r.2.excess b lc = s.excess b lc := by
  have hround := scheduleLoop_invariant (I := fun l s' => s'.timeout = false ∧ Waiting b s' l ∧
    ∀ lc, s'.excess b lc = s.excess b lc) h hnodup
    (fun l s' ⟨hs, hw, hexcess⟩ => ⟨hs, hw.of_eq rfl rfl rfl, hexcess⟩)
    (fun l s' pc hpc hl hready ⟨hs, hw, hexcess⟩ =>
      ⟨hs, hw.cons (hlap pc hpc) hl hready, hexcess⟩)
    (fun l s' pc hpc hl hready ⟨hs, hw, hexcess⟩ => ?_) ⟨hs, hw, fun lc => rfl⟩
  · exact ⟨hround.1, hround.2.1.perm r.1.reverse_perm, hround.2.2⟩
  · obtain ⟨hw', hfinish⟩ := hw.finishEmpty hs (hlap pc hpc) hl hready
    exact ⟨hs, hw', fun lc => (hfinish lc).trans (hexcess lc)⟩

variable (localLc : ℕ → Option ℕ)

theorem startsAll_dispatchLocal (tasks : List ℕ) (s : DoHelaTask) :
    ∃ l hits, tasks.Perm (l ++ (dispatchLocal localLc tasks s).1) ∧
      StartsAll s l hits (dispatchLocal localLc tasks s).2 := by
  induction tasks generalizing s with
  | nil => exact ⟨[], [], List.Perm.refl _, .nil s⟩
  | cons pc tasks ih =>
    rw [dispatchLocal]
    cases localLc pc with
    | some lcId =>
      obtain ⟨l, hits, hperm, hall⟩ := ih (s.dispatchFromChunk pc .localChunk lcId)
      exact ⟨pc :: l, _, hperm.cons pc,
        .cons (starts_dispatchFromChunk s pc .localChunk (by decide) lcId) hall⟩
    | none =>
      obtain ⟨l, hits, hperm, hall⟩ := ih s
      exact ⟨l, hits, (hperm.cons pc).trans perm_middle.symm, hall⟩

/-- What `HandleHelaPcTask` does: some tasks are dispatched, and then the rest of them are
dispatched too, or wait for an answer. -/
theorem handleHelaPcTask_cases (idun : Bool) (tasks : List ℕ)
    (s : DoHelaTask) : ∃ l rest hits s₁, tasks.Perm (l ++ rest) ∧ StartsAll s l hits s₁ ∧
      (handleHelaPcTask localLc idun tasks s = s₁.queryIdunResource rest ∨
        ∃ hits', StartsAll s₁ rest hits' (handleHelaPcTask localLc idun tasks s)) := by
  obtain ⟨l, hits, hperm, hall⟩ := startsAll_dispatchLocal localLc tasks s
  refine ⟨l, _, hits, _, hperm, hall, ?_⟩
  rw [handleHelaPcTask]
  split_ifs with hnone hidun
  · rw [hnone]
    exact .inr ⟨[], .nil _⟩
  · exact .inl rfl
  · exact .inr ⟨[], startsAll_dispatchAll _ _⟩

theorem task_queryIdunResource_of_mem (hpc : pc ∈ l) :
    (s.queryIdunResource l).task pc = { s.task pc with status := .query } := if_pos hpc

theorem task_queryIdunResource_of_notMem (hpc : pc ∉ l) :
    (s.queryIdunResource l).task pc = s.task pc := if_neg hpc

theorem Waiting.consistent_queryIdunResource (hw : Waiting b s l) :
    Consistent b (s.queryIdunResource l) := by
  have hflatten : (s.queryIdunResource l).queries.flatten = s.queries.flatten ++ l := by
    simp [DoHelaTask.queryIdunResource]
  refine ⟨fun pc hpc => ?_, fun pc hpc => ?_, ?_, fun pc hpc => ?_⟩
  · by_cases hl : pc ∈ l
    · rw [task_queryIdunResource_of_mem hl]
      exact hw.koala pc (hw.waits pc hl)
    · rw [task_queryIdunResource_of_notMem hl] at hpc ⊢
      exact hw.koala pc hpc
  · rw [hflatten] at hpc
    by_cases hl : pc ∈ l
    · rw [task_queryIdunResource_of_mem hl]
      exact ⟨hw.mem pc hl, rfl⟩
    · rw [task_queryIdunResource_of_notMem hl]
      exact hw.query pc ((mem_append.mp hpc).resolve_right hl)
  · rw [hflatten]
    exact hw.nodup.append hw.distinct fun pc hquery hl => hw.notMem pc hl hquery
  · by_cases hl : pc ∈ l
    · simp [task_queryIdunResource_of_mem hl] at hpc
    · rw [task_queryIdunResource_of_notMem hl] at hpc
      exact hw.running pc hpc

theorem Waiting.excess_queryIdunResource (hw : Waiting b s l) (hs : s.timeout = false) (lc : ℕ) :
    (s.queryIdunResource l).excess b lc = s.excess b lc := by
  have hs' : (s.queryIdunResource l).timeout = false := hs
  have hlive : (s.queryIdunResource l).live b lc = s.live b lc := by
    rw [live_of_not_timeout hs, live_of_not_timeout hs']
    refine countP_congr fun pc _ => ?_
    by_cases hl : pc ∈ l
    · rw [task_queryIdunResource_of_mem hl, hw.holds_eq_false hl,
        DoHelaTask.holds_eq_false (by simp)]
    · rw [task_queryIdunResource_of_notMem hl]
  rw [excess, hlive]
  rfl

theorem Waiting.handleHelaPcTask (idun : Bool) (hw : Waiting b s l) (hs : s.timeout = false) :
    Consistent b (handleHelaPcTask localLc idun l s) ∧
      ∀ lc, (handleHelaPcTask localLc idun l s).excess b lc = s.excess b lc := by
  obtain ⟨l₁, rest, hits, s₁, hperm, hall, hrest⟩ := handleHelaPcTask_cases localLc idun l s
  have hs₁ := hall.timeout.trans hs
  obtain ⟨hw₁, hexcess₁⟩ := hall.waiting fun _ => hw.perm hperm
  simp only [hs, Bool.false_eq_true, if_false, add_zero] at hexcess₁
  rcases hrest with heq | ⟨hits', hall'⟩
  · rw [heq]
    exact ⟨(hw₁ hs₁).consistent_queryIdunResource,
      fun lc => ((hw₁ hs₁).excess_queryIdunResource hs₁ lc).trans (hexcess₁ lc)⟩
  · obtain ⟨hc, hexcess₂⟩ := hall'.consistent hw₁
    simp only [hs₁, Bool.false_eq_true, if_false, add_zero] at hexcess₂
    exact ⟨hc (hall'.timeout.trans hs₁), fun lc => (hexcess₂ lc).trans (hexcess₁ lc)⟩

theorem Consistent.waiting_round {can : ℕ} {r : List ℕ × DoHelaTask} (hc : Consistent b s)
    (hs : s.timeout = false)
    (hloop : scheduleLoop b (b.pcs.rotate s.scheduleIter) can s = some r) :
    r.2.timeout = false ∧ Waiting b r.2 r.1 ∧ ∀ lc, r.2.excess b lc = s.excess b lc :=
  waiting_scheduleLoop hloop (fun _ => mem_rotate.mp) (nodup_rotate.mpr b.nodup) hs
    hc.waiting_nil

/-- A scheduling round keeps the tasks consistent and takes references for running tasks only. -/
theorem consistent_scheduleHelaPcTask {localLc : ℕ → Option ℕ} {idun : Bool}
    (h : s.scheduleHelaPcTask b localLc idun = some s')
    (hs : s.timeout = false → Consistent b s) :
    (s'.timeout = false → Consistent b s') ∧ ∀ lc, s'.excess b lc = s.excess b lc := by
  rw [scheduleHelaPcTask] at h
  split_ifs at h with hdone
  · exact some.inj h ▸ ⟨hs, fun lc => rfl⟩
  · have htimeout : s.timeout = false := by
      rw [Bool.or_eq_true, not_or] at hdone
      exact Bool.eq_false_iff.mpr hdone.2
    obtain ⟨num, -, h⟩ := bind_eq_some_iff.mp h
    obtain ⟨r, hloop, rfl⟩ := map_eq_some_iff.mp h
    have hc : Consistent b { s with maxConcurenceNum := num } := (hs htimeout).of_eq rfl rfl rfl
    obtain ⟨hs₁, hw₁, hexcess₁⟩ := hc.waiting_round htimeout hloop
    obtain ⟨hc, hexcess₂⟩ := hw₁.handleHelaPcTask localLc idun hs₁
    have hexcess : ∀ lc, (handleHelaPcTask localLc idun r.1 r.2).excess b lc = s.excess b lc :=
      fun lc => (hexcess₂ lc).trans (hexcess₁ lc)
    dsimp only [checkHelaTaskFinish]
    split_ifs
    · exact ⟨fun _ => hc.of_eq rfl rfl rfl, hexcess⟩
    · exact ⟨fun _ => hc, hexcess⟩

/-! ### Answers, results and the timeout -/

theorem Consistent.waiting_erase {query : List ℕ} (h : Consistent b s)
    (hquery : query ∈ s.queries) :
    Waiting b { s with queries := s.queries.erase query } query := by
  have hperm : s.queries.flatten.Perm (query ++ (s.queries.erase query).flatten) :=
    (perm_cons_erase hquery).flatten
  obtain ⟨hdistinct, hnodup, hdisjoint⟩ := nodup_append'.mp (hperm.nodup_iff.mp h.nodup)
  have hmem : ∀ pc ∈ query, pc ∈ b.pcs ∧ (s.task pc).status = .query :=
    fun pc hpc => h.query pc (hperm.mem_iff.mpr (mem_append_left _ hpc))
  exact
    { koala := h.koala
      query := fun pc hpc => h.query pc (hperm.mem_iff.mpr (mem_append_right query hpc))
      nodup := hnodup
      running := h.running
      distinct := hdistinct
      mem := fun pc hpc => (hmem pc hpc).1
      notMem := fun pc hpc hrest => hdisjoint hpc hrest
      waits := fun pc hpc => .inr (hmem pc hpc).2 }

theorem StartsAll.answered {query hits : List ℕ} (hs : s.timeout = false → Consistent b s)
    (hquery : query ∈ s.queries)
    (h : StartsAll { s with queries := s.queries.erase query } query hits s') :
    (s'.timeout = false → Consistent b s') ∧
      ∀ lc, s'.excess b lc = s.excess b lc + if s.timeout then (hits.count lc : ℤ) else 0 :=
  h.consistent fun htimeout => (hs htimeout).waiting_erase hquery

theorem Consistent.ignore (h : Consistent b s)
    (hpc : pc ∈ b.pcs → (s.task pc).status ≠ .running) :
    Consistent b { s with dispatched := s.dispatched.erase pc } := by
  refine ⟨h.koala, h.query, h.nodup, fun q hq => ?_⟩
  obtain ⟨hmem, hdispatched⟩ := h.running q hq
  have hne : q ≠ pc := by
    rintro rfl
    exact hpc hmem hq
  exact ⟨hmem, (mem_erase_of_ne hne).mpr hdispatched⟩

theorem decResourceRef_eq (s : DoHelaTask) (pc : ℕ) :
    s.decResourceRef pc = { s with
      decs := if (s.task pc).srcType = .koala then s.decs else (s.task pc).lcId :: s.decs } := by
  rw [decResourceRef]
  split_ifs <;> rfl

/-- The reference that a running task holds is given back, and the task goes on without one. -/
theorem Consistent.giveBack (h : Consistent b s) (hs : s.timeout = false)
    (hpc : pc ∈ b.pcs) (hrunning : (s.task pc).status = .running)
    (htask : s'.task = update s.task pc t)
    (ht : t.status = .done ∨ t.status = .fail ∨
      t.status = .running ∧ t.srcType = .koala ∧ pc ∈ s'.dispatched)
    (htimeout : s'.timeout = s.timeout) (hqueries : s'.queries = s.queries)
    (hdispatched : ∀ q, q ≠ pc → q ∈ s.dispatched → q ∈ s'.dispatched) (hincs : s'.incs = s.incs)
    (hdecs : s'.decs = (s.decResourceRef pc).decs) :
    Consistent b s' ∧ ∀ lc, s'.excess b lc = s.excess b lc := by
  have hquery : pc ∉ s.queries.flatten := h.notMem_queries (by simp [hrunning])
  constructor
  · refine (h.waiting_nil.update not_mem_nil hquery htask ?_ (fun hrun => ⟨hpc, ?_⟩) hqueries
      hdispatched).toConsistent
    · rcases ht with ht | ht | ⟨ht, -⟩ <;> simp [ht]
    · rcases ht with ht | ht | ⟨-, -, hmem⟩
      · simp [ht] at hrun
      · simp [ht] at hrun
      · exact hmem
  · intro lc
    have hnew : t.holds lc = false := by
      rcases ht with ht | ht | ⟨-, ht, -⟩ <;> simp [HelaPcTask.holds, ht]
    have hcount : (s'.decs.count lc : ℤ) = s.decs.count lc + ((s.task pc).holds lc).toNat := by
      rw [hdecs, decResourceRef_eq]
      by_cases hkoala : (s.task pc).srcType = .koala
      · simp [HelaPcTask.holds, hkoala]
      · by_cases hlc : (s.task pc).lcId = lc <;>
          simp [HelaPcTask.holds, hkoala, hrunning, hlc]
    have hupdate := excess_update lc hpc hs (htimeout.trans hs) htask
    rw [hnew, hincs, hcount, Bool.toNat_false] at hupdate
    omega

/-- A result gives the reference of its task back. -/
theorem Consistent.handlePcTaskResult (h : Consistent b s) (hs : s.timeout = false)
    (retcode : Retcode) :
    Consistent b ({ s with dispatched := s.dispatched.erase pc }.handlePcTaskResult b pc retcode) ∧
      ∀ lc, ({ s with dispatched := s.dispatched.erase pc }.handlePcTaskResult b pc
        retcode).excess b lc = s.excess b lc := by
  have hdispatched : ∀ q, q ≠ pc → q ∈ s.dispatched → q ∈ s.dispatched.erase pc :=
    fun q hq hmem => (mem_erase_of_ne hq).mpr hmem
  rw [DoHelaTask.handlePcTaskResult, if_neg (by simp [hs]), decResourceRef_eq]
  by_cases hpc : pc ∈ b.pcs
  · by_cases hrunning : (s.task pc).status = .running
    · rw [if_neg (not_not.mpr hpc), if_neg (not_not.mpr hrunning)]
      cases retcode with
      | success =>
        exact h.giveBack hs hpc hrunning rfl (.inl rfl) rfl rfl hdispatched rfl
          (by rw [decResourceRef_eq]; rfl)
      | sourceUnavailable =>
        -- it is dispatched again, with the koala source
        refine h.giveBack hs hpc hrunning (update_idem ..) (.inr (.inr ⟨rfl, ?_, ?_⟩)) rfl
          rfl (fun q hq hmem => mem_append_left _ (hdispatched q hq hmem)) rfl
          (by rw [decResourceRef_eq]; rfl)
        · simp [setTask]
        · exact mem_append_right _ mem_cons_self
      | fail =>
        exact h.giveBack hs hpc hrunning rfl (.inr (.inl rfl)) rfl rfl hdispatched rfl
          (by rw [decResourceRef_eq]; rfl)
    · rw [if_neg (not_not.mpr hpc), if_pos hrunning]
      exact ⟨h.ignore fun _ => hrunning, fun lc => rfl⟩
  · rw [if_pos hpc]
    exact ⟨h.ignore fun hmem => absurd hmem hpc, fun lc => rfl⟩

theorem excess_taskTimeOut (hs : s.timeout = false) :
    (s.taskTimeOut b).excess b lc = s.excess b lc := by
  have hcount : (s.heldLcs b).count lc = s.live b lc := by
    rw [live_of_not_timeout hs, heldLcs, count_eq_countP, countP_map, countP_filter]
    refine countP_congr fun pc _ => ?_
    simp [HelaPcTask.holds]
    tauto
  have htimeout : (s.taskTimeOut b).timeout = true := rfl
  have hdecs : (s.taskTimeOut b).decs.count lc = s.live b lc + s.decs.count lc :=
    count_append.trans (by rw [count_reverse, hcount])
  rw [excess, excess, live_of_timeout htimeout, hdecs]
  dsimp only [taskTimeOut]
  omega

/-! ### Runs -/

/-- The source lcs that an event gives to tasks after the timeout of the batch. -/
def lateHits (s : DoHelaTask) : Event → List ℕ
  | .queryResponse query (some lcInfos) =>
    if s.timeout then hits (idunRoute lcInfos) query else []
  | _ => []

/-- After the timeout of the batch, an answer names a source for a task of its query. -/
def LateHit (s : DoHelaTask) (e : Event) : Prop :=
  s.timeout = true ∧ ∃ query lcInfos, e = .queryResponse query (some lcInfos) ∧
    ∃ pc ∈ query, ∃ lcInfo ∈ lcInfos, pc ∈ lcInfo.2

variable {e : Event}

theorem lateHits_eq_nil_iff : s.lateHits e = [] ↔ ¬LateHit s e := by
  cases e with
  | queryResponse query res =>
    cases res with
    | none => simp [lateHits, LateHit]
    | some lcInfos =>
      cases htimeout : s.timeout with
      | false => simp [lateHits, LateHit, htimeout]
      | true =>
        rw [lateHits, htimeout, if_pos rfl, hits_eq_nil_iff]
        simp [LateHit, htimeout, mem_idunRoute]
  | schedule | queryTimeout | result | taskTimeOut => simp [lateHits, LateHit]

/-- **One event.** It keeps the tasks consistent, and only late hits change the excess. -/
theorem excess_step (h : step b s e = some s') (hs : s.timeout = false → Consistent b s) :
    (s'.timeout = false → Consistent b s') ∧
      ∀ lc, s'.excess b lc = s.excess b lc + (s.lateHits e).count lc := by
  cases e with
  | schedule localLc idun =>
    obtain ⟨hc, hexcess⟩ := consistent_scheduleHelaPcTask h hs
    exact ⟨hc, fun lc => by simp [hexcess, lateHits]⟩
  | queryResponse query res =>
    simp only [step, ite_none_right_eq_some, some.injEq] at h
    obtain ⟨hquery, rfl⟩ := h
    cases res with
    | none =>
      obtain ⟨hc, hexcess⟩ := (startsAll_dispatchAll _ query).answered hs hquery
      exact ⟨hc, fun lc => (hexcess lc).trans (by simp [lateHits])⟩
    | some lcInfos =>
      obtain ⟨hc, hexcess⟩ :=
        (startsAll_dispatchQueried (idunRoute lcInfos) _ query).answered hs hquery
      refine ⟨hc, fun lc => (hexcess lc).trans ?_⟩
      rw [lateHits]
      split_ifs <;> rfl
  | queryTimeout query =>
    simp only [step, ite_none_right_eq_some, some.injEq] at h
    obtain ⟨hquery, rfl⟩ := h
    obtain ⟨hc, hexcess⟩ := (startsAll_dispatchAll _ query).answered hs hquery
    exact ⟨hc, fun lc => (hexcess lc).trans (by simp [lateHits])⟩
  | result pc retcode =>
    simp only [step, ite_none_right_eq_some, some.injEq] at h
    obtain ⟨-, rfl⟩ := h
    by_cases htimeout : s.timeout = true
    · -- the result comes too late and is ignored
      rw [DoHelaTask.handlePcTaskResult, if_pos htimeout]
      exact ⟨fun hfalse => absurd (htimeout.symm.trans hfalse) (by decide),
        fun lc => (add_zero _).symm⟩
    · rw [Bool.not_eq_true] at htimeout
      obtain ⟨hc, hexcess⟩ := (hs htimeout).handlePcTaskResult htimeout retcode
      exact ⟨fun _ => hc, fun lc => (hexcess lc).trans (by simp [lateHits])⟩
  | taskTimeOut =>
    simp only [step, ite_none_left_eq_some, some.injEq, Bool.or_eq_true,
      not_or, Bool.not_eq_true] at h
    obtain ⟨⟨htimeout, -⟩, rfl⟩ := h
    exact ⟨fun hfalse => absurd hfalse (by simp [DoHelaTask.taskTimeOut]),
      fun lc => (excess_taskTimeOut htimeout).trans (add_zero _).symm⟩

/-- The tasks are consistent until the timeout, and what is given back or held has been taken. -/
structure Accounted (b : Batch) (s : DoHelaTask) : Prop where
  consistent : s.timeout = false → Consistent b s
  excess_nonneg : ∀ lc, 0 ≤ s.excess b lc

theorem Accounted.step (hs : Accounted b s) (hstep : step b s e = some s') : Accounted b s' := by
  obtain ⟨hc, hexcess⟩ := excess_step hstep hs.consistent
  refine ⟨hc, fun lc => ?_⟩
  rw [hexcess]
  exact add_nonneg (hs.excess_nonneg lc) (Int.natCast_nonneg _)

/-- The excess stays zero as long as there are no late hits, and not longer: no event lowers it. -/
theorem Accounted.excess_eq_zero_iff (hs : Accounted b s)
    (hstep : DoHelaTask.step b s e = some s') :
    (∀ lc, s'.excess b lc = 0) ↔ (∀ lc, s.excess b lc = 0) ∧ ¬LateHit s e := by
  obtain ⟨-, hexcess⟩ := excess_step hstep hs.consistent
  rw [← lateHits_eq_nil_iff, eq_nil_iff_forall_not_mem, ← forall_and]
  refine forall_congr' fun lc => ?_
  have hnonneg := hs.excess_nonneg lc
  rw [hexcess, ← count_eq_zero]
  omega

theorem consistent_init (b : Batch) : Consistent b (init b) where
  koala := fun _ _ => rfl
  query := fun _ hpc => absurd hpc not_mem_nil
  nodup := nodup_nil
  running := fun _ hpc => absurd hpc (by simp [init, HelaPcTask.new])

theorem excess_init (b : Batch) (lc : ℕ) : (init b).excess b lc = 0 := by
  have hlive : (init b).live b lc = 0 := by
    rw [live_of_not_timeout rfl]
    exact countP_eq_zero.mpr fun pc _ => by simp [init, HelaPcTask.new, HelaPcTask.holds]
  rw [excess, hlive]
  rfl

theorem accounted_init (b : Batch) : Accounted b (init b) :=
  ⟨fun _ => consistent_init b, fun lc => (excess_init b lc).ge⟩

theorem live_of_dispatched_eq_nil (hs : s.timeout = false → Consistent b s)
    (hdispatched : s.dispatched = []) (lc : ℕ) : s.live b lc = 0 := by
  cases htimeout : s.timeout with
  | true => exact live_of_timeout htimeout
  | false =>
    rw [live_of_not_timeout htimeout]
    refine countP_eq_zero.mpr fun pc _ => ?_
    have hrunning : (s.task pc).status ≠ .running := by
      intro hrunning
      have hmem := ((hs htimeout).running pc hrunning).2
      rw [hdispatched] at hmem
      exact absurd hmem not_mem_nil
    simp [holds_eq_false hrunning]

/-- **References to source disks.** At no time more references have been given back than taken. When
no query and no task is outstanding, all of them have been given back exactly if no answer named a
source after the timeout of the batch. -/
theorem balanced_iff {b : Batch} {s : DoHelaTask} {es : List Event}
    (h : exec (step b) (init b) es = some s) :
    (∀ lc, s.decs.count lc ≤ s.incs.count lc) ∧
      (s.queries = [] → s.dispatched = [] →
        ((∀ lc, s.incs.count lc = s.decs.count lc) ↔
          AllSteps (step b) (fun s e => ¬LateHit s e) (init b) es)) := by
  have hs : Accounted b s := exec_invariant (Accounted b) (fun _ _ _ => .step) (accounted_init b) h
  refine ⟨fun lc => ?_, fun _ hdispatched => ?_⟩
  · have hnonneg := hs.excess_nonneg lc
    rw [excess] at hnonneg
    omega
  · have hiff : (∀ lc, s.excess b lc = 0) ↔ (∀ lc, (init b).excess b lc = 0) ∧
        AllSteps (step b) (fun s e => ¬LateHit s e) (init b) es :=
      and_allSteps_iff (B := fun s => ∀ lc, s.excess b lc = 0) (Accounted b) (fun _ _ _ => .step)
        (fun _ _ _ => Accounted.excess_eq_zero_iff) (accounted_init b) h
    rw [and_iff_right (excess_init b)] at hiff
    rw [← hiff]
    refine forall_congr' fun lc => ?_
    -- nothing is held, so the excess is the difference of the two counts
    rw [excess, live_of_dispatched_eq_nil hs.consistent hdispatched]
    omega

/-- One pc with data, which is scheduled at once. -/
def onePc : Batch := ⟨[0], by decide, fun _ => true, 40, 4194304, false, 1⟩

/-- The answer comes in time, and the result of the task gives its reference back. -/
theorem balanced_of_inTime :
    ∃ s, exec (step onePc) (init onePc)
        [.schedule (fun _ => none) true, .queryResponse [0] (some [(7, [0])]), .result 0 .success] =
          some s ∧ s.incs = [7] ∧ ∀ lc, s.incs.count lc = s.decs.count lc :=
  exists_exec_mono (P := fun s => s.incs = [7] ∧ s.queries = [] ∧ s.dispatched = [])
    (by decide +kernel) fun _ h ⟨hincs, hqueries, hdispatched⟩ =>
      ⟨hincs, ((balanced_iff h).2 hqueries hdispatched).mpr <|
        (allSteps_cons rfl).mpr ⟨fun hlate => Bool.false_ne_true hlate.1,
        (allSteps_cons rfl).mpr ⟨fun hlate => Bool.false_ne_true hlate.1,
        (allSteps_cons rfl).mpr ⟨fun hlate => Bool.false_ne_true hlate.1, trivial⟩⟩⟩⟩

/-- The batch times out while the query is outstanding. The answer names the source lc 7, the task
is dispatched with a reference to it, and its result is ignored. -/
theorem late_hit_keeps_reference :
    ∃ s, exec (step onePc) (init onePc)
        [.schedule (fun _ => none) true, .taskTimeOut, .queryResponse [0] (some [(7, [0])]),
          .result 0 .success] = some s ∧
      s.timeout = true ∧ s.queries = [] ∧ s.dispatched = [] ∧ s.incs = [7] ∧ s.decs = [] := by
  decide +kernel

end DoHelaTask

end Hela
