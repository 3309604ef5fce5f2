import Notebook.Cyber.Croutine.CRoutine
import Mathlib.Data.List.Basic
import Mathlib.Order.Lattice

/-!
# The next routine of a processor

`ClassicContext::NextRoutine` (`scheduler/policy/classic_context.cc`) looks for a croutine to run in
the queues of its group, from the highest priority to the lowest. It acquires each croutine that no
processor holds, calls `UpdateState`, returns the croutine if it is `READY` and releases it
otherwise. `UpdateState` takes the update flag of every croutine that the scan comes to, also of
those that it cannot wake.

The queues hold any croutines here, also one croutine several times. The scan runs without
interference and at one time `now`.
-/

open Function List Option

namespace Cyber

/-- `MAX_PRIO` -/
abbrev maxPrio : ℕ := 20

/-- The fields of a `CRoutine` that `Acquire`, `UpdateState` and `Release` work on. The flag
`updated_` is set while no update is pending. -/
structure QueuedRoutine where
  state : RoutineState
  wakeTime : ℤ
  lock : Bool
  updated : Bool
deriving DecidableEq, Repr

namespace QueuedRoutine

/-- `Acquire` -/
def acquire (r : QueuedRoutine) : Option QueuedRoutine :=
  if r.lock then none else some { r with lock := true }

/-- `UpdateState`, at the time `now`. -/
def updateState (now : ℤ) (r : QueuedRoutine) : QueuedRoutine :=
  if r.state = .sleep ∧ r.wakeTime < now then { r with state := .ready }
  else if r.updated then r
  else if r.state = .dataWait ∨ r.state = .ioWait then
    { r with updated := true, state := .ready }
  else { r with updated := true }

/-- `Release` -/
def release (r : QueuedRoutine) : QueuedRoutine := { r with lock := false }

/-- The croutine can be acquired and is `READY` after `UpdateState`. -/
def runnable (now : ℤ) (r : QueuedRoutine) : Bool :=
  !r.lock && decide ((r.updateState now).state = .ready)

/-- The croutine as a processor gets it from the scan. -/
def taken (now : ℤ) (r : QueuedRoutine) : QueuedRoutine := { r.updateState now with lock := true }

/-- The croutine after a visit that did not wake it. -/
def settled (r : QueuedRoutine) : QueuedRoutine := { r with updated := true }

variable {now : ℤ} {r : QueuedRoutine}

theorem updateState_lock (lock : Bool) :
    updateState now { r with lock } = { updateState now r with lock } := by
  unfold updateState
  split_ifs <;> rfl

theorem lock_updateState : (r.updateState now).lock = r.lock := by
  unfold updateState
  split_ifs <;> rfl

theorem runnable_iff :
    r.runnable now = true ↔ r.lock = false ∧ (r.updateState now).state = .ready := by
  simp [runnable]

theorem updateState_of_ne_ready (h : (r.updateState now).state ≠ .ready) :
    r.updateState now = r.settled := by
  unfold updateState at h ⊢
  split_ifs at h ⊢ with hsleep hflag hwait
  · exact absurd rfl h
  · rw [settled, ← hflag]
  · exact absurd rfl h
  · rfl

theorem runnable_settled (h : r.runnable now = false) : r.settled.runnable now = false := by
  rw [Bool.eq_false_iff, ne_eq, runnable_iff, not_and] at h ⊢
  intro hlock hready
  refine h hlock ?_
  by_cases hsleep : r.state = .sleep ∧ r.wakeTime < now
  · rw [updateState, if_pos hsleep]
  · -- without its flag the croutine keeps its state, so it was ready before
    have hkeep : r.settled.updateState now = r.settled := (if_neg hsleep).trans (if_pos rfl)
    have hstate : r.state = .ready := by rwa [hkeep] at hready
    rw [updateState, if_neg hsleep]
    split_ifs <;> first | exact hstate | rfl

/-! ### A visit -/

/-- What the scan does with one croutine: there is no result if it cannot be acquired, and else the
croutine is kept if it is ready and released if not. -/
def visit (now : ℤ) (r : QueuedRoutine) : Option QueuedRoutine :=
  r.acquire.map fun r =>
    if (r.updateState now).state = .ready then r.updateState now
    else (r.updateState now).release

theorem visit_of_runnable (h : r.runnable now = true) : r.visit now = some (r.taken now) := by
  obtain ⟨hlock, hready⟩ := runnable_iff.mp h
  rw [visit, acquire, hlock, if_neg Bool.false_ne_true, map_some, updateState_lock,
    if_pos hready, taken]

theorem visit_of_not_runnable (hlock : r.lock = false) (h : r.runnable now = false) :
    r.visit now = some r.settled := by
  have hready : (r.updateState now).state ≠ .ready := by
    intro hready
    rw [runnable_iff.mpr ⟨hlock, hready⟩] at h
    cases h
  rw [visit, acquire, hlock, if_neg Bool.false_ne_true, map_some, updateState_lock,
    if_neg hready, updateState_of_ne_ready hready, release, settled, ← hlock]

/-- The croutine in the model of its wake-ups, where a processor resumes what it has acquired. -/
def toCRoutine (r : QueuedRoutine) : CRoutine :=
  ⟨r.state, r.updated, if r.lock then .running else .free⟩

/-- **A visit is the visit of a processor.** In the model of a single croutine, `Acquire` and the
two halves of `UpdateState` are steps between which other threads may run; without interference
they give what the scan sees. -/
theorem visit_refines (now : ℤ) (r : QueuedRoutine) : (r.visit now).map toCRoutine =
    (r.toCRoutine.acquire (r.wakeTime < now)).bind fun cr =>
      if cr.phase = .updating then cr.update else some cr := by
  obtain ⟨state, wakeTime, lock, updated⟩ := r
  cases lock with
  | true => rfl
  | false =>
    by_cases hwake : wakeTime < now <;> cases state <;> cases updated <;>
      simp [visit, acquire, updateState, release, toCRoutine, CRoutine.acquire, CRoutine.update,
        CRoutine.resumeOrRelease, CRoutine.setState, hwake]

end QueuedRoutine

/-! ### The scan -/

/-- A `ClassicContext`: the queues of its group by priority, and all croutines. -/
structure ClassicContext where
  stop : Bool
  multiPriRq : ℕ → List ℕ
  croutines : ℕ → QueuedRoutine

namespace ClassicContext

/-- The inner loop of `NextRoutine`: the croutine that it returns, if any, and the croutines
afterwards. -/
def scanQueue (now : ℤ) : List ℕ → (ℕ → QueuedRoutine) → Option ℕ × (ℕ → QueuedRoutine)
  | [], crs => (none, crs)
  | cr :: queue, crs =>
    match (crs cr).acquire with
    | none => scanQueue now queue crs
    | some r =>
      let r := r.updateState now
      if r.state = .ready then (some cr, update crs cr r)
      else scanQueue now queue (update crs cr r.release)

/-- The outer loop of `NextRoutine`, over the priorities below `i`. -/
def scanPrios (now : ℤ) (rq : ℕ → List ℕ) :
    ℕ → (ℕ → QueuedRoutine) → Option ℕ × (ℕ → QueuedRoutine)
  | 0, crs => (none, crs)
  | i + 1, crs =>
    match scanQueue now (rq i) crs with
    | (some cr, crs) => (some cr, crs)
    | (none, crs) => scanPrios now rq i crs

/-- `NextRoutine` -/
def nextRoutine (now : ℤ) (c : ClassicContext) : Option ℕ × ClassicContext :=
  if c.stop then (none, c)
  else
    let r := scanPrios now c.multiPriRq maxPrio c.croutines
    (r.1, { c with croutines := r.2 })

open QueuedRoutine

variable {now : ℤ} {crs : ℕ → QueuedRoutine} {cr : ℕ} {queue : List ℕ}

/-- One round of the inner loop is a visit: the scan ends if it keeps the lock. -/
theorem scanQueue_visit : scanQueue now (cr :: queue) crs =
    match (crs cr).visit now with
    | none => scanQueue now queue crs
    | some r =>
      if r.lock then (some cr, update crs cr r)
      else scanQueue now queue (update crs cr r) := by
  rw [scanQueue, visit]
  cases hlock : (crs cr).lock with
  | true => rw [acquire, hlock, if_pos rfl, map_none]
  | false =>
    rw [acquire, hlock, if_neg Bool.false_ne_true, map_some]
    dsimp only
    by_cases hready : (updateState now { crs cr with lock := true }).state = .ready
    · rw [if_pos hready, if_pos hready, if_pos lock_updateState]
    · rw [if_neg hready, if_neg hready]
      rfl

theorem scanQueue_cons : scanQueue now (cr :: queue) crs =
    if (crs cr).runnable now then (some cr, update crs cr ((crs cr).taken now))
    else if (crs cr).lock then scanQueue now queue crs
    else scanQueue now queue (update crs cr (crs cr).settled) := by
  rw [scanQueue_visit]
  cases hrun : (crs cr).runnable now with
  | true => rw [visit_of_runnable hrun, if_pos rfl]; rfl
  | false =>
    rw [if_neg Bool.false_ne_true]
    cases hlock : (crs cr).lock with
    | true => rw [visit, acquire, if_pos hlock, map_none, if_pos rfl]
    | false =>
      rw [visit_of_not_runnable hlock hrun, if_neg Bool.false_ne_true]
      dsimp only
      rw [if_neg (by rw [settled, hlock]; exact Bool.false_ne_true)]

/-- The croutines after a scan that came to those in `visited` and returned `found`. -/
def afterScan (now : ℤ) (visited : List ℕ) (found : Option ℕ) (crs : ℕ → QueuedRoutine) :
    ℕ → QueuedRoutine := fun cr =>
  if found = some cr then (crs cr).taken now
  else if cr ∈ visited ∧ (crs cr).lock = false then (crs cr).settled
  else crs cr

theorem afterScan_nil : afterScan now [] none crs = crs := by
  funext x
  simp [afterScan]

variable {visited : List ℕ} {found : Option ℕ}

theorem afterScan_of_ne (h : found ≠ some cr) :
    (afterScan now visited found crs cr).lock = (crs cr).lock ∧
      (afterScan now visited found crs cr).state = (crs cr).state ∧
      (afterScan now visited found crs cr).wakeTime = (crs cr).wakeTime := by
  rw [afterScan, if_neg h]
  split_ifs <;> exact ⟨rfl, rfl, rfl⟩

theorem afterScan_taken :
    afterScan now [] (some cr) crs = update crs cr ((crs cr).taken now) := by
  funext x
  by_cases hx : x = cr
  · subst hx
    simp [afterScan]
  · simp [afterScan, Ne.symm hx, update_of_ne hx]

theorem afterScan_cons_of_lock (hlock : (crs cr).lock = true) :
    afterScan now (cr :: visited) found crs = afterScan now visited found crs := by
  funext x
  by_cases hx : x = cr
  · subst hx
    simp [afterScan, hlock]
  · simp [afterScan, hx]

theorem afterScan_cons_of_free (hlock : (crs cr).lock = false) (hfound : found ≠ some cr) :
    afterScan now (cr :: visited) found crs =
      afterScan now visited found (update crs cr (crs cr).settled) := by
  funext x
  by_cases hx : x = cr
  · subst hx
    simp [afterScan, hfound, hlock, settled]
  · simp [afterScan, hx]

theorem runnable_update_settled (hrun : (crs cr).runnable now = false) (x : ℕ) :
    (update crs cr (crs cr).settled x).runnable now = (crs x).runnable now := by
  by_cases hx : x = cr
  · subst hx
    rw [update_self, runnable_settled hrun, hrun]
  · rw [update_of_ne hx]

/-- **The scan of a queue.** It returns the first croutine that was runnable before the scan. It
keeps the lock of this croutine, and has taken the update flags of the free ones before it; nothing
else has changed. -/
theorem scanQueue_eq (now : ℤ) (queue : List ℕ) (crs : ℕ → QueuedRoutine) :
    scanQueue now queue crs = (queue.find? fun cr => (crs cr).runnable now,
      afterScan now (queue.takeWhile fun cr => !(crs cr).runnable now)
        (queue.find? fun cr => (crs cr).runnable now) crs) := by
  induction queue generalizing crs with
  | nil => rw [scanQueue, takeWhile_nil, find?_nil, afterScan_nil]
  | cons cr queue ih =>
    rw [scanQueue_cons, find?_cons, takeWhile_cons]
    cases hrun : (crs cr).runnable now with
    | true => exact congrArg (Prod.mk (some cr)) afterScan_taken.symm
    | false =>
      have hfound : queue.find? (fun x => (crs x).runnable now) ≠ some cr := by
        intro hfind
        have hfindRun := find?_some hfind
        simp only [hrun, Bool.false_eq_true] at hfindRun
      simp only [Bool.false_eq_true, if_false, if_true, Bool.not_false]
      cases hlock : (crs cr).lock with
      | true => rw [if_pos rfl, ih, afterScan_cons_of_lock hlock]
      | false =>
        rw [if_neg Bool.false_ne_true, ih, afterScan_cons_of_free hlock hfound]
        simp only [runnable_update_settled hrun]

/-! ### All queues -/

theorem scanQueue_append (p q : List ℕ) (crs : ℕ → QueuedRoutine) :
    scanQueue now (p ++ q) crs = match scanQueue now p crs with
      | (some cr, crs) => (some cr, crs)
      | (none, crs) => scanQueue now q crs := by
  induction p generalizing crs with
  | nil => rfl
  | cons cr p ih =>
    rw [cons_append, scanQueue_cons, scanQueue_cons]
    split_ifs
    · rfl
    · exact ih crs
    · exact ih _

/-- The croutines in the order of the scan. -/
def scanOrder (rq : ℕ → List ℕ) : ℕ → List ℕ
  | 0 => []
  | i + 1 => rq i ++ scanOrder rq i

variable {rq : ℕ → List ℕ} {n : ℕ}

theorem mem_scanOrder : cr ∈ scanOrder rq n ↔ ∃ i < n, cr ∈ rq i := by
  induction n with
  | zero => simp [scanOrder]
  | succ n ih =>
    rw [scanOrder, mem_append, ih]
    constructor
    · rintro (hcr | ⟨i, hi, hcr⟩)
      · exact ⟨n, Nat.lt_succ_self n, hcr⟩
      · exact ⟨i, hi.trans (Nat.lt_succ_self n), hcr⟩
    · rintro ⟨i, hi, hcr⟩
      rcases Nat.lt_succ_iff_lt_or_eq.mp hi with hlt | rfl
      · exact .inr ⟨i, hlt, hcr⟩
      · exact .inl hcr

/-- **The scan of the queues is the scan of one queue.** -/
theorem scanPrios_eq (now : ℤ) (rq : ℕ → List ℕ) (n : ℕ) (crs : ℕ → QueuedRoutine) :
    scanPrios now rq n crs = scanQueue now (scanOrder rq n) crs := by
  induction n generalizing crs with
  | zero => rfl
  | succ n ih =>
    rw [scanPrios, scanOrder, scanQueue_append]
    simp only [ih]

/-- What is found in the queues has a priority above which nothing could be found. -/
theorem exists_prio_of_find? {p : ℕ → Bool} (h : (scanOrder rq n).find? p = some cr) :
    ∃ i < n, cr ∈ rq i ∧ ∀ j < n, i < j → ∀ x ∈ rq j, p x = false := by
  induction n with
  | zero => cases h
  | succ n ih =>
    rw [scanOrder, find?_append, or_eq_some_iff] at h
    rcases h with hcr | ⟨hnone, hcr⟩
    · refine ⟨n, Nat.lt_succ_self n, mem_of_find?_eq_some hcr, ?_⟩
      intro j hj hlt
      exact absurd hlt (Nat.not_lt.mpr (Nat.le_of_lt_succ hj))
    · obtain ⟨i, hi, hmem, habove⟩ := ih hcr
      refine ⟨i, hi.trans (Nat.lt_succ_self n), hmem, fun j hj hlt x hx => ?_⟩
      rcases Nat.lt_succ_iff_lt_or_eq.mp hj with hj | rfl
      · exact habove j hj hlt x hx
      · exact Bool.eq_false_iff.mpr (find?_eq_none.mp hnone x hx)

/-- `NextRoutine` returns the first croutine in the order of the scan that is runnable. -/
theorem exists_nextRoutine_eq (now : ℤ) (c : ClassicContext) (hstop : c.stop = false) :
    ∃ visited found,
      (scanOrder c.multiPriRq maxPrio).find? (fun cr => (c.croutines cr).runnable now) = found ∧
      c.nextRoutine now =
        (found, { c with croutines := afterScan now visited found c.croutines }) := by
  refine ⟨(scanOrder c.multiPriRq maxPrio).takeWhile fun cr => !(c.croutines cr).runnable now, _,
    rfl, ?_⟩
  rw [nextRoutine, if_neg (by rw [hstop]; exact Bool.false_ne_true), scanPrios_eq, scanQueue_eq]

/-- **The next routine.** If the context is not shut down, `NextRoutine` returns null exactly if no
croutine of the queues can be acquired and is then `READY`. A croutine that it returns was free, is
acquired and `READY`, and no croutine of a higher priority was runnable before the scan. Every other
croutine has the lock, the state and the wake time that it had. -/
theorem nextRoutine_spec (now : ℤ) (c : ClassicContext) (hstop : c.stop = false) :
    let r := c.nextRoutine now
    (r.1 = none ↔ ∀ i < maxPrio, ∀ cr ∈ c.multiPriRq i, (c.croutines cr).runnable now = false) ∧
      (∀ cr, r.1 = some cr → (c.croutines cr).lock = false ∧ (r.2.croutines cr).lock = true ∧
        (r.2.croutines cr).state = .ready ∧
        r.2.croutines cr = { (c.croutines cr).updateState now with lock := true } ∧
        ∃ i < maxPrio, cr ∈ c.multiPriRq i ∧ ∀ j < maxPrio, i < j → ∀ x ∈ c.multiPriRq j,
          (c.croutines x).runnable now = false) ∧
      (∀ cr, r.1 ≠ some cr → (r.2.croutines cr).lock = (c.croutines cr).lock ∧
        (r.2.croutines cr).state = (c.croutines cr).state ∧
        (r.2.croutines cr).wakeTime = (c.croutines cr).wakeTime) ∧
      r.2.multiPriRq = c.multiPriRq ∧ r.2.stop = false := by
  obtain ⟨visited, found, hfound, hnext⟩ := exists_nextRoutine_eq now c hstop
  rw [hnext]
  dsimp only
  refine ⟨?_, fun cr hcr => ?_, fun cr hcr => afterScan_of_ne hcr, rfl, hstop⟩
  · rw [← hfound, find?_eq_none]
    constructor
    · intro h i hi cr hcr
      exact Bool.eq_false_iff.mpr (h cr (mem_scanOrder.mpr ⟨i, hi, hcr⟩))
    · intro h cr hcr
      obtain ⟨i, hi, hmem⟩ := mem_scanOrder.mp hcr
      exact Bool.eq_false_iff.mp (h i hi cr hmem)
  · subst hcr
    have hrun : (c.croutines cr).runnable now = true := by simpa using find?_some hfound
    obtain ⟨hlock, hready⟩ := runnable_iff.mp hrun
    have htaken : afterScan now visited (some cr) c.croutines cr = (c.croutines cr).taken now :=
      if_pos rfl
    rw [htaken]
    exact ⟨hlock, rfl, hready, rfl, exists_prio_of_find? hfound⟩

/-- Three croutines: one with priority 7 that another processor has acquired, one with priority 7
that waits for data and has no update, and one with priority 3 that waits for data and has one. -/
def threeRoutines (stop : Bool) : ClassicContext where
  stop := stop
  multiPriRq := fun prio => if prio = 7 then [1, 2] else if prio = 3 then [3] else []
  croutines := fun cr =>
    if cr = 1 then ⟨.ready, 0, true, true⟩
    else if cr = 2 then ⟨.dataWait, 0, false, true⟩
    else ⟨.dataWait, 0, false, false⟩

theorem nextRoutine_spec_three : ((threeRoutines false).nextRoutine 5).1 = some 3 ∧
    (((threeRoutines false).nextRoutine 5).2.croutines 3).state = .ready ∧
    (((threeRoutines false).nextRoutine 5).2.croutines 2).lock = false := by
  have hthree : ((threeRoutines false).nextRoutine 5).1 = some 3 := by decide
  have h := nextRoutine_spec 5 (threeRoutines false) rfl
  refine ⟨hthree, (h.2.1 3 hthree).2.2.1, (h.2.2.1 2 ?_).1⟩
  rw [hthree]
  decide

/-- A context that is shut down returns null although a croutine is runnable. -/
theorem nextRoutine_stopped : ((threeRoutines true).nextRoutine 5).1 = none ∧
    3 ∈ (threeRoutines true).multiPriRq 3 ∧
    ((threeRoutines true).croutines 3).runnable 5 = true := by
  decide

end ClassicContext

end Cyber
