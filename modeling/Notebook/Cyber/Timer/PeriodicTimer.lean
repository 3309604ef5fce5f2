import Notebook.Cyber.Timer.TimingWheel

/-!
# Periodic timers

The callback of a periodic timer (`Timer::InitTimerTask`, `timer/timer.cc`) measures how long the
user's function has taken and how far the starts have drifted from the period, and computes from
both when the timer is to fire next. It hands this duration to the timing wheel, which places
durations from one tick to below `TIMER_MAX_INTERVAL_MS` exactly.

The duration can be too long. The wheel may fire up to one tick early, and the execution time and
the error are rounded to milliseconds, so the duration can exceed the period by three milliseconds.
And an execution time just below the period is rounded up to it, which nothing limits.

## Main definitions

* `TimerTask.callback`, `step` — one call of the callback.
* `Call.RoundedUp`, `Call.Plain` — the calls that are rounded up to a period, and the others.

## Main results

* `resolution_le_of_exec` — a call never asks for less than one tick.
* `periodic_rearm_iff` — when the durations stay in the range of the wheel.
* `start_near_schedule` — a timer with punctual calls does not drift.
-/

open Interleaving List Option

namespace Cyber.PeriodicTimer

open TimingWheel

/-! ### The callback -/

/-- `llround(static_cast<double>(ns) / 1e6)` with exact rounding: the nearest number of
milliseconds, and of two nearest ones that away from zero. -/
def llroundMs (ns : ℤ) : ℤ :=
  if 0 ≤ ns then (ns + 500000) / 1000000 else -((-ns + 500000) / 1000000)

theorem llroundMs_bounds (ns : ℤ) :
    ns - 500000 ≤ llroundMs ns * 1000000 ∧ llroundMs ns * 1000000 ≤ ns + 500000 := by
  unfold llroundMs
  split <;> omega

/-- The fields of a `TimerTask` that the periodic callback uses. -/
structure TimerTask where
  intervalMs : ℕ
  nextFireDurationMs : ℕ
  accumulatedErrorNs : ℤ
  lastExecuteTimeNs : ℕ
deriving DecidableEq, Repr

/-- `InitTimerTask`: the task of an admitted period. -/
def initTimerTask (period : ℕ) : Option TimerTask :=
  if period = 0 then none
  else if period ≥ timerMaxIntervalMs then none
  else some ⟨period, period, 0, 0⟩

/-- `next_fire_duration_ms`, from the execution time in milliseconds and the accumulated error. All
operations but those on the error are on `uint64_t`. -/
def nextFireDurationMs (intervalMs executeTimeMs : ℕ) (accumulatedErrorNs : ℤ) : ℕ :=
  if executeTimeMs ≥ intervalMs then timerResolutionMs
  else
    let accumulatedErrorMs := llroundMs accumulatedErrorNs
    if int64 (intervalMs - executeTimeMs - timerResolutionMs) ≥ accumulatedErrorMs then
      uint64OfInt (intervalMs - executeTimeMs - accumulatedErrorMs)
    else timerResolutionMs

/-- The accumulated error after a start. A task with the time zero has not been executed before. -/
def TimerTask.errorNs (task : TimerTask) (start : ℕ) : ℤ :=
  if task.lastExecuteTimeNs = 0 then task.accumulatedErrorNs
  else int64 (task.accumulatedErrorNs + start - task.lastExecuteTimeNs - task.intervalMs * 1000000)

/-- The execution time in milliseconds of a callback from `start` to `finish`. -/
def executeTimeMs (start finish : ℕ) : ℕ := (llroundMs (wordSub 64 finish start)).toNat

/-- The periodic callback, up to the call of `AddTask`; `start` and `finish` are the readings of the
clock. -/
def TimerTask.callback (task : TimerTask) (start finish : ℕ) : TimerTask :=
  { task with
    accumulatedErrorNs := task.errorNs start
    lastExecuteTimeNs := start
    nextFireDurationMs :=
      PeriodicTimer.nextFireDurationMs task.intervalMs (executeTimeMs start finish)
        (task.errorNs start) }

/-! ### Runs -/

/-- One call of the callback, by the two readings of the clock. -/
structure Call where
  start : ℕ
  finish : ℕ
deriving DecidableEq, Repr

/-- A periodic timer with its latest call. -/
structure State where
  task : TimerTask
  previous : Option Call
deriving DecidableEq, Repr

/-- The clock does not go back, and the wheel fires at most one tick early. -/
def State.InTime (s : State) (c : Call) : Prop :=
  c.start ≤ c.finish ∧ c.finish < 2 ^ 64 ∧ ∀ p ∈ s.previous,
    p.finish + s.task.nextFireDurationMs * 1000000 ≤ c.start + timerResolutionMs * 1000000
deriving Decidable

/-- One call. -/
def step (s : State) (c : Call) : Option State :=
  if s.InTime c then some ⟨s.task.callback c.start c.finish, some c⟩ else none

theorem step_of_inTime {s : State} {c : Call} (h : s.InTime c) :
    step s c = some ⟨s.task.callback c.start c.finish, some c⟩ := if_pos h

theorem step_eq_some {s s' : State} {c : Call} (h : step s c = some s') :
    s.InTime c ∧ s' = ⟨s.task.callback c.start c.finish, some c⟩ := by
  obtain ⟨htime, heq⟩ := ite_none_right_eq_some.mp h
  exact ⟨htime, (some.inj heq).symm⟩

/-- The execution time of a call is below the period, and is rounded up to it. -/
def Call.RoundedUp (period : ℕ) (c : Call) : Prop :=
  c.finish - c.start < period * 1000000 ∧ period ≤ executeTimeMs c.start c.finish
deriving Decidable

/-- The call ends before the clock reaches the end of the `int64_t`, after 292 years, and its
execution time is not rounded up to the period. -/
def Call.Plain (period : ℕ) (c : Call) : Prop := c.finish < 2 ^ 63 ∧ ¬c.RoundedUp period
deriving Decidable

/-! ### The next duration -/

variable {period E : ℕ} {a : ℤ} {s s' : State} {c : Call}

theorem nextFireDurationMs_eq (hperiod : period < timerMaxIntervalMs) (ha : -2 ^ 63 ≤ a)
    (ha' : a < 2 ^ 63) :
    (nextFireDurationMs period E a : ℤ) =
      if (E : ℤ) < period ∧ llroundMs a ≤ period - E - 2 then period - E - llroundMs a else 2 := by
  have hmax : period < 65536 := hperiod
  have hres : (timerResolutionMs : ℤ) = 2 := rfl
  obtain ⟨hlower, hupper⟩ := llroundMs_bounds a
  rw [nextFireDurationMs]
  by_cases hexec : E < period
  · have hword : int64 (period - E - timerResolutionMs) = period - E - 2 :=
      (int64_eq_self (by omega) (by omega)).trans (by omega)
    rw [if_neg (not_le.mpr hexec), hword]
    by_cases herror : llroundMs a ≤ period - E - 2
    · rw [if_pos herror, if_pos ⟨by omega, herror⟩, uint64OfInt_eq_self (by omega) (by omega)]
    · rw [if_neg herror, if_neg fun h => herror h.2, hres]
  · rw [if_pos (not_lt.mp hexec), if_neg fun h => hexec (by omega), hres]

theorem errorNs_bounds {task : TimerTask} (hlower : -2 ^ 63 ≤ task.accumulatedErrorNs)
    (hupper : task.accumulatedErrorNs < 2 ^ 63) (start : ℕ) :
    -2 ^ 63 ≤ task.errorNs start ∧ task.errorNs start < 2 ^ 63 := by
  rw [TimerTask.errorNs]
  split
  · exact ⟨hlower, hupper⟩
  · exact int64_bounds _

/-- The period is admitted, and the error is an `int64_t`. -/
structure Admitted (period : ℕ) (s : State) : Prop where
  interval : s.task.intervalMs = period
  lower : -2 ^ 63 ≤ s.task.accumulatedErrorNs
  upper : s.task.accumulatedErrorNs < 2 ^ 63

theorem Admitted.step (hs : Admitted period s) (hstep : step s c = some s') :
    Admitted period s' := by
  obtain ⟨-, rfl⟩ := step_eq_some hstep
  obtain ⟨hlower, hupper⟩ := errorNs_bounds hs.lower hs.upper c.start
  exact ⟨hs.interval, hlower, hupper⟩

theorem Admitted.next_eq (hs : Admitted period s) (hperiod : period < timerMaxIntervalMs)
    (hstep : PeriodicTimer.step s c = some s') :
    (s'.task.nextFireDurationMs : ℤ) =
      if (executeTimeMs c.start c.finish : ℤ) < period ∧
          llroundMs (s.task.errorNs c.start) ≤ period - executeTimeMs c.start c.finish - 2
      then period - executeTimeMs c.start c.finish - llroundMs (s.task.errorNs c.start) else 2 := by
  obtain ⟨-, rfl⟩ := step_eq_some hstep
  obtain ⟨hlower, hupper⟩ := errorNs_bounds hs.lower hs.upper c.start
  rw [← nextFireDurationMs_eq hperiod hlower hupper, ← hs.interval]
  rfl

/-- **The lower bound.** A call never asks for less than one tick. -/
theorem resolution_le_of_step (hs : Admitted period s) (hperiod : period < timerMaxIntervalMs)
    (hstep : step s c = some s') : timerResolutionMs ≤ s'.task.nextFireDurationMs := by
  have hnext := hs.next_eq hperiod hstep
  have hres : timerResolutionMs = 2 := rfl
  split at hnext
  next hwait => omega
  next => omega

/-! ### How far the error can fall -/

theorem executeTimeMs_bounds (htime : c.start ≤ c.finish) :
    ((c.finish - c.start : ℕ) : ℤ) - 500000 ≤ executeTimeMs c.start c.finish * 1000000 ∧
      (executeTimeMs c.start c.finish : ℤ) * 1000000 ≤ (c.finish - c.start : ℕ) + 500000 := by
  have hword : wordSub 64 c.finish c.start = c.finish - c.start := if_pos htime
  obtain ⟨hlower, hupper⟩ := llroundMs_bounds ((c.finish - c.start : ℕ) : ℤ)
  rw [executeTimeMs, hword]
  omega

/-- The error of a timer whose calls are plain: it has not fallen below minus three milliseconds,
and the next start cannot let it fall below that either. -/
structure Steady (period : ℕ) (s : State) : Prop where
  interval : s.task.intervalMs = period
  lower : -3000000 ≤ s.task.accumulatedErrorNs
  upper : s.task.accumulatedErrorNs ≤ s.task.lastExecuteTimeNs
  next_le : s.task.nextFireDurationMs ≤ period + 3
  first : s.previous = none → s.task.lastExecuteTimeNs = 0
  last : ∀ p ∈ s.previous, s.task.lastExecuteTimeNs = p.start ∧ p.start ≤ p.finish ∧
    p.finish < 2 ^ 63
  drift : ∀ p ∈ s.previous, -3000000 ≤ s.task.accumulatedErrorNs + (p.finish - p.start : ℕ) +
    s.task.nextFireDurationMs * 1000000 - 2000000 - period * 1000000

theorem Steady.admitted (hs : Steady period s) : Admitted period s := by
  refine ⟨hs.interval, by have := hs.lower; omega, ?_⟩
  have hupper := hs.upper
  cases hprevious : s.previous with
  | none =>
    rw [hs.first hprevious] at hupper
    omega
  | some p =>
    obtain ⟨hlast, htime, hword⟩ := hs.last p hprevious
    omega

theorem Steady.errorNs (hs : Steady period s) (htime : s.InTime c) (hword : c.finish < 2 ^ 63) :
    -3000000 ≤ s.task.errorNs c.start ∧ s.task.errorNs c.start ≤ c.start := by
  have hlower := hs.lower
  have hupper := hs.upper
  rw [TimerTask.errorNs]
  split
  next hzero => omega
  next hnonzero =>
    cases hprevious : s.previous with
    | none => exact absurd (hs.first hprevious) hnonzero
    | some p =>
      obtain ⟨hlast, htime', hword'⟩ := hs.last p hprevious
      have hdrift := hs.drift p hprevious
      have hearly := htime.2.2 p hprevious
      have hres : timerResolutionMs = 2 := rfl
      have hstart := htime.1
      rw [hs.interval, int64_eq_self (by omega) (by omega)]
      omega

/-- A plain call lets the error fall by no more than the wheel and the rounding allow. -/
theorem Steady.step (hs : Steady period s) (hperiod : period < timerMaxIntervalMs)
    (hplain : c.Plain period) (hstep : step s c = some s') : Steady period s' := by
  have hnext := hs.admitted.next_eq hperiod hstep
  obtain ⟨htime, rfl⟩ := step_eq_some hstep
  obtain ⟨hlower, hupper⟩ := hs.errorNs htime hplain.1
  obtain ⟨hround, hround'⟩ := llroundMs_bounds (s.task.errorNs c.start)
  obtain ⟨hexec, hexec'⟩ := executeTimeMs_bounds htime.1
  refine ⟨hs.interval, hlower, hupper, ?_, fun hnone => by simp at hnone, fun p hp => ?_,
    fun p hp => ?_⟩
  · split at hnext
    next hwait => omega
    next => omega
  · obtain rfl := some.inj hp
    exact ⟨rfl, htime.1, hplain.1⟩
  · obtain rfl := some.inj hp
    change -3000000 ≤ s.task.errorNs c.start + (c.finish - c.start : ℕ) + _ - 2000000 - _
    rw [hnext]
    split
    next hwait => omega
    next hnow =>
      -- the timer fires at once: the error was large, or the execution time is that of a period
      have hfull : period ≤ executeTimeMs c.start c.finish →
          period * 1000000 ≤ c.finish - c.start :=
        fun hle => not_lt.mp fun hlt => hplain.2 ⟨hlt, hle⟩
      omega

/-- A timer that has not fired yet. -/
def init (period : ℕ) : State := ⟨⟨period, period, 0, 0⟩, none⟩

theorem steady_init (period : ℕ) : Steady period (init period) where
  interval := rfl
  lower := show (-3000000 : ℤ) ≤ 0 by decide
  upper := le_rfl
  next_le := Nat.le_add_right period 3
  first := fun _ => rfl
  last := fun p hp => absurd hp (not_mem_none p)
  drift := fun p hp => absurd hp (not_mem_none p)

variable {calls : List Call}

/-- **The error of a run** of plain calls does not fall below minus three milliseconds. -/
theorem steady_of_exec (hperiod : period < timerMaxIntervalMs)
    (hplain : ∀ c ∈ calls, c.Plain period) (hrun : exec step (init period) calls = some s) :
    Steady period s :=
  exec_invariant_of_allSteps (Steady period)
    (fun _ _ _ hs hplain hstep => hs.step hperiod hplain hstep) (steady_init period)
    (allSteps_of_forall_mem (fun _ c hc => hplain c hc) _) hrun

/-- **The lower bound of a run.** -/
theorem resolution_le_of_exec (hperiod : period < timerMaxIntervalMs) (hne : calls ≠ [])
    (hrun : exec step (init period) calls = some s) :
    timerResolutionMs ≤ s.task.nextFireDurationMs := by
  rw [← dropLast_append_getLast hne] at hrun
  obtain ⟨s₁, hrun₁, hstep⟩ := exec_concat_eq_some.mp hrun
  have hadmitted : Admitted period s₁ :=
    exec_invariant (Admitted period) (fun _ _ _ hs hstep => hs.step hstep)
      (steady_init period).admitted hrun₁
  exact resolution_le_of_step hadmitted hperiod hstep

/-! ### Durations out of range -/

/-- Three calls, the second and the third one tick early. The second takes half a millisecond, which
is rounded up. -/
def earlyCalls (period : ℕ) : List Call :=
  let second := period * 1000000 - 1999999
  let third := second + (period - 1) * 1000000 + 500000
  [⟨1, 1⟩, ⟨second, second + 500000⟩, ⟨third, third⟩]

theorem exists_exec_early (hperiod : period < timerMaxIntervalMs)
    (hlong : ¬period + 3 < timerMaxIntervalMs) :
    (∀ c ∈ earlyCalls period, c.Plain period) ∧
      ∃ s, exec step (init period) (earlyCalls period) = some s ∧
        timerMaxIntervalMs ≤ s.task.nextFireDurationMs := by
  have hmax : timerMaxIntervalMs = 65536 := rfl
  obtain rfl | rfl | rfl : period = 65533 ∨ period = 65534 ∨ period = 65535 := by omega
  · decide +kernel
  · decide +kernel
  · decide +kernel

/-- Half a millisecond less than the period, in nanoseconds. -/
def almostPeriod (period : ℕ) : ℕ := period * 1000000 - 500000

/-- The `k`-th of a row of calls that take almost a period and follow each other without a pause. -/
def roundedCall (period k : ℕ) : Call :=
  ⟨1 + k * almostPeriod period, 1 + (k + 1) * almostPeriod period⟩

/-- The timer after the `n`-th of these calls. -/
def roundedState (period n : ℕ) : State where
  task := ⟨period, timerResolutionMs, -(n * 500000), (roundedCall period n).start⟩
  previous := some (roundedCall period n)

theorem finish_roundedCall (period k : ℕ) :
    (roundedCall period k).finish = (roundedCall period k).start + almostPeriod period := by
  rw [roundedCall, Nat.succ_mul, Nat.add_assoc]

theorem executeTimeMs_roundedCall (hpos : 0 < period) (k : ℕ) :
    executeTimeMs (roundedCall period k).start (roundedCall period k).finish = period := by
  have hround : llroundMs (almostPeriod period : ℕ) = period := by
    unfold llroundMs almostPeriod
    split <;> omega
  rw [executeTimeMs, finish_roundedCall, wordSub, if_pos (Nat.le_add_right _ _),
    Nat.add_sub_cancel_left, hround, Int.toNat_natCast]

theorem finish_roundedCall_lt (hperiod : period < timerMaxIntervalMs) {k : ℕ}
    (hk : k ≤ 131072) : (roundedCall period k).finish < 2 ^ 63 := by
  have hmax : period < 65536 := hperiod
  have hgap : almostPeriod period ≤ 65536000000 := by
    unfold almostPeriod
    omega
  have hle : (k + 1) * almostPeriod period ≤ 131073 * 65536000000 :=
    Nat.mul_le_mul (by omega) hgap
  have hfinish : (roundedCall period k).finish = 1 + (k + 1) * almostPeriod period := rfl
  omega

theorem step_roundedCall (hpos : 0 < period) (hperiod : period < timerMaxIntervalMs) {k : ℕ}
    (hk : k ≤ 131072) {a : ℤ} (hinterval : s.task.intervalMs = period)
    (herror : s.task.errorNs (roundedCall period k).start = a)
    (hearly : ∀ p ∈ s.previous, p.finish + s.task.nextFireDurationMs * 1000000 ≤
      (roundedCall period k).start + timerResolutionMs * 1000000) :
    step s (roundedCall period k) =
      some ⟨⟨period, timerResolutionMs, a, (roundedCall period k).start⟩,
        some (roundedCall period k)⟩ := by
  have htime : s.InTime (roundedCall period k) := by
    refine ⟨?_, (finish_roundedCall_lt hperiod hk).trans (by decide), hearly⟩
    rw [finish_roundedCall]
    exact Nat.le_add_right _ _
  rw [step_of_inTime htime, TimerTask.callback, herror, hinterval, executeTimeMs_roundedCall hpos,
    nextFireDurationMs, if_pos le_rfl]

theorem errorNs_roundedState (hpos : 0 < period) {n : ℕ} (hn : n ≤ 131072) :
    (roundedState period n).task.errorNs (roundedCall period n).finish =
      -((n + 1 : ℕ) * 500000) := by
  have hlast : (roundedState period n).task.lastExecuteTimeNs ≠ 0 := by
    simp [roundedState, roundedCall]
  have hgap : (almostPeriod period : ℤ) = period * 1000000 - 500000 := by
    unfold almostPeriod
    omega
  have herror : -((n : ℤ) * 500000) + ((roundedCall period n).start + almostPeriod period : ℕ) -
      (roundedCall period n).start - period * 1000000 = -((n + 1 : ℕ) * 500000) := by
    omega
  rw [TimerTask.errorNs, if_neg hlast, finish_roundedCall]
  exact (congrArg int64 herror).trans (int64_eq_self (by omega) (by omega))

/-- **Rounding up.** Each of the calls is rounded up to a period, and the error falls by half a
millisecond. -/
theorem exec_roundedCalls (hpos : 0 < period) (hperiod : period < timerMaxIntervalMs) {n : ℕ}
    (hn : n ≤ 131072) :
    exec step (init period) ((List.range (n + 1)).map (roundedCall period)) =
      some (roundedState period n) := by
  induction n with
  | zero =>
    have hfirst := step_roundedCall (s := init period) (k := 0) hpos hperiod hn rfl rfl
      fun p hp => absurd hp (not_mem_none p)
    exact exec_cons_eq_some.mpr ⟨_, hfirst, rfl⟩
  | succ n ih =>
    have hn' : n ≤ 131072 := Nat.le_of_succ_le hn
    rw [range_succ, map_append, map_singleton]
    refine exec_concat_eq_some.mpr ⟨_, ih hn', ?_⟩
    refine step_roundedCall hpos hperiod hn rfl (errorNs_roundedState hpos hn') fun p hp => ?_
    obtain rfl := some.inj hp
    exact le_rfl

/-- A call that takes no time, right after the row, waits as long as the error of the row says. -/
theorem exists_step_after_row (hpos : 0 < period) (hperiod : period < timerMaxIntervalMs)
    {n : ℕ} (hn : n ≤ 131072) :
    ∃ s, step (roundedState period n)
        ⟨(roundedCall period n).finish, (roundedCall period n).finish⟩ = some s ∧
      n * 500000 ≤ s.task.nextFireDurationMs * 1000000 := by
  have hword := finish_roundedCall_lt hperiod hn
  have htime : (roundedState period n).InTime
      ⟨(roundedCall period n).finish, (roundedCall period n).finish⟩ := by
    refine ⟨le_rfl, hword.trans (by decide), fun p hp => ?_⟩
    obtain rfl := some.inj hp
    exact le_rfl
  have hadmitted : Admitted period (roundedState period n) :=
    ⟨rfl, show -2 ^ 63 ≤ -((n : ℤ) * 500000) by omega, show -((n : ℤ) * 500000) < 2 ^ 63 by omega⟩
  obtain ⟨s, hstep⟩ : ∃ s, step (roundedState period n)
      ⟨(roundedCall period n).finish, (roundedCall period n).finish⟩ = some s :=
    ⟨_, step_of_inTime htime⟩
  refine ⟨s, hstep, ?_⟩
  have hnext := hadmitted.next_eq hperiod hstep
  obtain ⟨hlower, hupper⟩ := llroundMs_bounds (-((n + 1 : ℕ) * 500000))
  obtain ⟨hexec, hexec'⟩ := executeTimeMs_bounds
    (c := ⟨(roundedCall period n).finish, (roundedCall period n).finish⟩) le_rfl
  dsimp only at hnext hexec hexec'
  rw [errorNs_roundedState hpos hn] at hnext
  split at hnext
  next => omega
  next => omega

/-- **Rounding up leads out of range**, for every period. -/
theorem exists_exec_roundedUp (hpos : 0 < period) (hperiod : period < timerMaxIntervalMs) :
    ∃ calls s, exec step (init period) calls = some s ∧ (∀ c ∈ calls, c.finish < 2 ^ 63) ∧
      timerMaxIntervalMs ≤ s.task.nextFireDurationMs := by
  have hmax : timerMaxIntervalMs = 65536 := rfl
  obtain ⟨n, hn⟩ : ∃ n, n = 131072 := ⟨_, rfl⟩
  obtain ⟨s, hstep, hnext⟩ := exists_step_after_row hpos hperiod hn.le
  refine ⟨_, s, exec_concat_eq_some.mpr ⟨_, exec_roundedCalls hpos hperiod hn.le, hstep⟩, ?_, ?_⟩
  · intro c hc
    rcases mem_append.mp hc with hc | hc
    · obtain ⟨k, hk, rfl⟩ := mem_map.mp hc
      exact finish_roundedCall_lt hperiod ((Nat.lt_succ_iff.mp (mem_range.mp hk)).trans hn.le)
    · obtain rfl := mem_singleton.mp hc
      have hend := finish_roundedCall_lt (k := n) hperiod hn.le
      exact hend
  · omega

/-- **The range of the next duration.** For every admitted period, the next duration is at least one
tick after every call of every run. It is in the range of the timing wheel in all runs whose calls
are not rounded up to the period exactly if the period is not one of the three longest. With calls
that are rounded up it leaves the range for every period. -/
theorem periodic_rearm_iff (period : ℕ) (hpos : 0 < period)
    (hperiod : period < timerMaxIntervalMs) :
    initTimerTask period = some (init period).task ∧
      (∀ calls s, calls ≠ [] → exec step (init period) calls = some s →
        timerResolutionMs ≤ s.task.nextFireDurationMs) ∧
      ((∀ calls s, (∀ c ∈ calls, c.Plain period) → exec step (init period) calls = some s →
          s.task.nextFireDurationMs < timerMaxIntervalMs) ↔
        period + 3 < timerMaxIntervalMs) ∧
      ∃ calls s, exec step (init period) calls = some s ∧ (∀ c ∈ calls, c.finish < 2 ^ 63) ∧
        timerMaxIntervalMs ≤ s.task.nextFireDurationMs := by
  refine ⟨?_, fun calls s hne hrun => resolution_le_of_exec hperiod hne hrun, ⟨fun hrange => ?_,
    fun hshort calls s hplain hrun => ?_⟩, exists_exec_roundedUp hpos hperiod⟩
  · rw [initTimerTask, if_neg hpos.ne', if_neg (not_le.mpr hperiod)]
    rfl
  · by_contra hlong
    obtain ⟨hplain, s, hrun, hover⟩ := exists_exec_early hperiod hlong
    exact absurd (hrange _ s hplain hrun) (not_lt.mpr hover)
  · exact (steady_of_exec hperiod hplain hrun).next_le.trans_lt hshort

/-- A timer with a period of 100 ms. -/
theorem periodic_rearm_hundred :
    ∃ s, exec step (init 100) [⟨1, 5000001⟩, ⟨99000001, 99400001⟩] = some s ∧
      timerResolutionMs ≤ s.task.nextFireDurationMs ∧
      s.task.nextFireDurationMs < timerMaxIntervalMs := by
  obtain ⟨-, hlower, hupper, -⟩ := periodic_rearm_iff 100 (by decide) (by decide)
  exact exists_exec_mono
    (P := fun _ => ∀ c ∈ [(⟨1, 5000001⟩ : Call), ⟨99000001, 99400001⟩], c.Plain 100)
    (by decide +kernel) fun s hrun hplain =>
      ⟨hlower _ s (cons_ne_nil _ _) hrun, hupper.mpr (by decide) _ s hplain hrun⟩

/-- With a period of 65535 ms, a second call that comes one tick early asks for 65537 ms. -/
theorem rearm_out_of_range_of_early :
    ∃ s, exec step (init 65535) [⟨1, 1⟩, ⟨65533000001, 65533000001⟩] = some s ∧
      s.task.nextFireDurationMs = 65537 ∧ timerMaxIntervalMs = 65536 := by
  decide +kernel

/-! ### No drift -/

/-- The call comes at most `late` nanoseconds after the duration that was asked for, and leaves this
time and a tick of its period. -/
def State.OnTime (late : ℕ) (s : State) (c : Call) : Prop :=
  0 < c.start ∧ c.finish < 2 ^ 63 ∧
    c.finish - c.start + timerResolutionMs * 1000000 + late ≤ s.task.intervalMs * 1000000 ∧
    ∀ p ∈ s.previous, c.start ≤ p.finish + s.task.nextFireDurationMs * 1000000 + late
deriving Decidable

/-- The accumulated error is the distance of the latest start from the schedule, and it is not
larger than the lateness allows, now and at the next start. -/
structure Scheduled (period late t₀ n : ℕ) (s : State) : Prop extends Steady period s where
  started : s.task.lastExecuteTimeNs ≠ 0
  error : s.task.accumulatedErrorNs =
    s.task.lastExecuteTimeNs - (t₀ + n * period * 1000000 : ℕ)
  late : s.task.accumulatedErrorNs ≤ late + 1000000
  next : ∀ p ∈ s.previous, s.task.accumulatedErrorNs + (p.finish - p.start : ℕ) +
    s.task.nextFireDurationMs * 1000000 ≤ period * 1000000 + 1000000

variable {late t₀ n : ℕ}

theorem Scheduled.errorNs_eq (hs : Scheduled period late t₀ n s) (htime : s.InTime c)
    (hontime : s.OnTime late c) :
    s.task.errorNs c.start = c.start - (t₀ + (n + 1) * period * 1000000 : ℕ) ∧
      s.task.errorNs c.start ≤ late + 1000000 := by
  cases hprevious : s.previous with
  | none => exact absurd (hs.first hprevious) hs.started
  | some p =>
    obtain ⟨hlast, htime', -⟩ := hs.last p hprevious
    have hdrift := hs.drift p hprevious
    have hnext := hs.next p hprevious
    have hearly := htime.2.2 p hprevious
    obtain ⟨-, hword, -, hlate⟩ := hontime
    have hlate' := hlate p hprevious
    have herror := hs.error
    have hupper := hs.upper
    have hres : timerResolutionMs = 2 := rfl
    have hstart := htime.1
    have hturn : (n + 1) * period * 1000000 = n * period * 1000000 + period * 1000000 := by
      rw [Nat.succ_mul, Nat.add_mul]
    rw [TimerTask.errorNs, if_neg hs.started, hs.interval, int64_eq_self (by omega) (by omega)]
    omega

theorem Scheduled.of_step (hs : Steady period s) (hperiod : period < timerMaxIntervalMs)
    (hontime : s.OnTime late c) (hstep : PeriodicTimer.step s c = some s')
    (herror : s.task.errorNs c.start = c.start - (t₀ + n * period * 1000000 : ℕ))
    (hlate : s.task.errorNs c.start ≤ late + 1000000) : Scheduled period late t₀ n s' := by
  obtain ⟨hpos, hword, hroom, -⟩ := hontime
  replace hroom : c.finish - c.start + 2000000 + late ≤ period * 1000000 := hs.interval ▸ hroom
  obtain ⟨hround, hround'⟩ := llroundMs_bounds (s.task.errorNs c.start)
  obtain ⟨hexec, hexec'⟩ := executeTimeMs_bounds (step_eq_some hstep).1.1
  have hplain : c.Plain period := by
    refine ⟨hword, fun hrounded => ?_⟩
    have hfull := hrounded.2
    omega
  have hnext := hs.admitted.next_eq hperiod hstep
  have hsteady := hs.step hperiod hplain hstep
  obtain ⟨-, rfl⟩ := step_eq_some hstep
  refine ⟨hsteady, hpos.ne', herror, hlate, fun p hp => ?_⟩
  obtain rfl := some.inj hp
  change s.task.errorNs c.start + (c.finish - c.start : ℕ) + _ ≤ _
  rw [hnext]
  split
  next hwait => omega
  next => omega

theorem Scheduled.exec (hs : Scheduled period late t₀ n s) (hperiod : period < timerMaxIntervalMs)
    (hontime : AllSteps PeriodicTimer.step (State.OnTime late) s calls)
    (hrun : Interleaving.exec PeriodicTimer.step s calls = some s') :
    Scheduled period late t₀ (n + calls.length) s' := by
  induction calls generalizing n s with
  | nil =>
    obtain rfl := some.inj hrun
    exact hs
  | cons c calls ih =>
    obtain ⟨s₁, hstep, hrun⟩ := exec_cons_eq_some.mp hrun
    obtain ⟨hc, hcalls⟩ := (allSteps_cons hstep).mp hontime
    obtain ⟨herror, hlate⟩ := hs.errorNs_eq (step_eq_some hstep).1 hc
    rw [length_cons, ← add_assoc, add_right_comm]
    exact ih (.of_step hs.toSteady hperiod hc hstep herror hlate) hcalls hrun

/-- **A periodic timer does not drift.** Let every call of a run come at most `late` nanoseconds too
late and leave this time and a tick of its period. Then every call, however many there were before,
starts at most three milliseconds before and `late` nanoseconds and a millisecond after its time,
counted in periods from the first start. -/
theorem start_near_schedule (hperiod : period < timerMaxIntervalMs) (c₀ : Call)
    (calls : List Call)
    (hontime : AllSteps step (State.OnTime late) (init period) (c₀ :: (calls ++ [c])))
    (hrun : exec step (init period) (c₀ :: (calls ++ [c])) = some s) :
    c₀.start + (calls.length + 1) * period * 1000000 ≤ c.start + 3000000 ∧
      c.start ≤ c₀.start + (calls.length + 1) * period * 1000000 + late + 1000000 := by
  obtain ⟨s₁, hstep₁, hrun₁⟩ := exec_cons_eq_some.mp hrun
  obtain ⟨hfirst, hcalls⟩ := (allSteps_cons hstep₁).mp hontime
  have hscheduled : Scheduled period late c₀.start 0 s₁ :=
    .of_step (steady_init period) hperiod hfirst hstep₁ (by simp [init, TimerTask.errorNs])
      (show (0 : ℤ) ≤ late + 1000000 by omega)
  have hs := hscheduled.exec hperiod hcalls hrun₁
  obtain ⟨s₂, -, hstep⟩ := exec_concat_eq_some.mp hrun₁
  obtain ⟨-, rfl⟩ := step_eq_some hstep
  have herror := hs.error
  have hlower := hs.lower
  have hlate := hs.late
  simp only [TimerTask.callback, length_append, length_singleton, zero_add]
    at herror hlower hlate
  omega

/-- The second call comes a tick early and the third half a millisecond late. -/
theorem start_near_schedule_hundred :
    ∃ s, exec step (init 100)
        [⟨1, 5000001⟩, ⟨98000001, 98400001⟩, ⟨200900001, 200900001⟩] = some s ∧
      1 + 2 * 100 * 1000000 ≤ 200900001 + 3000000 ∧
      200900001 ≤ 1 + 2 * 100 * 1000000 + 500000 + 1000000 :=
  exists_exec_mono (P := fun _ => AllSteps step (State.OnTime 500000) (init 100) _)
    (by decide +kernel) fun _ hs hontime =>
      start_near_schedule (by decide) ⟨1, 5000001⟩ [⟨98000001, 98400001⟩] hontime hs

end Cyber.PeriodicTimer
