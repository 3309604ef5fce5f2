import Mathlib.Logic.Basic
import Mathlib.Tactic.SplitIfs

/-!
# Croutines

A `CRoutine` (`croutine/croutine.h`) is run by one processor at a time. A processor acquires it,
calls `UpdateState` and resumes it when its state is `READY`; the croutine runs until it switches
back in `Yield`, and the processor releases it. `SetUpdateFlag` clears `updated_`; `UpdateState`
finds this with a `test_and_set` and makes a croutine in `DATA_WAIT` or `IO_WAIT` ready.

`SchedulerClassic::NotifyProcessor` (`scheduler/policy/scheduler_classic.cc`) clears the flag only
if one of two loads of the state finds the croutine waiting. It does not acquire the croutine, so
that its loads may fall anywhere between the steps of the croutine.

Only the processor that has acquired a croutine changes its state. `UpdateState` is two steps here,
up to its `test_and_set` and from there on.
-/

namespace Cyber

/-- `RoutineState` -/
inductive RoutineState
  | ready
  | finished
  | sleep
  | ioWait
  | dataWait
deriving DecidableEq, Repr

/-- Nobody has acquired the croutine, a processor is in `UpdateState` and has found the update flag,
or a processor runs the croutine. -/
inductive Phase
  | free
  | updating
  | running
deriving DecidableEq, Repr

/-- `CRoutine`. The flag `updated_` is set while no update is pending. -/
structure CRoutine where
  state : RoutineState
  updated : Bool
  phase : Phase
deriving DecidableEq, Repr

namespace CRoutine

/-- The constructor. -/
def new : CRoutine := ⟨.ready, true, .free⟩

/-- `set_state` -/
def setState (cr : CRoutine) (state : RoutineState) : CRoutine := { cr with state }

/-- `SetUpdateFlag` -/
def setUpdateFlag (cr : CRoutine) : CRoutine := { cr with updated := false }

/-- The switch to the processor in `Yield`, after which the processor releases the croutine. -/
def swapContext (cr : CRoutine) : CRoutine := { cr with phase := .free }

/-- What a processor does with the result of `UpdateState`: it resumes a croutine that is ready and
releases any other. -/
def resumeOrRelease (cr : CRoutine) : CRoutine :=
  { cr with phase := if cr.state = .ready then .running else .free }

/-- `Acquire`, and `UpdateState` up to its `test_and_set`. `elapsed` says that the wake time of the
croutine is over. -/
def acquire (cr : CRoutine) (elapsed : Bool) : Option CRoutine :=
  if cr.phase ≠ .free then none
  else if cr.state = .sleep ∧ elapsed = true then some (cr.setState .ready).resumeOrRelease
  else if cr.updated = false then some { cr with updated := true, phase := .updating }
  else some cr.resumeOrRelease

/-- `UpdateState` after a `test_and_set` that has found the flag cleared. -/
def update (cr : CRoutine) : Option CRoutine :=
  if cr.phase ≠ .updating then none
  else if cr.state = .dataWait ∨ cr.state = .ioWait then
    some (cr.setState .ready).resumeOrRelease
  else some cr.resumeOrRelease

/-- The next operation of `NotifyProcessor`: the test for `DATA_WAIT`, the test for `IO_WAIT`, or
`SetUpdateFlag`. -/
inductive NotifyPc
  | testData
  | testIo
  | setFlag
deriving DecidableEq, Repr

/-- One operation of `NotifyProcessor`, and where it goes on, if it does. -/
def notifyProcessor (cr : CRoutine) : NotifyPc → CRoutine × Option NotifyPc
  | .testData => (cr, some (if cr.state = .dataWait then .setFlag else .testIo))
  | .testIo => (cr, if cr.state = .ioWait then some .setFlag else none)
  | .setFlag => (cr.setUpdateFlag, none)

/-- An update is pending, or a processor has just taken it up. -/
def Woken (cr : CRoutine) : Prop := cr.updated = false ∨ cr.phase = .updating
deriving Decidable

/-- The notification will set the update flag if it finds the croutine in `DATA_WAIT`, or sets it
next. -/
def NotifyPc.Owes : NotifyPc → Prop
  | .testData | .setFlag => True
  | .testIo => False

variable {cr cr' : CRoutine}

/-- A croutine that is in `DATA_WAIT` after `acquire` was so before, and keeps its wake-up. -/
theorem acquire_spec {elapsed : Bool} (h : cr.acquire elapsed = some cr') :
    cr.phase = .free ∧
      (cr'.state = .dataWait → cr.state = .dataWait ∧ (cr.Woken → cr'.Woken)) := by
  unfold acquire at h
  split_ifs at h with hphase hsleep hflag <;> obtain rfl := Option.some.inj h <;>
    rw [not_not] at hphase
  · exact ⟨hphase, fun hs => by simp [resumeOrRelease, setState] at hs⟩
  · exact ⟨hphase, fun hs => ⟨hs, fun _ => .inr rfl⟩⟩
  · refine ⟨hphase, fun hs => ⟨hs, fun hwoken => ?_⟩⟩
    rcases hwoken with hfalse | hupdating
    · exact absurd hfalse hflag
    · simp [hphase] at hupdating

/-- `UpdateState` that has found the update flag leaves no croutine in `DATA_WAIT`. -/
theorem update_spec (h : cr.update = some cr') :
    cr.phase = .updating ∧ cr'.state ≠ .dataWait := by
  unfold update at h
  split_ifs at h with hphase hwait <;> obtain rfl := Option.some.inj h <;> rw [not_not] at hphase
  · exact ⟨hphase, by simp [resumeOrRelease, setState]⟩
  · exact ⟨hphase, fun hs => hwait (.inl hs)⟩

/-- A notification changes the update flag only. What it owes to a croutine it owes until it has
woken it, unless its test for `DATA_WAIT` finds another state. -/
theorem notifyProcessor_spec (pc : NotifyPc) :
    (cr.notifyProcessor pc).1.state = cr.state ∧ (cr.notifyProcessor pc).1.phase = cr.phase ∧
      (cr.Woken → (cr.notifyProcessor pc).1.Woken) ∧
      ((pc = .testData → cr.state = .dataWait) → pc.Owes →
        (∃ pc', (cr.notifyProcessor pc).2 = some pc' ∧ pc'.Owes) ∨
          (cr.notifyProcessor pc).1.Woken) := by
  cases pc with
  | testData =>
    refine ⟨rfl, rfl, id, fun hs _ => .inl ⟨.setFlag, ?_, trivial⟩⟩
    simp [notifyProcessor, hs rfl]
  | testIo => exact ⟨rfl, rfl, id, fun _ howes => howes.elim⟩
  | setFlag => exact ⟨rfl, rfl, fun _ => .inl rfl, fun _ _ => .inr (.inl rfl)⟩

end CRoutine

end Cyber
