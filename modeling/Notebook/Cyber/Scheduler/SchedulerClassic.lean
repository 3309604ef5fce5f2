import Notebook.Cyber.Scheduler.Scheduler

/-!
# The classic scheduler

`SchedulerClassic` (`scheduler/policy/scheduler_classic.cc`) puts all croutines into the queues of
the classic context. The configuration names the group and the priority of some tasks; the others
go to the first group with the priority that they have. `DispatchTask` looks the id up before it
changes the croutine, so the fields of a registered croutine stay as they were when it was put into
its queue.

A configuration file without a group is accepted, but there is no first group then, and
`groups(0)` is undefined.
-/

open Container Interleaving Function Option

namespace Cyber.Scheduler.Classic

/-- A `ClassicTask` of the configuration. -/
structure ClassicTask where
  name : String
  prio : ℕ := 1
deriving DecidableEq, Repr

/-- A `SchedGroup` of the configuration. -/
structure SchedGroup where
  name : String := defaultGroupName
  tasks : List ClassicTask := []
deriving DecidableEq, Repr

/-- `cr_confs_`: the priorities and groups of the configured tasks. -/
def crConfs (groups : List SchedGroup) : Map String (ℕ × String) :=
  groups.foldl (fun confs group =>
    group.tasks.foldl (fun confs task => confs.insert task.name (task.prio, group.name)) confs) ∅

/-- The group and the priority of a croutine are taken from the configuration. -/
def assign (groups : List SchedGroup) (routine : Routine) : Option Routine :=
  match (crConfs groups).lookup routine.name with
  | some (prio, groupName) => some { routine with priority := prio, groupName := groupName }
  | none => groups.head?.map fun group => { routine with groupName := group.name }

/-- `DispatchTask` -/
def dispatchTask (groups : List SchedGroup) (s : State) (cr : ℕ) : Option (Outcome × State) :=
  let routine := s.croutines cr
  if routine.id ∈ s.idCr then some (.returned false, s)
  else
    (assign groups routine).map fun assigned =>
      ({ s with idCr := s.idCr.insert routine.id cr }.setRoutine cr
        assigned.clampPriority).enqueueClassic cr

/-- `RemoveCRoutine` -/
def removeCRoutine (s : State) (crid : UInt64) : Outcome × State :=
  match s.idCr.lookup crid with
  | none => (.returned false, s)
  | some cr => { s with idCr := s.idCr.erase crid }.removeClassic (s.croutines cr)

/-- One call. -/
def step (groups : List SchedGroup) (s : State) : Call → Option State
  | .dispatchTask cr => (dispatchTask groups s cr).map Prod.snd
  | .removeCRoutine crid => some (removeCRoutine s crid).2

variable {groups : List SchedGroup} {s s' : State} {cr : ℕ} {o : Outcome}

theorem assign_spec {routine assigned : Routine} (h : assign groups routine = some assigned) :
    assigned.id = routine.id ∧ assigned.name = routine.name := by
  unfold assign at h
  split at h
  · obtain rfl := some.inj h
    exact ⟨rfl, rfl⟩
  · obtain ⟨group, -, rfl⟩ := map_eq_some_iff.mp h
    exact ⟨rfl, rfl⟩

/-! ### The queues -/

/-- A croutine is put into the queue of its group and priority. -/
def enqueued (s : State) (cr : ℕ) (routine : Routine) : State :=
  ({ s with idCr := s.idCr.insert routine.id cr }.setRoutine cr routine).setGroup
    routine.groupName routine.prioIndex (s.crGroup routine.groupName routine.prioIndex ++ [cr])

@[simp] theorem croutines_enqueued (s : State) (cr : ℕ) (routine : Routine) :
    (enqueued s cr routine).croutines = update s.croutines cr routine := rfl

@[simp] theorem idCr_enqueued (s : State) (cr : ℕ) (routine : Routine) :
    (enqueued s cr routine).idCr = s.idCr.insert routine.id cr := rfl

/-- What `DispatchTask` does: nothing for an id that is registered; otherwise it registers the
croutine and puts it into a queue. -/
theorem dispatchTask_cases (h : dispatchTask groups s cr = some (o, s')) :
    ((s.croutines cr).id ∈ s.idCr ∧ o = .returned false ∧ s' = s) ∨
      ((s.croutines cr).id ∉ s.idCr ∧ o = .returned true ∧ ∃ routine : Routine,
        routine.id = (s.croutines cr).id ∧ routine.name = (s.croutines cr).name ∧
        routine.priority < maxPrio ∧ s' = enqueued s cr routine) := by
  simp only [dispatchTask] at h
  split_ifs at h with hid
  · cases h
    exact .inl ⟨hid, rfl, rfl⟩
  · obtain ⟨assigned, hassigned, heq⟩ := map_eq_some_iff.mp h
    obtain ⟨hid', hname⟩ := assign_spec hassigned
    have hlt : assigned.clampPriority.priority < maxPrio := by
      rw [Routine.clampPriority_eq]
      exact assigned.prioIndex.isLt
    have hsame : assigned.clampPriority.id = (s.croutines cr).id := by
      rw [Routine.clampPriority_eq, hid']
    rw [State.enqueueClassic_of_lt] at heq
    · obtain ⟨rfl, rfl⟩ := Prod.mk.inj heq
      refine .inr ⟨hid, rfl, assigned.clampPriority, hsame, ?_, hlt, ?_⟩
      · rw [Routine.clampPriority_eq, hname]
      · simp only [enqueued, State.setRoutine, update_self, hsame]
    · simpa only [State.setRoutine, update_self] using hlt

/-- The queue of a croutine. -/
def home (routine : Routine) : Place := .classic routine.groupName routine.prioIndex

/-- The registered croutines are in their queues, and `at` finds their priorities. -/
structure Inv (s : State) : Prop extends Scheduler.Inv home s where
  priority_lt : ∀ id cr, s.idCr.lookup id = some cr → (s.croutines cr).priority < maxPrio

theorem inv_init (croutines : ℕ → Routine) : Inv (init croutines) where
  toInv := Scheduler.inv_init home croutines
  priority_lt := by simp [init]

theorem Inv.enqueued {routine : Routine} (hs : Inv s) (hnew : (s.croutines cr).id ∉ s.idCr)
    (hid : routine.id = (s.croutines cr).id) (hlt : routine.priority < maxPrio) :
    Inv (enqueued s cr routine) where
  toInv := hs.register hnew hid rfl rfl (State.queue_setGroup ..)
    (List.perm_append_singleton cr _)
  priority_lt := by
    refine forall_registered_update (P := fun routine => routine.priority < maxPrio)
      hs.priority_lt hlt (croutines_enqueued s cr routine) fun id cr' hlookup => ?_
    rw [idCr_enqueued] at hlookup
    exact (lookup_insert_eq_some_iff.mp hlookup).imp (fun h => h.2.symm) And.right

theorem Inv.removeCRoutine (hs : Inv s) (crid : UInt64) : Inv (removeCRoutine s crid).2 := by
  unfold Classic.removeCRoutine
  split
  · exact hs
  · next cr hlookup =>
    rw [State.removeClassic_of_lt _ (hs.priority_lt crid cr hlookup)]
    refine ⟨hs.unregister hlookup rfl rfl ?_, fun id cr' hlookup' => ?_⟩
    · rw [State.queue_setGroup, hs.id_eq crid cr hlookup]
      rfl
    · rw [State.idCr_setGroup] at hlookup'
      exact hs.priority_lt id cr' (lookup_erase_eq_some_iff.mp hlookup').2

theorem Inv.idCr_removeCRoutine (hs : Inv s) (crid : UInt64) :
    (Classic.removeCRoutine s crid).2.idCr = s.idCr.erase crid := by
  unfold Classic.removeCRoutine
  split
  · next hnone =>
    have hnot : crid ∉ s.idCr.keys := AList.lookup_eq_none.mp hnone
    exact AList.ext (List.kerase_of_notMem_keys hnot).symm
  · next cr hlookup =>
    rw [State.removeClassic_of_lt _ (hs.priority_lt crid cr hlookup), State.idCr_setGroup]

theorem Inv.croutines_removeCRoutine (hs : Inv s) (crid : UInt64) :
    (Classic.removeCRoutine s crid).2.croutines = s.croutines := by
  unfold Classic.removeCRoutine
  split
  · rfl
  · next cr hlookup =>
    rw [State.removeClassic_of_lt _ (hs.priority_lt crid cr hlookup), State.croutines_setGroup]

theorem Inv.step {call : Call} (hs : Inv s) (h : step groups s call = some s') : Inv s' := by
  cases call with
  | dispatchTask cr =>
    obtain ⟨⟨o, s₁⟩, hdispatch, rfl⟩ := map_eq_some_iff.mp h
    rcases dispatchTask_cases hdispatch with ⟨-, -, rfl⟩ | ⟨hnew, -, routine, hid, -, hlt, rfl⟩
    · exact hs
    · exact hs.enqueued hnew hid hlt
  | removeCRoutine crid =>
    obtain rfl := some.inj h
    exact hs.removeCRoutine crid

theorem Inv.of_exec {croutines : ℕ → Routine} {calls : List Call}
    (h : exec (Classic.step groups) (init croutines) calls = some s) : Inv s :=
  exec_invariant Inv (fun _ _ _ hs h => hs.step h) (inv_init croutines) h

end Cyber.Scheduler.Classic
