import Notebook.Cyber.Scheduler.SchedulerClassic

/-!
# The choreography scheduler

`SchedulerChoreography` (`scheduler/policy/scheduler_choreography.cc`) binds a croutine whose
processor is one of the `proc_num_` choreography processors to the queue of that processor, and puts
the others into the default group of the classic context, from which a pool of processors takes
them. A croutine has the processor `-1` unless the configuration or its creator gives it one, and
the processor is compared as an unsigned number.

Unlike the classic scheduler, `DispatchTask` assigns the configured priority and processor *before*
it looks the id up, and only afterwards replaces a priority that is too high for the pool. A second
`DispatchTask` for such a croutine returns `false` and leaves it with the configured priority.
`RemoveCRoutine` then takes it out of the registry, and `at` throws for its priority, so it stays in
its queue.
-/

open Container Interleaving Function Option

namespace Cyber.Scheduler

namespace Choreography

/-- A `ChoreographyTask` of the configuration. -/
structure ChoreographyTask where
  name : String
  processor : Option ℤ := none
  prio : ℕ := 1
deriving DecidableEq, Repr

/-- The number of choreography processors, and the configured tasks. -/
structure Conf where
  procNum : ℕ
  tasks : List ChoreographyTask
deriving DecidableEq, Repr

/-- `cr_confs_` -/
def crConfs (conf : Conf) : Map String ChoreographyTask :=
  conf.tasks.foldl (fun confs task => confs.insert task.name task) ∅

/-- The priority and the processor of a croutine are taken from the configuration. -/
def assign (conf : Conf) (routine : Routine) : Routine :=
  match (crConfs conf).lookup routine.name with
  | some task =>
    { routine with priority := task.prio, processorId := task.processor.getD routine.processorId }
  | none => routine

variable (routine : Routine)

/-- The processor of a croutine as a `uint32_t`. -/
def pid : ℕ := (routine.processorId % 2 ^ 32).toNat

/-- `DispatchTask` -/
def dispatchTask (conf : Conf) (s : State) (cr : ℕ) : Outcome × State :=
  let routine := assign conf (s.croutines cr)
  let s := s.setRoutine cr routine
  if routine.id ∈ s.idCr then (.returned false, s)
  else
    let s := { s with idCr := s.idCr.insert routine.id cr }
    if pid routine < conf.procNum then (.returned true, s.enqueueChoreography (pid routine) cr)
    else
      (s.setRoutine cr
        { routine.clampPriority with groupName := defaultGroupName }).enqueueClassic cr

/-- `RemoveCRoutine` -/
def removeCRoutine (conf : Conf) (s : State) (crid : UInt64) : Outcome × State :=
  match s.idCr.lookup crid with
  | none => (.returned false, s)
  | some cr =>
    let erased := { s with idCr := s.idCr.erase crid }
    if pid (s.croutines cr) < conf.procNum then
      erased.removeChoreography (pid (s.croutines cr)) crid
    else erased.removeClassic (s.croutines cr)

/-- One call. -/
def step (conf : Conf) (s : State) : Call → Option State
  | .dispatchTask cr => some (dispatchTask conf s cr).2
  | .removeCRoutine crid => some (removeCRoutine conf s crid).2

/-- A croutine that is removed from the pool has a priority that `at` finds. -/
def RemovesInRange (conf : Conf) (s : State) : Call → Prop
  | .dispatchTask _ => True
  | .removeCRoutine crid => ∀ cr ∈ s.idCr.lookup crid,
    conf.procNum ≤ pid (s.croutines cr) → (s.croutines cr).priority < maxPrio

instance (conf : Conf) (s : State) : (call : Call) → Decidable (RemovesInRange conf s call)
  | .dispatchTask _ => .isTrue trivial
  | .removeCRoutine crid => inferInstanceAs (Decidable (∀ cr ∈ s.idCr.lookup crid,
      conf.procNum ≤ pid (s.croutines cr) → (s.croutines cr).priority < maxPrio))

/-- The queue of a croutine. -/
def home (conf : Conf) (routine : Routine) : Place :=
  if pid routine < conf.procNum then .choreography (pid routine)
  else .classic routine.groupName routine.prioIndex

/-! ### The invariant -/

variable {conf : Conf} {s s' : State} {cr : ℕ}

@[simp] theorem assign_id : (assign conf routine).id = routine.id := by
  unfold assign
  split <;> rfl

/-- The registered croutines are in their queues, and another assignment from the configuration
does not change which queues these are. -/
structure Inv (conf : Conf) (s : State) : Prop extends Scheduler.Inv (home conf) s where
  home_assign : ∀ id cr, s.idCr.lookup id = some cr →
    home conf (assign conf (s.croutines cr)) = home conf (s.croutines cr)

theorem inv_init (croutines : ℕ → Routine) : Inv conf (init croutines) where
  toInv := Scheduler.inv_init (home conf) croutines
  home_assign := by simp [init]

theorem home_congr {routine routine' : Routine}
    (hproc : routine.processorId = routine'.processorId)
    (hgroup : routine.groupName = routine'.groupName)
    (hprio : routine.prioIndex = routine'.prioIndex) :
    home conf routine = home conf routine' := by
  have hpid : pid routine = pid routine' := by rw [pid, pid, hproc]
  rw [home, home, hpid, hgroup, hprio]

/-- A croutine to which the configuration has been applied, up to the group and a priority that is
too high, is not moved by applying it again. -/
theorem home_assign_of {routine final : Routine} (hname : final.name = routine.name)
    (hproc : final.processorId = (assign conf routine).processorId)
    (hprio : final.prioIndex = (assign conf routine).prioIndex) :
    home conf (assign conf final) = home conf final := by
  unfold assign at hproc hprio ⊢
  rw [hname]
  cases htask : (crConfs conf).lookup routine.name with
  | none => rfl
  | some task =>
    simp only [htask] at hproc hprio
    have hsame : task.processor.getD final.processorId = final.processorId := by
      rw [hproc]
      cases task.processor <;> rfl
    exact home_congr hsame rfl hprio.symm

/-- What `DispatchTask` does for an id that is registered: the croutine gets the configured
priority and processor. -/
theorem dispatchTask_registered (hid : (s.croutines cr).id ∈ s.idCr) :
    dispatchTask conf s cr =
      (.returned false, s.setRoutine cr (assign conf (s.croutines cr))) := by
  simp only [dispatchTask, assign_id, State.setRoutine, if_pos hid]

/-- The state in which `DispatchTask` has registered a croutine with its new fields. -/
def registered (s : State) (cr : ℕ) (routine : Routine) : State :=
  { s.setRoutine cr routine with idCr := s.idCr.insert routine.id cr }

theorem dispatchTask_choreography (hid : (s.croutines cr).id ∉ s.idCr)
    (hpid : pid (assign conf (s.croutines cr)) < conf.procNum) :
    dispatchTask conf s cr = (.returned true, (registered s cr
      (assign conf (s.croutines cr))).enqueueChoreography
        (pid (assign conf (s.croutines cr))) cr) := by
  simp only [dispatchTask]
  split_ifs with h
  · rw [assign_id] at h
    exact absurd h hid
  · rfl

/-- The fields of a croutine in the pool. -/
def pooled : Routine :=
  { routine.clampPriority with groupName := defaultGroupName }

theorem pooled_eq : pooled routine =
      { routine with priority := routine.prioIndex, groupName := defaultGroupName } := by
  rw [pooled, Routine.clampPriority_eq]

theorem prioIndex_pooled : (pooled routine).prioIndex = routine.prioIndex := by
  rw [pooled_eq, Routine.prioIndex_eq routine.prioIndex.isLt]

theorem home_pooled {routine : Routine} (hpid : ¬pid routine < conf.procNum) :
    home conf (pooled routine) =
      .classic (pooled routine).groupName (pooled routine).prioIndex := by
  rw [home, if_neg]
  rwa [pooled_eq]

theorem dispatchTask_pool (hid : (s.croutines cr).id ∉ s.idCr)
    (hpid : ¬pid (assign conf (s.croutines cr)) < conf.procNum) :
    dispatchTask conf s cr =
      (.returned true, Classic.enqueued s cr (pooled (assign conf (s.croutines cr)))) := by
  simp only [dispatchTask]
  split_ifs with h
  · rw [assign_id] at h
    exact absurd h hid
  · have hlt : (pooled (assign conf (s.croutines cr))).priority < maxPrio := by
      rw [pooled_eq]
      exact (assign conf (s.croutines cr)).prioIndex.isLt
    rw [State.enqueueClassic_of_lt]
    · simp only [Classic.enqueued, State.setRoutine, update_idem, update_self,
        pooled_eq, Routine.clampPriority_eq]
    · simpa only [State.setRoutine, update_self, pooled] using hlt

theorem Inv.of_new {routine : Routine} {q : List ℕ} (hs : Inv conf s)
    (hnew : (s.croutines cr).id ∉ s.idCr) (hid : routine.id = (s.croutines cr).id)
    (hassign : home conf (assign conf routine) = home conf routine)
    (hcr : s'.croutines = update s.croutines cr routine)
    (hreg : s'.idCr = s.idCr.insert routine.id cr)
    (hqueue : s'.queue = update s.queue (home conf routine) q)
    (hq : q.Perm (cr :: s.queue (home conf routine))) : Inv conf s' where
  toInv := hs.register hnew hid hcr hreg hqueue hq
  home_assign := by
    refine forall_registered_update
      (P := fun routine => home conf (assign conf routine) = home conf routine)
      hs.home_assign hassign hcr fun id cr' hlookup => ?_
    rw [hreg] at hlookup
    exact (lookup_insert_eq_some_iff.mp hlookup).imp (fun h => h.2.symm) And.right

theorem assign_name : (assign conf routine).name = routine.name := by
  unfold assign
  split <;> rfl

theorem Inv.dispatchTask (hs : Inv conf s) (cr : ℕ) : Inv conf (dispatchTask conf s cr).2 := by
  by_cases hid : (s.croutines cr).id ∈ s.idCr
  · rw [dispatchTask_registered hid]
    refine ⟨hs.assign (fun _ => assign_id _) fun ⟨id, hlookup⟩ => hs.home_assign id cr hlookup, ?_⟩
    exact forall_registered_update
      (P := fun routine => home conf (assign conf routine) = home conf routine)
      hs.home_assign (home_assign_of (assign_name _) rfl rfl) rfl fun _ _ hlookup => .inr hlookup
  · by_cases hpid : pid (assign conf (s.croutines cr)) < conf.procNum
    · rw [dispatchTask_choreography hid hpid]
      have hhome : home conf (assign conf (s.croutines cr)) =
          .choreography (pid (assign conf (s.croutines cr))) := if_pos hpid
      obtain ⟨q, hqueue, hq⟩ := State.queue_enqueueChoreography (registered s cr
        (assign conf (s.croutines cr))) (pid (assign conf (s.croutines cr))) cr
      refine hs.of_new hid (assign_id _) (home_assign_of (assign_name _) rfl rfl) rfl rfl
        (hhome ▸ hqueue) (hhome ▸ hq)
    · rw [dispatchTask_pool hid hpid]
      have hqueue := State.queue_setGroup (registered s cr (pooled (assign conf (s.croutines cr))))
        (pooled (assign conf (s.croutines cr))).groupName
        (pooled (assign conf (s.croutines cr))).prioIndex
        (s.crGroup (pooled (assign conf (s.croutines cr))).groupName
          (pooled (assign conf (s.croutines cr))).prioIndex ++ [cr])
      rw [← home_pooled hpid] at hqueue
      refine hs.of_new hid ?_ (home_assign_of ?_ ?_ (prioIndex_pooled _)) rfl rfl hqueue ?_
      · rw [pooled_eq, assign_id]
      · rw [pooled_eq, assign_name]
      · rw [pooled_eq]
      · rw [home_pooled hpid]
        exact List.perm_append_singleton cr _

theorem Inv.removeCRoutine {crid : UInt64} (hs : Inv conf s)
    (hrange : RemovesInRange conf s (.removeCRoutine crid)) :
    Inv conf (removeCRoutine conf s crid).2 := by
  unfold Choreography.removeCRoutine
  split
  · exact hs
  · next cr hlookup =>
    have hassign : ∀ id cr', (s.idCr.erase crid).lookup id = some cr' →
        home conf (assign conf (s.croutines cr')) = home conf (s.croutines cr') := by
      exact fun id cr' hlookup' => hs.home_assign id cr' (lookup_erase_eq_some_iff.mp hlookup').2
    split_ifs with hpid
    · refine ⟨hs.unregister hlookup rfl rfl ?_, hassign⟩
      rw [home, if_pos hpid]
      exact State.queue_removeChoreography ..
    · have hlt := hrange cr hlookup (not_lt.mp hpid)
      rw [State.removeClassic_of_lt _ hlt]
      refine ⟨hs.unregister hlookup rfl rfl ?_, hassign⟩
      rw [State.queue_setGroup, hs.id_eq crid cr hlookup, home, if_neg hpid]
      rfl

theorem Inv.step {call : Call} (hs : Inv conf s) (hrange : RemovesInRange conf s call)
    (h : step conf s call = some s') : Inv conf s' := by
  cases call with
  | dispatchTask cr =>
    obtain rfl := some.inj h
    exact hs.dispatchTask cr
  | removeCRoutine crid =>
    obtain rfl := some.inj h
    exact hs.removeCRoutine hrange

theorem Inv.not_agrees {call : Call} (hs : Inv conf s) (hrange : ¬RemovesInRange conf s call)
    (h : Choreography.step conf s call = some s') : ¬Agrees s' := by
  cases call with
  | dispatchTask cr => exact absurd trivial hrange
  | removeCRoutine crid =>
    obtain rfl := some.inj h
    simp only [RemovesInRange, not_forall] at hrange
    obtain ⟨cr, hlookup, hpid, hprio⟩ := hrange
    have hstep : (Choreography.removeCRoutine conf s crid).2 =
        { s with idCr := s.idCr.erase crid } := by
      rw [mem_def] at hlookup
      simp only [Choreography.removeCRoutine, hlookup, if_neg (not_lt.mpr hpid)]
      rw [State.removeClassic, dif_neg hprio]
    intro hagrees
    rw [hstep] at hagrees
    have hmem : cr ∈ s.queue (home conf (s.croutines cr)) :=
      hs.placement.mem_iff.mpr (hs.registered_iff.mp ⟨crid, hlookup⟩)
    obtain ⟨id, herased⟩ := hagrees.registered cr _ hmem
    obtain ⟨hne, hid⟩ := lookup_erase_eq_some_iff.mp herased
    exact hne ((hs.id_eq id cr hid).symm.trans (hs.id_eq crid cr hlookup))

end Choreography

/-- **Registry and run queues.** In every run of the classic scheduler the registry and the run
queues agree after each call. In a run of the choreography scheduler they do exactly as long as
every croutine that is removed from the pool has a priority below `MAX_PRIO`. With both schedulers a
`DispatchTask` for a registered id returns `false` and changes neither the registry nor a queue. A
classic configuration without a group is outside, since `DispatchTask` reads `groups(0)` there. -/
theorem agrees_iff (groups : List Classic.SchedGroup) (conf : Choreography.Conf)
    (croutines : ℕ → Routine) :
    (∀ calls s, exec (Classic.step groups) (init croutines) calls = some s → Agrees s) ∧
    (∀ s cr, (s.croutines cr).id ∈ s.idCr →
      Classic.dispatchTask groups s cr = some (.returned false, s)) ∧
    (∀ calls s, exec (Choreography.step conf) (init croutines) calls = some s →
      ((∀ calls', calls' <+: calls → ∀ s', exec (Choreography.step conf) (init croutines) calls' =
          some s' → Agrees s') ↔
        AllSteps (Choreography.step conf) (Choreography.RemovesInRange conf) (init croutines)
          calls)) ∧
    (∀ s cr, (s.croutines cr).id ∈ s.idCr →
      (Choreography.dispatchTask conf s cr).1 = .returned false ∧
      (Choreography.dispatchTask conf s cr).2.idCr = s.idCr ∧
      (Choreography.dispatchTask conf s cr).2.queue = s.queue) := by
  refine ⟨fun calls s h => (Classic.Inv.of_exec h).agrees, fun s cr hid => ?_,
    fun calls s h => ?_, fun s cr hid => ?_⟩
  · simp only [Classic.dispatchTask, if_pos hid]
  · exact forall_prefix_iff_allSteps (Choreography.Inv conf) (fun s hs => hs.agrees)
      (fun s call s' hs hrange h => hs.step hrange h)
      (fun s call s' hs hrange h => hs.not_agrees hrange h) (Choreography.inv_init croutines) h
  · rw [Choreography.dispatchTask_registered hid]
    exact ⟨rfl, rfl, rfl⟩

/-- A task with a configured priority that is too high, dispatched and removed. -/
theorem agrees_after_remove :
    ∃ s, exec (Choreography.step ⟨1, [⟨"t", none, 25⟩]⟩) (init fun _ => ⟨7, "t", 0, -1, ""⟩)
        [.dispatchTask 0, .removeCRoutine 7] = some s ∧ Agrees s :=
  exists_exec_mono (P := fun s => 7 ∉ s.idCr) (by decide +kernel) fun s hs _ =>
    ((agrees_iff [] ⟨1, [⟨"t", none, 25⟩]⟩ _).2.2.1 _ s hs).mpr (by decide +kernel) _
      (List.prefix_refl _) s hs

/-- The same task is dispatched once more before it is removed: its priority is `25` again, the
removal throws, and the croutine stays in the queue of the highest priority. -/
theorem queued_after_remove :
    ∃ s, exec (Choreography.step ⟨1, [⟨"t", none, 25⟩]⟩) (init fun _ => ⟨7, "t", 0, -1, ""⟩)
        [.dispatchTask 0, .dispatchTask 0] = some s ∧
      (Choreography.removeCRoutine ⟨1, [⟨"t", none, 25⟩]⟩ s 7).1 = .outOfRange ∧
      (Choreography.removeCRoutine ⟨1, [⟨"t", none, 25⟩]⟩ s 7).2.idCr.keys = [] ∧
      0 ∈ (Choreography.removeCRoutine ⟨1, [⟨"t", none, 25⟩]⟩ s 7).2.queue
        (.classic defaultGroupName 19) := by
  decide +kernel

end Cyber.Scheduler
