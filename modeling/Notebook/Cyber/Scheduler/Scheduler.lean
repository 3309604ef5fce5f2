import Notebook.Container.NestedMap
import Notebook.Container.Placement
import Notebook.Cyber.Scheduler.ClassicContext
import Notebook.Interleaving.Run

/-!
# The registry and the run queues of a scheduler

A `Scheduler` (`scheduler/scheduler.h`) keeps its croutines in the map `id_cr_` from ids to
croutines and, for its processors, in run queues. A `ClassicContext`
(`scheduler/policy/classic_context.cc`) takes croutines from the vectors of its group in the static
`cr_group_`, one for each priority below `MAX_PRIO`, and a `ChoreographyContext`
(`scheduler/policy/choreography_context.cc`) from a multimap of its own, ordered by priority. Which
queue a croutine belongs to is computed from its fields, when it is dispatched and again when it is
removed.

A croutine is an object that is shared by the registry, the queues and the callers, so it has an
address and its fields are in a store. The calls of `DispatchTask` and `RemoveCRoutine` for one id
exclude each other by a mutex of the id; here every call is one step.
-/

open Container Function

namespace Cyber.Scheduler

/-- `DEFAULT_GROUP_NAME` -/
def defaultGroupName : String := "default_grp"

/-- The fields of a `CRoutine` that schedulers use. -/
structure Routine where
  id : UInt64
  name : String
  priority : ℕ
  processorId : ℤ
  groupName : String
deriving DecidableEq, Repr

/-- A priority that is too high is replaced by the highest one. -/
def Routine.clampPriority (routine : Routine) : Routine :=
  if maxPrio ≤ routine.priority then { routine with priority := maxPrio - 1 } else routine

/-- A run queue: a group and a priority of the classic context, or a choreography processor. -/
inductive Place
  | classic (group : String) (prio : Fin maxPrio)
  | choreography (pid : ℕ)
deriving DecidableEq, Repr

/-- The croutines by their addresses, the map `id_cr_` and the run queues: `cr_group_` of the
classic context and `cr_queue_` of each choreography context. -/
structure State where
  croutines : ℕ → Routine
  idCr : Map UInt64 ℕ
  crGroup : String → Fin maxPrio → List ℕ
  crQueue : ℕ → List (ℕ × ℕ)

/-- A scheduler without tasks. -/
def init (croutines : ℕ → Routine) : State := ⟨croutines, ∅, fun _ _ => [], fun _ => []⟩

/-- The priority whose queue a croutine is in. -/
def Routine.prioIndex (routine : Routine) : Fin maxPrio :=
  ⟨min routine.priority (maxPrio - 1), lt_of_le_of_lt (min_le_right _ _) (by decide)⟩

theorem Routine.clampPriority_eq (routine : Routine) :
    routine.clampPriority = { routine with priority := routine.prioIndex } := by
  unfold clampPriority prioIndex
  split_ifs with h
  · have hmin : min routine.priority (maxPrio - 1) = maxPrio - 1 :=
      min_eq_right (Nat.le_of_succ_le h)
    simp only [hmin]
  · have hmin : min routine.priority (maxPrio - 1) = routine.priority :=
      min_eq_left (Nat.le_pred_of_lt (not_le.mp h))
    simp only [hmin]

variable {routine : Routine}

theorem Routine.prioIndex_eq (h : routine.priority < maxPrio) :
    routine.prioIndex = ⟨routine.priority, h⟩ :=
  Fin.ext (min_eq_left (Nat.le_pred_of_lt h))

/-- How a call ends: with a result, or with the exception of `at` for an index out of range. -/
inductive Outcome
  | returned (result : Bool)
  | outOfRange
deriving DecidableEq, Repr

/-- A call to a scheduler, with the address of a croutine or an id. -/
inductive Call
  | dispatchTask (cr : ℕ)
  | removeCRoutine (crid : UInt64)
deriving DecidableEq, Repr

namespace State

variable (s : State)

/-- The croutine is in `id_cr_`. -/
def Registered (cr : ℕ) : Prop := ∃ id, s.idCr.lookup id = some cr

/-- The croutines in a run queue. -/
def queue : Place → List ℕ
  | .classic group prio => s.crGroup group prio
  | .choreography pid => (s.crQueue pid).map Prod.snd

/-- The fields of a croutine are changed. -/
def setRoutine (cr : ℕ) (routine : Routine) : State :=
  { s with croutines := update s.croutines cr routine }

/-- A vector of `cr_group_` is changed. -/
def setGroup (group : String) (prio : Fin maxPrio) (q : List ℕ) : State :=
  { s with crGroup := update s.crGroup group (update (s.crGroup group) prio q) }

variable (pid : ℕ)

/-- The `cr_queue_` of a choreography processor is changed. -/
def setQueue (pid : ℕ) (q : List (ℕ × ℕ)) : State :=
  { s with crQueue := update s.crQueue pid q }

@[simp] theorem croutines_setRoutine (cr : ℕ) (routine : Routine) :
    (s.setRoutine cr routine).croutines = update s.croutines cr routine := rfl

@[simp] theorem idCr_setRoutine (cr : ℕ) (routine : Routine) :
    (s.setRoutine cr routine).idCr = s.idCr := rfl

@[simp] theorem croutines_setGroup (group : String) (prio : Fin maxPrio) (q : List ℕ) :
    (s.setGroup group prio q).croutines = s.croutines := rfl

@[simp] theorem idCr_setGroup (group : String) (prio : Fin maxPrio) (q : List ℕ) :
    (s.setGroup group prio q).idCr = s.idCr := rfl

@[simp] theorem queue_setGroup (group : String) (prio : Fin maxPrio) (q : List ℕ) :
    (s.setGroup group prio q).queue = update s.queue (.classic group prio) q := by
  funext place
  cases place with
  | classic group' prio' =>
    by_cases hgroup : group' = group
    · subst hgroup
      by_cases hprio : prio' = prio
      · subst hprio
        simp [queue, setGroup]
      · simp [queue, setGroup, hprio]
    · simp [queue, setGroup, hgroup]
  | choreography pid => simp [queue, setGroup]

@[simp] theorem queue_setQueue (q : List (ℕ × ℕ)) :
    (s.setQueue pid q).queue = update s.queue (.choreography pid) (q.map Prod.snd) := by
  funext place
  cases place with
  | classic group prio => simp [queue, setQueue]
  | choreography pid' =>
    by_cases hpid : pid' = pid
    · subst hpid
      simp [queue, setQueue]
    · simp [queue, setQueue, hpid]

/-! ### The classic context -/

/-- `cr_group_[group].at(prio).emplace_back(cr)`, with the group and priority of the croutine. -/
def enqueueClassic (cr : ℕ) : Outcome × State :=
  let routine := s.croutines cr
  if h : routine.priority < maxPrio then
    let prio : Fin maxPrio := ⟨routine.priority, h⟩
    (.returned true, s.setGroup routine.groupName prio (s.crGroup routine.groupName prio ++ [cr]))
  else (.outOfRange, s)

/-- `ClassicContext::RemoveCRoutine`: the first croutine with the id is removed from the queue of
the group and priority of `routine`. -/
def removeClassic (routine : Routine) : Outcome × State :=
  if h : routine.priority < maxPrio then
    let prio : Fin maxPrio := ⟨routine.priority, h⟩
    let test := fun cr => decide ((s.croutines cr).id = routine.id)
    let croutines := s.crGroup routine.groupName prio
    (.returned (croutines.any test), s.setGroup routine.groupName prio (croutines.eraseP test))
  else (.outOfRange, s)

theorem enqueueClassic_of_lt {cr : ℕ} (h : (s.croutines cr).priority < maxPrio) :
    s.enqueueClassic cr = (.returned true, s.setGroup (s.croutines cr).groupName
      (s.croutines cr).prioIndex
      (s.crGroup (s.croutines cr).groupName (s.croutines cr).prioIndex ++ [cr])) := by
  rw [enqueueClassic, dif_pos h, Routine.prioIndex_eq h]

theorem removeClassic_of_lt (h : routine.priority < maxPrio) :
    (s.removeClassic routine).2 = s.setGroup routine.groupName routine.prioIndex
      ((s.crGroup routine.groupName routine.prioIndex).eraseP
        fun cr => decide ((s.croutines cr).id = routine.id)) := by
  rw [removeClassic, dif_pos h, Routine.prioIndex_eq h]

/-! ### The choreography context -/

/-- `emplace` of `cr_queue_`, which is ordered from high to low priorities: an element is inserted
after those of its priority. -/
def emplace (item : ℕ × ℕ) (q : List (ℕ × ℕ)) : List (ℕ × ℕ) :=
  q.takeWhile (item.1 ≤ ·.1) ++ item :: q.dropWhile (item.1 ≤ ·.1)

theorem emplace_perm (item : ℕ × ℕ) (q : List (ℕ × ℕ)) : (emplace item q).Perm (item :: q) := by
  refine List.perm_middle.trans ?_
  rw [List.takeWhile_append_dropWhile]

/-- `ChoreographyContext::Enqueue` -/
def enqueueChoreography (pid cr : ℕ) : State :=
  s.setQueue pid (emplace ((s.croutines cr).priority, cr) (s.crQueue pid))

/-- `ChoreographyContext::RemoveCRoutine` -/
def removeChoreography (pid : ℕ) (crid : UInt64) : Outcome × State :=
  let test := fun item : ℕ × ℕ => decide ((s.croutines item.2).id = crid)
  (.returned ((s.crQueue pid).any test), s.setQueue pid ((s.crQueue pid).eraseP test))

theorem queue_enqueueChoreography (pid cr : ℕ) :
    ∃ q, (s.enqueueChoreography pid cr).queue = update s.queue (.choreography pid) q ∧
      q.Perm (cr :: s.queue (.choreography pid)) :=
  ⟨_, s.queue_setQueue pid _,
    (emplace_perm ((s.croutines cr).priority, cr) (s.crQueue pid)).map Prod.snd⟩

theorem queue_removeChoreography (crid : UInt64) :
    (s.removeChoreography pid crid).2.queue = update s.queue (.choreography pid)
      ((s.queue (.choreography pid)).eraseP fun cr => (s.croutines cr).id = crid) := by
  rw [removeChoreography, queue_setQueue, queue, List.eraseP_map]
  rfl

end State

/-! ### Agreement -/

/-- The registry and the run queues agree: a registered croutine is in exactly one queue, once, and
a croutine in a queue is registered. -/
structure Agrees (s : State) : Prop where
  queued : ∀ cr, s.Registered cr →
    ∃ place, (s.queue place).count cr = 1 ∧ ∀ place', place' ≠ place → cr ∉ s.queue place'
  registered : ∀ cr place, cr ∈ s.queue place → s.Registered cr

/-- The place of a croutine: a registered croutine is where its fields say, and the others are
nowhere. -/
def State.place (home : Routine → Place) (s : State) (cr : ℕ) : Option Place :=
  if s.idCr.lookup (s.croutines cr).id = some cr then some (home (s.croutines cr)) else none

/-- Croutines are registered under their ids, and each is in the queue that `home` computes from its
fields. -/
structure Inv (home : Routine → Place) (s : State) : Prop where
  id_eq : ∀ id cr, s.idCr.lookup id = some cr → (s.croutines cr).id = id
  placement : Placement (s.place home) s.queue

variable {home : Routine → Place} {s s' : State} {cr : ℕ}

theorem inv_init (home : Routine → Place) (croutines : ℕ → Routine) :
    Inv home (init croutines) where
  id_eq := by simp [init]
  placement cr place := by
    have hempty : (init croutines).queue place = [] := by cases place <;> rfl
    rw [hempty]
    simp [State.place, init]

theorem Inv.registered_iff (hs : Inv home s) :
    s.Registered cr ↔ s.place home cr = some (home (s.croutines cr)) := by
  simp only [State.Registered, State.place, ite_eq_left_iff, reduceCtorEq, imp_false, not_not]
  exact ⟨fun ⟨id, hid⟩ => hs.id_eq id cr hid ▸ hid, fun h => ⟨_, h⟩⟩

theorem Inv.not_registered_iff (hs : Inv home s) :
    ¬s.Registered cr ↔ s.place home cr = none := by
  rw [hs.registered_iff, State.place]
  split_ifs <;> simp

theorem Inv.agrees (hs : Inv home s) : Agrees s where
  queued cr hcr := by
    have hplace := hs.registered_iff.mp hcr
    refine ⟨home (s.croutines cr), ?_, fun place' hne hmem => hne ?_⟩
    · rw [hs.placement, if_pos hplace]
    · exact Option.some.inj ((hs.placement.mem_iff.mp hmem).symm.trans hplace)
  registered cr place hmem := by
    by_contra hcr
    rw [hs.not_registered_iff] at hcr
    exact absurd (hs.placement.mem_iff.mp hmem) (by simp [hcr])

/-- One croutine gets new fields, and no other one is registered: a property of the fields of the
registered croutines that the new fields have as well. -/
theorem forall_registered_update {P : Routine → Prop}
    (h : ∀ id cr', s.idCr.lookup id = some cr' → P (s.croutines cr')) (hroutine : P routine)
    (hcr : s'.croutines = update s.croutines cr routine)
    (hreg : ∀ id cr', s'.idCr.lookup id = some cr' → cr' = cr ∨ s.idCr.lookup id = some cr') :
    ∀ id cr', s'.idCr.lookup id = some cr' → P (s'.croutines cr') := by
  intro id cr' hlookup
  rw [hcr]
  by_cases hcr' : cr' = cr
  · subst hcr'
    rwa [update_self]
  · rw [update_of_ne hcr']
    exact h id cr' ((hreg id cr' hlookup).resolve_left hcr')

/-- A new croutine goes into the registry and into the queue of its home. -/
theorem Inv.register {q : List ℕ} (hs : Inv home s)
    (hnew : (s.croutines cr).id ∉ s.idCr) (hid : routine.id = (s.croutines cr).id)
    (hcr : s'.croutines = update s.croutines cr routine)
    (hreg : s'.idCr = s.idCr.insert routine.id cr)
    (hqueue : s'.queue = update s.queue (home routine) q)
    (hq : q.Perm (cr :: s.queue (home routine))) : Inv home s' := by
  have hnone : s.idCr.lookup routine.id = none := by rwa [hid, AList.lookup_eq_none]
  have hne : ∀ id cr', s.idCr.lookup id = some cr' → cr' ≠ cr := by
    rintro id cr' hlookup rfl
    rw [hs.id_eq id cr' hlookup] at hnew
    exact hnew (AList.lookup_isSome.mp (Option.isSome_of_eq_some hlookup))
  have hplace : s'.place home = update (s.place home) cr (some (home routine)) := by
    funext cr'
    by_cases hcr' : cr' = cr
    · subst hcr'
      rw [State.place, hcr, hreg, update_self, update_self, AList.lookup_insert,
        if_pos rfl]
    · rw [update_of_ne hcr', State.place, State.place, hcr, hreg,
        update_of_ne hcr']
      by_cases heq : (s.croutines cr').id = routine.id
      · rw [heq, hnone, AList.lookup_insert]
        simp [Ne.symm hcr']
      · rw [AList.lookup_insert_ne heq]
  refine ⟨fun id cr' hlookup => ?_, ?_⟩
  · rw [hcr]
    rw [hreg] at hlookup
    rcases lookup_insert_eq_some_iff.mp hlookup with ⟨rfl, rfl⟩ | ⟨-, hlookup⟩
    · rw [update_self]
    · rw [update_of_ne (hne id cr' hlookup)]
      exact hs.id_eq id cr' hlookup
  · rw [hplace, hqueue]
    refine hs.placement.enqueue ?_ hq
    rw [State.place, ← hid, hnone]
    rfl

/-- A croutine leaves the registry and the queue of its home. -/
theorem Inv.unregister {crid : UInt64} (hs : Inv home s) (hlookup : s.idCr.lookup crid = some cr)
    (hcr : s'.croutines = s.croutines) (hreg : s'.idCr = s.idCr.erase crid)
    (hqueue : s'.queue = update s.queue (home (s.croutines cr))
      ((s.queue (home (s.croutines cr))).eraseP fun cr' => (s.croutines cr').id = crid)) :
    Inv home s' := by
  have hid := hs.id_eq crid cr hlookup
  have hcrid : s.place home cr = some (home (s.croutines cr)) :=
    hs.registered_iff.mp ⟨crid, hlookup⟩
  have hplace : s'.place home = update (s.place home) cr none := by
    funext cr'
    by_cases hcr' : cr' = cr
    · subst hcr'
      rw [State.place, hcr, hreg, hid, AList.lookup_erase, update_self]
      rfl
    · rw [update_of_ne hcr', State.place, State.place, hcr, hreg]
      by_cases heq : (s.croutines cr').id = crid
      · rw [heq, hlookup, AList.lookup_erase]
        simp [Ne.symm hcr']
      · rw [AList.lookup_erase_ne heq]
  refine ⟨fun id cr' hlookup' => ?_, ?_⟩
  · rw [hcr]
    rw [hreg] at hlookup'
    exact hs.id_eq id cr' (lookup_erase_eq_some_iff.mp hlookup').2
  · rw [hplace, hqueue]
    refine hs.placement.remove hcrid (perm_cons_eraseP (hs.placement.mem_iff.mpr hcrid) ?_)
    intro cr' hmem
    rw [decide_eq_true_iff]
    constructor
    · -- a croutine in the queue is registered under its id, which is that of `cr`
      intro hid'
      have hplace' := hs.placement.mem_iff.mp hmem
      rw [State.place, hid', hlookup] at hplace'
      by_contra hne
      simp [Ne.symm hne] at hplace'
    · rintro rfl
      exact hid

theorem Inv.assign (hs : Inv home s) (hid : s.Registered cr → routine.id = (s.croutines cr).id)
    (hhome : s.Registered cr → home routine = home (s.croutines cr)) :
    Inv home (s.setRoutine cr routine) := by
  have hplace : (s.setRoutine cr routine).place home = s.place home := by
    funext cr'
    by_cases hcr' : cr' = cr
    · subst hcr'
      by_cases hreg : s.Registered cr'
      · rw [State.place, State.place, State.croutines_setRoutine, update_self, hid hreg,
          hhome hreg]
        rfl
      · rw [hs.not_registered_iff.mp hreg]
        exact if_neg fun h => hreg ⟨_, h⟩
    · rw [State.place, State.place, State.croutines_setRoutine, update_of_ne hcr']
      rfl
  refine ⟨fun id cr' hlookup => ?_, hplace ▸ hs.placement⟩
  by_cases hcr' : cr' = cr
  · subst hcr'
    rw [State.croutines_setRoutine, update_self, hid ⟨id, hlookup⟩,
      hs.id_eq id cr' hlookup]
  · rw [State.croutines_setRoutine, update_of_ne hcr', hs.id_eq id cr' hlookup]

end Cyber.Scheduler
