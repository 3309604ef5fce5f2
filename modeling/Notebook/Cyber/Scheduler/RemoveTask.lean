import Notebook.Cyber.Common.GlobalData
import Notebook.Cyber.Scheduler.SchedulerClassic

/-!
# Creating and removing tasks by name

`Scheduler::CreateTask` (`scheduler/scheduler.cc`) makes a croutine for a task, with the id that
`GlobalData::RegisterTaskName` gives to the name, and dispatches it. `SchedulerClassic::RemoveTask`
(`scheduler/policy/scheduler_classic.cc`) removes the croutine with the id
`GlobalData::GenerateHashId` of the name, which is the plain hash. The two ids differ if the hash of
the name was already taken by another task when the name was registered, and `RemoveTask` then
removes the croutine of the other task, or none.

The calls are made one after the other.
-/

open Container Interleaving Function Option

namespace Cyber.Scheduler

open GlobalData (IdMap registerName registerName_eq_some)

/-- A scheduler with the ids of task names. -/
structure Tasks where
  sched : State
  taskIdMap : IdMap
  /-- The address of the next new croutine. -/
  next : ℕ
  stop : Bool
  /-- The croutine of the last successful `CreateTask` for each name. -/
  lastCreated : String → Option ℕ

namespace Tasks

variable (hash : String → UInt64) (groups : List Classic.SchedGroup)

/-- A scheduler without tasks in a process without task names. -/
def init : Tasks := ⟨Scheduler.init fun _ => ⟨0, "", 0, -1, ""⟩, ∅, 0, false, fun _ => none⟩

/-- `CreateTask` -/
def createTask (s : Tasks) (name : String) : Option (Outcome × Tasks) :=
  if s.stop then some (.returned false, s)
  else
    (registerName hash s.taskIdMap name).bind fun (taskId, taskIdMap) =>
      let sched := s.sched.setRoutine s.next ⟨taskId, name, 0, -1, ""⟩
      (Classic.dispatchTask groups sched s.next).map fun (outcome, sched) =>
        (outcome,
          { s with
            sched
            taskIdMap
            next := s.next + 1
            lastCreated := if outcome = .returned true then
              update s.lastCreated name (some s.next) else s.lastCreated })

/-- `RemoveTask` of the classic scheduler. -/
def removeTask (s : Tasks) (name : String) : Outcome × Tasks :=
  if s.stop then (.returned true, s)
  else
    let crid := hash name
    ((Classic.removeCRoutine s.sched crid).1,
      { s with sched := (Classic.removeCRoutine s.sched crid).2 })

/-- A call by the user of the scheduler. -/
inductive Call
  | createTask (name : String)
  | removeTask (name : String)
deriving DecidableEq, Repr

/-- One call. -/
def step (s : Tasks) : Call → Option Tasks
  | .createTask name => (createTask hash groups s name).map Prod.snd
  | .removeTask name => some (removeTask hash s name).2

/-- The croutine of the last successful `CreateTask(name)` is gone, and every croutine of another
task that was registered is registered and in a queue. -/
structure RemovesOnly (s : Tasks) (name : String) (s' : Tasks) : Prop where
  removed : ∀ cr ∈ s.lastCreated name,
    ¬s'.sched.Registered cr ∧ ∀ place, cr ∉ s'.sched.queue place
  kept : ∀ cr, s.sched.Registered cr → (s.sched.croutines cr).name ≠ name →
    s'.sched.Registered cr ∧ ∃ place, cr ∈ s'.sched.queue place

/-- A croutine is registered under the hash of the name exactly if it is a croutine of the task. -/
def HashIsId (s : Tasks) (name : String) : Prop :=
  ∀ entry ∈ s.sched.idCr.entries,
    entry.1 = hash name ↔ (s.sched.croutines entry.2).name = name
deriving Decidable

/-! ### The invariant -/

/-- Names are registered where their searches end, and croutines under the ids of their names. -/
structure Inv (s : Tasks) : Prop where
  classic : Classic.Inv s.sched
  running : s.stop = false
  reached : Reached (· + 1) hash s.taskIdMap
  named : ∀ id cr, s.sched.idCr.lookup id = some cr →
    s.taskIdMap.lookup id = some (s.sched.croutines cr).name
  last : ∀ id cr, s.sched.idCr.lookup id = some cr →
    s.lastCreated (s.sched.croutines cr).name = some cr
  last_name : ∀ name cr, s.lastCreated name = some cr → (s.sched.croutines cr).name = name
  lt_next : ∀ name cr, s.lastCreated name = some cr → cr < s.next

theorem inv_init : Inv hash init where
  classic := Classic.inv_init _
  running := rfl
  reached := by simp [init, Reached]
  named := by simp [init, Scheduler.init]
  last := by simp [init, Scheduler.init]
  last_name := by simp [init]
  lt_next := by simp [init]

variable {hash groups} {s s' : Tasks} {name : String}

section

variable (hs : Inv hash s)

include hs

theorem Inv.not_registered_next : ¬s.sched.Registered s.next :=
  fun ⟨id, hlookup⟩ => lt_irrefl _ (hs.lt_next _ _ (hs.last id s.next hlookup))

theorem Inv.fresh (routine : Routine) : Classic.Inv (s.sched.setRoutine s.next routine) where
  toInv := hs.classic.assign (fun h => absurd h hs.not_registered_next)
    fun h => absurd h hs.not_registered_next
  priority_lt id cr hlookup := by
    have hne : cr ≠ s.next := fun h => hs.not_registered_next ⟨id, h ▸ hlookup⟩
    rw [State.croutines_setRoutine, update_of_ne hne]
    exact hs.classic.priority_lt id cr hlookup

/-- What `CreateTask` does: it registers the name and dispatches a new croutine with its id, which
is rejected if a croutine with the id is registered. -/
theorem Inv.createTask_cases (h : (createTask hash groups s name).map Prod.snd = some s') :
    ∃ (id : UInt64) (routine : Routine),
      Probed (· + 1) s.taskIdMap.lookup name (hash name) id ∧
      (∀ found ∈ s.taskIdMap.lookup id, found = name) ∧
      s'.taskIdMap = s.taskIdMap.insert id name ∧ s'.stop = false ∧ s'.next = s.next + 1 ∧
      Classic.Inv s'.sched ∧ routine.name = name ∧
      s'.sched.croutines = update s.sched.croutines s.next routine ∧
      ((s'.sched.idCr = s.sched.idCr ∧ s'.lastCreated = s.lastCreated) ∨
        (id ∉ s.sched.idCr ∧ s'.sched.idCr = s.sched.idCr.insert id s.next ∧
          s'.lastCreated = update s.lastCreated name (some s.next))) := by
  obtain ⟨⟨o, s₁⟩, hcreate, rfl⟩ := map_eq_some_iff.mp h
  simp only [Tasks.createTask, hs.running, Bool.false_eq_true, if_false] at hcreate
  obtain ⟨⟨id, idMap⟩, hregister, hmap⟩ := bind_eq_some_iff.mp hcreate
  obtain ⟨hprobed, hend, rfl⟩ := registerName_eq_some hregister
  obtain ⟨⟨o', sched⟩, hdispatch, heq⟩ := map_eq_some_iff.mp hmap
  obtain ⟨rfl, rfl⟩ := Prod.mk.inj heq
  have hfresh := hs.fresh ⟨id, name, 0, -1, ""⟩
  rcases Classic.dispatchTask_cases hdispatch with
    ⟨-, rfl, rfl⟩ | ⟨hnew, rfl, routine, hid, hname, hlt, rfl⟩
  · exact ⟨id, _, hprobed, hend, rfl, rfl, rfl, hfresh, rfl, rfl, .inl ⟨rfl, rfl⟩⟩
  · refine ⟨id, routine, hprobed, hend, rfl, rfl, rfl, hfresh.enqueued hnew hid hlt, ?_⟩
    simp only [State.croutines_setRoutine, State.idCr_setRoutine, update_self]
      at hnew hid hname
    refine ⟨hname, ?_, .inr ⟨hnew, ?_, rfl⟩⟩
    · simp only [Classic.croutines_enqueued, State.croutines_setRoutine, update_idem]
    · simp only [Classic.idCr_enqueued, State.idCr_setRoutine, hid]

/-- The croutines that are registered after `CreateTask`: those that were before it, and perhaps the
new one. The last croutine of a name that has an old one registered is the same as before. -/
theorem Inv.registered_createTask {id : UInt64}
    (hprobed : Probed (· + 1) s.taskIdMap.lookup name (hash name) id)
    (hend : ∀ found ∈ s.taskIdMap.lookup id, found = name)
    (hcase : (s'.sched.idCr = s.sched.idCr ∧ s'.lastCreated = s.lastCreated) ∨
      (id ∉ s.sched.idCr ∧ s'.sched.idCr = s.sched.idCr.insert id s.next ∧
        s'.lastCreated = update s.lastCreated name (some s.next)))
    {id' : UInt64} {cr : ℕ} (hlookup : s'.sched.idCr.lookup id' = some cr) :
    (id' = id ∧ cr = s.next ∧ s'.lastCreated name = some s.next) ∨
      (s.sched.idCr.lookup id' = some cr ∧
        s'.lastCreated (s.sched.croutines cr).name = some cr) := by
  rcases hcase with ⟨hreg, hlast⟩ | ⟨-, hreg, hlast⟩ <;> rw [hreg] at hlookup <;> rw [hlast]
  · exact .inr ⟨hlookup, hs.last id' cr hlookup⟩
  · rcases lookup_insert_eq_some_iff.mp hlookup with ⟨rfl, rfl⟩ | ⟨hne, hlookup⟩
    · exact .inl ⟨rfl, rfl, update_self ..⟩
    · have hother : (s.sched.croutines cr).name ≠ name := by
        -- a name has one id, and no croutine with this id was registered
        intro heq
        have hthis := lookup_insert_mono hend id' _ (hs.named id' cr hlookup)
        rw [heq] at hthis
        exact hne ((hs.reached.insert hprobed hend).key_unique hthis (AList.lookup_insert _))
      rw [update_of_ne hother]
      exact .inr ⟨hlookup, hs.last id' cr hlookup⟩

/-- A new task is registered under the id at which the search from its hash ends. -/
theorem Inv.createTask (h : (createTask hash groups s name).map Prod.snd = some s') :
    Inv hash s' := by
  obtain ⟨id, routine, hprobed, hend, hmap, hstop, hnext, hclassic, hname, hcr, hcase⟩ :=
    hs.createTask_cases h
  -- the croutines that are known before the call are not the new one
  have hold : ∀ id' cr, s.sched.idCr.lookup id' = some cr →
      s'.sched.croutines cr = s.sched.croutines cr := by
    intro id' cr hlookup
    have hne : cr ≠ s.next := fun h => hs.not_registered_next ⟨id', h ▸ hlookup⟩
    rw [hcr, update_of_ne hne]
  have hself : (s'.sched.croutines s.next).name = name := by rw [hcr, update_self, hname]
  have hcreated : ∀ name' cr, s'.lastCreated name' = some cr →
      (name' = name ∧ cr = s.next) ∨ s.lastCreated name' = some cr := by
    intro name' cr hlast'
    rcases hcase with ⟨-, hlast⟩ | ⟨-, -, hlast⟩ <;> rw [hlast] at hlast'
    · exact .inr hlast'
    · by_cases hname' : name' = name
      · subst hname'
        rw [update_self] at hlast'
        exact .inl ⟨rfl, (some.inj hlast').symm⟩
      · rw [update_of_ne hname'] at hlast'
        exact .inr hlast'
  refine ⟨hclassic, hstop, hmap ▸ hs.reached.insert hprobed hend, fun id' cr hlookup => ?_,
    fun id' cr hlookup => ?_, fun name' cr hlast => ?_, fun name' cr hlast => ?_⟩
  · rw [hmap]
    rcases hs.registered_createTask hprobed hend hcase hlookup with ⟨rfl, rfl, -⟩ | ⟨hlookup, -⟩
    · rw [AList.lookup_insert, hself]
    · rw [hold id' cr hlookup]
      exact lookup_insert_mono hend id' _ (hs.named id' cr hlookup)
  · rcases hs.registered_createTask hprobed hend hcase hlookup with ⟨-, rfl, h⟩ | ⟨hlookup, h⟩
    · rwa [hself]
    · rwa [hold id' cr hlookup]
  · rcases hcreated name' cr hlast with ⟨rfl, rfl⟩ | hlast
    · exact hself
    · rw [hcr, update_of_ne (hs.lt_next name' cr hlast).ne]
      exact hs.last_name name' cr hlast
  · rw [hnext]
    rcases hcreated name' cr hlast with ⟨-, rfl⟩ | hlast
    · exact Nat.lt_succ_self _
    · exact Nat.lt_succ_of_lt (hs.lt_next name' cr hlast)

/-! ### `RemoveTask` -/

theorem Inv.lookup_removeTask (name : String) (id : UInt64) (cr : ℕ) :
    (removeTask hash s name).2.sched.idCr.lookup id = some cr ↔
      id ≠ hash name ∧ s.sched.idCr.lookup id = some cr := by
  simp only [removeTask, hs.running, Bool.false_eq_true, if_false,
    hs.classic.idCr_removeCRoutine]
  exact lookup_erase_eq_some_iff

theorem Inv.sched_removeTask (name : String) : (removeTask hash s name).2 =
      { s with sched := (Classic.removeCRoutine s.sched (hash name)).2 } := by
  simp only [removeTask, hs.running, Bool.false_eq_true, if_false]

theorem Inv.removeTask (name : String) : Inv hash (removeTask hash s name).2 := by
  have hlookup : ∀ id cr, (Tasks.removeTask hash s name).2.sched.idCr.lookup id = some cr →
      s.sched.idCr.lookup id = some cr := fun id cr h => ((hs.lookup_removeTask name id cr).mp h).2
  rw [hs.sched_removeTask] at hlookup ⊢
  refine ⟨hs.classic.removeCRoutine (hash name), hs.running, hs.reached, fun id cr h => ?_,
    fun id cr h => ?_, fun name' cr h => ?_, hs.lt_next⟩
  · rw [hs.classic.croutines_removeCRoutine]
    exact hs.named id cr (hlookup id cr h)
  · rw [hs.classic.croutines_removeCRoutine]
    exact hs.last id cr (hlookup id cr h)
  · rw [hs.classic.croutines_removeCRoutine]
    exact hs.last_name name' cr h

theorem Inv.step {call : Call} (h : step hash groups s call = some s') : Inv hash s' := by
  cases call with
  | createTask name => exact hs.createTask h
  | removeTask name =>
    obtain rfl := some.inj h
    exact hs.removeTask name

end

theorem Inv.of_exec {calls : List Call} (h : exec (Tasks.step hash groups) init calls = some s) :
    Inv hash s :=
  exec_invariant (Inv hash) (fun _ _ _ hs h => hs.step h) (inv_init hash) h

/-! ### What is removed -/

theorem hashIsId_iff : HashIsId hash s name ↔ ∀ id cr, s.sched.idCr.lookup id = some cr →
    (id = hash name ↔ (s.sched.croutines cr).name = name) := by
  constructor
  · exact fun h id cr hlookup => h ⟨id, cr⟩ (AList.mem_lookup_iff.mp hlookup)
  · exact fun h entry hentry => h entry.1 entry.2 (AList.mem_lookup_iff.mpr hentry)

/-- The right croutine is removed exactly if the hash of the name is its id. -/
theorem Inv.removesOnly_iff_hashIsId (hs : Inv hash s) :
    RemovesOnly s name (Tasks.removeTask hash s name).2 ↔ HashIsId hash s name := by
  have hagrees := (hs.removeTask name).classic.agrees
  rw [hashIsId_iff]
  constructor
  · intro honly id cr hlookup
    constructor
    · -- the croutine under the hash is removed, so it is not one of another task
      rintro rfl
      by_contra hname
      obtain ⟨⟨id', hid'⟩, -⟩ := honly.kept cr ⟨_, hlookup⟩ hname
      obtain ⟨hne, hlookup'⟩ := (hs.lookup_removeTask name id' cr).mp hid'
      exact hne ((hs.classic.id_eq id' cr hlookup').symm.trans (hs.classic.id_eq _ cr hlookup))
    · intro hname
      by_contra hid
      have hlast := hs.last id cr hlookup
      rw [hname] at hlast
      exact (honly.removed cr hlast).1 ⟨id, (hs.lookup_removeTask name id cr).mpr ⟨hid, hlookup⟩⟩
  · intro hhash
    refine ⟨fun cr hcr => ?_, fun cr ⟨id, hlookup⟩ hname => ?_⟩
    · have hnot : ¬(Tasks.removeTask hash s name).2.sched.Registered cr := by
        rintro ⟨id, hid⟩
        obtain ⟨hne, hlookup⟩ := (hs.lookup_removeTask name id cr).mp hid
        exact hne ((hhash id cr hlookup).mpr (hs.last_name name cr hcr))
      exact ⟨hnot, fun place hmem => hnot (hagrees.registered cr place hmem)⟩
    · have hne : id ≠ hash name := fun heq => hname ((hhash id cr hlookup).mp heq)
      have hreg : (Tasks.removeTask hash s name).2.sched.Registered cr :=
        ⟨id, (hs.lookup_removeTask name id cr).mpr ⟨hne, hlookup⟩⟩
      obtain ⟨place, hcount, -⟩ := hagrees.queued cr hreg
      exact ⟨hreg, place, List.count_pos_iff.mp (hcount ▸ one_pos)⟩

/-! ### Names with different hashes -/

/-- The names in use are among those of a set on which the hash is injective, and their ids are
their hashes. -/
def Hashed (hash : String → UInt64) (names : Set String) (s : Tasks) : Prop :=
  ∀ id name, s.taskIdMap.lookup id = some name → name ∈ names ∧ id = hash name

theorem Hashed.createTask {names : Set String} (hinj : Set.InjOn hash names) (hs : Inv hash s)
    (hhashed : Hashed hash names s) (hname : name ∈ names)
    (h : (Tasks.createTask hash groups s name).map Prod.snd = some s') : Hashed hash names s' := by
  obtain ⟨id, routine, hprobed, hend, hmap, -⟩ := hs.createTask_cases h
  have hid : id = hash name := by
    -- the search does not leave its start, which only the name itself can hold
    refine hprobed.eq_of_stop fun found hfound => ?_
    obtain ⟨hmem, heq⟩ := hhashed _ found hfound
    exact hinj hmem hname heq.symm
  intro id' name' hlookup
  rw [hmap] at hlookup
  rcases lookup_insert_eq_some_iff.mp hlookup with ⟨rfl, rfl⟩ | ⟨-, hlookup⟩
  · exact ⟨hname, hid⟩
  · exact hhashed id' name' hlookup

theorem Hashed.hashIsId {names : Set String} (hinj : Set.InjOn hash names) (hs : Inv hash s)
    (hhashed : Hashed hash names s) (hname : name ∈ names) : HashIsId hash s name := by
  rw [hashIsId_iff]
  intro id cr hlookup
  obtain ⟨hmem, rfl⟩ := hhashed id _ (hs.named id cr hlookup)
  exact ⟨fun heq => hinj hmem hname heq, fun heq => by rw [heq]⟩

/-- **Removing tasks.** After every sequence of calls, `RemoveTask(name)` removes the croutine of
the last successful `CreateTask(name)` and no croutine of another task, exactly if the hash of the
name leads to the task. It does if the names of the calls have different hashes. -/
theorem removesOnly_iff {calls : List Call}
    (h : exec (Tasks.step hash groups) init calls = some s) (name : String) :
    (RemovesOnly s name (Tasks.removeTask hash s name).2 ↔ HashIsId hash s name) ∧
    (Set.InjOn hash {name' | name' = name ∨ Call.createTask name' ∈ calls} →
      HashIsId hash s name) := by
  refine ⟨(Inv.of_exec h).removesOnly_iff_hashIsId, fun hinj => ?_⟩
  have hnames : AllSteps (Tasks.step hash groups)
      (fun _ call => ∀ name', call = .createTask name' →
        name' ∈ {name' | name' = name ∨ Call.createTask name' ∈ calls}) init calls :=
    allSteps_of_forall_mem (fun _ call hcall name' heq => .inr (heq ▸ hcall)) init
  have hinv := exec_invariant_of_allSteps
    (fun s => Inv hash s ∧ Hashed hash {name' | name' = name ∨ Call.createTask name' ∈ calls} s)
    (fun s call s' ⟨hs, hhashed⟩ hcall hstep => ⟨hs.step hstep, by
      cases call with
      | createTask name' => exact hhashed.createTask hinj hs (hcall name' rfl) hstep
      | removeTask name' =>
        obtain rfl := some.inj hstep
        rwa [hs.sched_removeTask]⟩)
    ⟨inv_init hash, by simp [Hashed, init]⟩ hnames h
  exact hinv.2.hashIsId hinj hinv.1 (.inl rfl)

/-- Two tasks whose names have different hashes. -/
theorem removesOnly_different_hashes :
    ∃ s, exec (Tasks.step (fun name => UInt64.ofNat name.length) [{}]) init
        [.createTask "a", .createTask "bb"] = some s ∧
      RemovesOnly s "bb" (Tasks.removeTask (fun name => UInt64.ofNat name.length) s "bb").2 :=
  exists_exec_mono (P := fun s => HashIsId (fun name => UInt64.ofNat name.length) s "bb")
    (by decide +kernel) fun _ hs hhash => (removesOnly_iff hs "bb").1.mpr hhash

/-- Two tasks whose names have the same hash: `RemoveTask` of the second removes the first. -/
theorem removeTask_removes_other :
    ∃ s, exec (Tasks.step (fun _ => 0) [{}]) init [.createTask "a", .createTask "b"] = some s ∧
      s.lastCreated "a" = some 0 ∧ s.lastCreated "b" = some 1 ∧
      s.sched.idCr.lookup 0 = some 0 ∧ s.sched.idCr.lookup 1 = some 1 ∧
      (Tasks.removeTask (fun _ => 0) s "b").1 = .returned true ∧
      (Tasks.removeTask (fun _ => 0) s "b").2.sched.idCr.lookup 0 = none ∧
      (Tasks.removeTask (fun _ => 0) s "b").2.sched.idCr.lookup 1 = some 1 := by
  decide +kernel

end Tasks

end Cyber.Scheduler
