import Notebook.Cyber.Transport.Shm.Segment

/-!
# Attaching to a segment and leaving it

The processes of a channel open the shared-memory object of the channel by its name, map it and
count themselves in its `State` (`OpenOrCreate` and `OpenOnly` of `transport/shm/posix_segment.cc`);
a process that leaves takes itself off the count and removes the name if the count is zero
(`Segment::Destroy` of `transport/shm/segment.cc`). All of these are separate transitions, down to
the load and the compare-exchange of `DecreaseReferenceCounts`. No process calls `Recreate`, so no
object is ever marked for remapping.

A handle that is initialised should be attached to the object that the name stands for. It is not
when a process maps an object and counts itself only after the last of the others has left and
removed the name: the count says nothing of those who have opened the name and are not counted yet.

## Main definitions

* `prog` — the steps of `OpenOrCreate`, `OpenOnly` and `Destroy`.
* `Process.counted`, `Pc.opened`, `removes` — where a process stands: counted in an object, between
  opening and counting, or about to remove the name.
* `Timely` — a step that is not part of a race.

## Main results

* `Inv.step` — the counts are exact, and nobody is counted while the name is about to be removed.
* `attached_of_timely` — without races every initialised handle is at the object under the name.
* `orphaned` — a race that leaves a reader on an object without a name.
-/

open Interleaving Function Option

namespace Cyber.SegmentAttach

open Segment (Shm Handle)

/-- The objects created so far with their `State` and their length in bytes, and the object that the
name of the channel stands for. An object lives on without a name while it is mapped. -/
structure Store where
  shm : ℕ → Shm
  length : ℕ → ℕ
  next : ℕ
  named : Option ℕ

namespace Store

variable (m : Store)

/-- `shm_open` with `O_CREAT | O_EXCL` when the name is free. -/
def create : Store := { m with next := m.next + 1, named := some m.next }

/-- `ftruncate` -/
def truncate (obj length : ℕ) : Store := { m with length := update m.length obj length }

/-- A write to the `State` of an object. -/
def modify (obj : ℕ) (f : Shm → Shm) : Store :=
  { m with shm := update m.shm obj (f (m.shm obj)) }

/-- `shm_unlink` -/
def unlink : Store := { m with named := none }

end Store

/-- The next step of a process, with the object that it has opened. The object is mapped from
`construct` or `readCeiling` on. -/
inductive Pc
  | idle
  | create
  | truncate (obj : ℕ)
  | mapNew (obj : ℕ)
  | unlinkFailed
  | construct (obj : ℕ)
  | openName
  | stat (obj : ℕ)
  | mapExisting (obj length : ℕ)
  | readCeiling (obj : ℕ)
  | increase (obj ceilingMsgSize : ℕ)
  | decreaseLoad (obj : ℕ)
  | decreaseCas (obj current : ℕ)
  | readCount (obj : ℕ)
  | remove
  | destroyed
deriving DecidableEq, Repr

/-- What a process does next: call a function, or make the next step of the call, where `ok` says
whether a system call that may fail succeeds. -/
inductive Act
  | openOrCreate
  | openOnly
  | destroy
  | step (ok : Bool)
deriving DecidableEq, Repr

/-- A process with its `Segment`. -/
structure Process where
  handle : Handle
  pc : Pc

/-- The call goes on. -/
def Process.goto (p : Process) (pc : Pc) : Process := { p with pc := pc }

/-- `DecreaseReferenceCounts` after a load of the count: at `0` it returns. -/
def decrease (obj current : ℕ) : Pc :=
  if current = 0 then .readCount obj else .decreaseCas obj current

/-- `OpenOrCreate`, `OpenOnly` and `Destroy`, one step at a time. A call that returns `false` leaves
the process at `idle`. A null `state_` is not followed: `Destroy` has no transition then. -/
def prog (m : Store) (p : Process) (a : Act) : Option (Store × Process) :=
  match p.pc, a with
  | .idle, .openOrCreate => some (m, if p.handle.init then p else p.goto .create)
  | .create, .step ok =>
    match m.named with
    | some _ => some (m, p.goto (if ok then .openName else .idle))
    | none =>
      if ok then some (m.create, p.goto (.truncate m.next)) else some (m, p.goto .idle)
  | .truncate obj, .step ok =>
    -- a failed `ftruncate` leaves the object under the name, empty
    if ok then some (m.truncate obj p.handle.conf.managedShmSize, p.goto (.mapNew obj))
    else some (m, p.goto .idle)
  | .mapNew obj, .step ok =>
    if ok then some (m, p.goto (.construct obj)) else some (m, p.goto .unlinkFailed)
  | .unlinkFailed, .step ok => some (if ok then m.unlink else m, p.goto .idle)
  | .construct obj, .step _ =>
    some (m.modify obj fun _ => { ceilingMsgSize := p.handle.conf.ceilingMsgSize },
      p.goto (.readCeiling obj))
  | .idle, .openOnly => some (m, if p.handle.init then p else p.goto .openName)
  | .openName, .step ok =>
    match m.named with
    | some obj => some (m, p.goto (if ok then .stat obj else .idle))
    | none => some (m, p.goto .idle)
  | .stat obj, .step ok =>
    some (m, p.goto (if ok then .mapExisting obj (m.length obj) else .idle))
  | .mapExisting obj length, .step ok =>
    -- an object that has not got its length yet cannot be mapped
    some (m, p.goto (if ok ∧ 0 < length then .readCeiling obj else .idle))
  | .readCeiling obj, .step _ => some (m, p.goto (.increase obj (m.shm obj).ceilingMsgSize))
  | .increase obj ceilingMsgSize, .step _ =>
    some (m.modify obj .increaseReferenceCounts,
      ⟨p.handle.attach obj ceilingMsgSize, .idle⟩)
  | .idle, .destroy =>
    if p.handle.init then
      p.handle.obj.map fun obj => (m, ⟨{ p.handle with init := false }, .decreaseLoad obj⟩)
    else some (m, p.goto .destroyed)
  | .decreaseLoad obj, .step _ => some (m, p.goto (decrease obj (m.shm obj).referenceCount))
  | .decreaseCas obj current, .step _ =>
    if (m.shm obj).referenceCount = current then
      some (m.modify obj fun x => { x with referenceCount := current - 1 }, p.goto (.readCount obj))
    else some (m, p.goto (decrease obj (m.shm obj).referenceCount))
  | .readCount obj, .step _ =>
    some (m, p.goto (if (m.shm obj).referenceCount = 0 then .remove else .destroyed))
  | .remove, .step ok => some (if ok then m.unlink else m, p.goto .destroyed)
  | _, _ => none

/-- The processes of a channel. -/
abbrev State (T : Type*) : Type _ := Threads Store T Process

/-- No object exists, and every process has a new `Segment`. -/
def init (T : Type*) : State T := ⟨⟨fun _ => {}, fun _ => 0, 0, none⟩, fun _ => ⟨.new, .idle⟩⟩

/-- One step of one process. -/
abbrev step {T : Type*} [DecidableEq T] : State T → T × Act → Option (State T) :=
  Threads.step prog

/-! ### Where a process stands -/

/-- The reference count of an object. -/
def Store.count (m : Store) (obj : ℕ) : ℕ := (m.shm obj).referenceCount

theorem count_modify (m : Store) (obj : ℕ) (f : Shm → Shm) :
    (m.modify obj f).count = update m.count obj (f (m.shm obj)).referenceCount := by
  funext obj'
  by_cases hobj : obj' = obj
  · subst hobj
    simp [Store.count, Store.modify]
  · simp [Store.count, Store.modify, hobj]

/-- The object that the process has opened by its name and in which it has not counted itself
yet. -/
def Pc.opened : Pc → Option ℕ
  | .truncate obj | .mapNew obj | .construct obj | .stat obj | .mapExisting obj _
  | .readCeiling obj | .increase obj _ => some obj
  | _ => none

/-- The object in which the process is counted: it is attached to it, or it leaves and has not
taken itself off the count yet. -/
def Process.counted (p : Process) : Option ℕ :=
  match p.pc with
  | .idle => if p.handle.init then p.handle.obj else none
  | .decreaseLoad obj | .decreaseCas obj _ => some obj
  | _ => none

/-- The process is about to remove the name: its `mmap` has failed, or it has left an object whose
count is zero. -/
def removes (m : Store) (p : Process) : Bool :=
  match p.pc with
  | .unlinkFailed | .remove => true
  | .readCount obj => m.count obj = 0
  | _ => false

/-- An initialised handle is at rest and has an object. -/
def Process.AtRest (p : Process) : Prop :=
  p.handle.init = true → p.pc = .idle ∧ ∃ obj, p.handle.obj = some obj

/-- What a step does to the name, to the counts and to the place of the process. -/
inductive Effect (m : Store) (p : Process) (a : Act) (m' : Store) (p' : Process) : Prop
  | keep (hnamed : m'.named = m.named) (hcount : m'.count = m.count)
      (hcounted : p'.counted = p.counted)
      (hopened : p'.pc.opened = none ∨ p'.pc.opened = p.pc.opened)
      (hremoves : removes m p' = true → removes m p = true)
  | opens (obj : ℕ) (hfrom : m.named = none ∨ m.named = some obj) (hnamed : m'.named = some obj)
      (hcount : m'.count = m.count) (hcounted : p.counted = none)
      (hpc : p'.pc = .truncate obj ∨ p'.pc = .stat obj)
  | construct (obj : ℕ) (hpc : p.pc = .construct obj) (hnamed : m'.named = m.named)
      (hcount : m'.count = update m.count obj 0) (hpc' : p'.pc = .readCeiling obj)
  | attach (obj ceilingMsgSize : ℕ) (hpc : p.pc = .increase obj ceilingMsgSize)
      (hnamed : m'.named = m.named)
      (hcount : m'.count = update m.count obj (uint32 (m.count obj + 1)))
      (hp' : p' = ⟨p.handle.attach obj ceilingMsgSize, .idle⟩)
  | detach (obj : ℕ) (hcounted : p.counted = some obj) (hnamed : m'.named = m.named)
      (hcount : m'.count = update m.count obj (m.count obj - 1))
      (hpc' : p'.pc = .readCount obj)
  | fail (obj : ℕ) (hpc : p.pc = .mapNew obj) (ha : a = .step false) (hnamed : m'.named = m.named)
      (hcount : m'.count = m.count) (hpc' : p'.pc = .unlinkFailed)
  | unlink (hpc : p.pc = .unlinkFailed ∨ p.pc = .remove) (ha : a = .step true)
      (hnamed : m'.named = none) (hcount : m'.count = m.count) (hcounted : p'.counted = none)
      (hopened : p'.pc.opened = none)

variable {m m' : Store} {p p' : Process} {a : Act}

theorem Process.AtRest.init_eq_false (hp : p.AtRest) (hpc : p.pc ≠ .idle) :
    p.handle.init = false := by
  rw [Bool.eq_false_iff]
  exact fun hinit => hpc (hp hinit).1

theorem effect_decrease {obj current : ℕ} {ok : Bool} (hcounted : p.counted = some obj)
    (hpos : 0 < current) :
    Effect m p (.step ok) m (p.goto (decrease obj current)) := by
  rw [decrease, if_neg hpos.ne']
  exact .keep rfl rfl hcounted.symm (.inl rfl) nofun

theorem effect_unlink {pc : Pc} (ok : Bool) (hp : p.AtRest)
    (hpc : p.pc = .unlinkFailed ∨ p.pc = .remove) (hpc' : pc = .idle ∨ pc = .destroyed) :
    Effect m p (.step ok) (if ok then m.unlink else m) (p.goto pc) := by
  have hinit : p.handle.init = false := hp.init_eq_false (by rcases hpc with h | h <;> simp [h])
  have hcounted : p.counted = none := by rcases hpc with h | h <;> simp [Process.counted, h]
  have hcounted' : (p.goto pc).counted = none := by
    rcases hpc' with rfl | rfl <;> simp [Process.counted, Process.goto, hinit]
  have hopened : (p.goto pc).pc.opened = none := by rcases hpc' with rfl | rfl <;> rfl
  have hremoves : removes m (p.goto pc) = false := by rcases hpc' with rfl | rfl <;> rfl
  cases ok with
  | true => exact .unlink hpc rfl rfl rfl hcounted' hopened
  | false =>
    exact .keep rfl rfl (hcounted'.trans hcounted.symm) (.inl hopened) (by simp [hremoves])

theorem effect_prog (hp : p.AtRest) (hpos : ∀ obj, p.counted = some obj → 0 < m.count obj)
    (h : prog m p a = some (m', p')) : Effect m p a m' p' := by
  have hinit := hp.init_eq_false
  revert h
  fun_cases prog m p a <;> simp only [some.injEq, Prod.mk.injEq, reduceCtorEq,
    IsEmpty.forall_iff]
  case case18 ha hpc =>
    simp only [map_eq_some_iff, Prod.mk.injEq]
    rintro ⟨obj, hobj, rfl, rfl⟩
    exact .keep rfl rfl (by simp_all [Process.counted]) (.inl rfl) nofun
  all_goals rintro ⟨rfl, rfl⟩
  case case3 hpc hfree =>
    exact .opens m.next (.inl hfree) rfl rfl (by simp [Process.counted, hpc]) (.inl rfl)
  case case8 obj ok hpc hok =>
    exact .fail obj hpc (by rw [Bool.eq_false_iff.mpr hok]) rfl rfl rfl
  case case9 ok hpc => exact effect_unlink ok hp (.inl hpc) (.inl rfl)
  case case10 obj ok hpc => exact .construct obj hpc rfl (count_modify ..) rfl
  case case12 ok hpc obj hobj =>
    cases ok with
    | true => exact .opens obj (.inr hobj) hobj rfl (by simp [Process.counted, hpc]) (.inr rfl)
    | false => exact .keep rfl rfl (by simp_all [Process.counted, Process.goto]) (.inl rfl) nofun
  case case17 obj ceilingMsgSize ok hpc =>
    exact .attach obj ceilingMsgSize hpc rfl (count_modify ..) rfl
  case case20 obj ok hpc =>
    have hcounted : p.counted = some obj := by simp [Process.counted, hpc]
    exact effect_decrease hcounted (hpos obj hcounted)
  case case21 obj ok hpc =>
    exact .detach obj (by simp [Process.counted, hpc]) rfl (count_modify ..) rfl
  case case22 obj current ok hpc hne =>
    have hcounted : p.counted = some obj := by simp [Process.counted, hpc]
    exact effect_decrease hcounted (hpos obj hcounted)
  case case23 obj ok hpc =>
    refine .keep rfl rfl ?_ ?_ ?_ <;> split <;>
      simp_all [Process.counted, Process.goto, Pc.opened, removes, Store.count]
  case case24 ok hpc => exact effect_unlink ok hp (.inr hpc) (.inr rfl)
  all_goals
    refine .keep rfl rfl ?_ ?_ ?_ <;> (try split) <;>
      simp_all [Process.counted, Process.goto, Pc.opened, removes]

/-! ### Runs -/

variable {T : Type*}

/-- Every handle that is initialised is attached to the object that the name stands for. -/
def Attached (s : State T) : Prop :=
  ∀ t, (s.pc t).handle.init = true →
    ∃ obj, (s.pc t).handle.obj = some obj ∧ s.mem.named = some obj

/-- The step is not part of a race between a process that arrives and one that leaves or gives up:
* no process is between opening the name and counting itself when the name is unlinked;
* no process counts itself while another is about to unlink the name;
* no process is counted in an object whose `State` is only then constructed, or whose creator fails
  to map it. -/
def Timely (s : State T) (e : T × Act) : Prop :=
  match (s.pc e.1).pc, e.2 with
  | .unlinkFailed, .step true | .remove, .step true => ∀ u, (s.pc u).pc.opened = none
  | .increase _ _, _ => ∀ u, removes s.mem (s.pc u) = false
  | .construct obj, _ | .mapNew obj, .step false => ∀ u, (s.pc u).counted ≠ some obj
  | _, _ => True

instance [Fintype T] (s : State T) (e : T × Act) : Decidable (Timely s e) := by
  unfold Timely
  split <;> infer_instance

/-- The counts are exact, and what the processes have opened or are counted in is the object under
the name; nobody is counted anywhere while a process is about to remove the name. -/
structure Inv (s : State T) : Prop where
  atRest : ∀ t, (s.pc t).AtRest
  count : ∀ obj, InPhase (fun p => p.counted = some obj) s.pc (s.mem.count obj)
  opened : ∀ t obj, (s.pc t).pc.opened = some obj → s.mem.named = some obj
  counted : ∀ t obj, (s.pc t).counted = some obj → s.mem.named = some obj
  uncounted : ∀ t, removes s.mem (s.pc t) = true → ∀ u, (s.pc u).counted = none

theorem inv_init : Inv (init T) where
  atRest _ h := by cases h
  count _ := inPhase_zero_iff.mpr fun _ h => by cases h
  opened _ _ h := by cases h
  counted _ _ h := by cases h
  uncounted _ h := by cases h

variable {s s' : State T}

theorem Inv.attached (h : Inv s) : Attached s := by
  intro t hinit
  obtain ⟨hpc, obj, hobj⟩ := h.atRest t hinit
  exact ⟨obj, hobj, h.counted t obj (by simp [Process.counted, hpc, hinit, hobj])⟩

theorem atRest_prog (hp : p.AtRest) (h : prog m p a = some (m', p')) : p'.AtRest := by
  have hinit := hp.init_eq_false
  revert h
  fun_cases prog m p a <;> simp only [some.injEq, Prod.mk.injEq, reduceCtorEq,
    IsEmpty.forall_iff]
  case case18 =>
    simp only [map_eq_some_iff, Prod.mk.injEq]
    rintro ⟨obj, -, -, rfl⟩ h
    cases h
  all_goals rintro ⟨rfl, rfl⟩
  case case1 | case11 => split <;> simp_all [Process.AtRest, Process.goto]
  case case17 obj _ _ _ => exact fun _ => ⟨rfl, obj, rfl⟩
  all_goals simp_all [Process.AtRest, Process.goto]

theorem removes_congr (h : m'.count = m.count) (p : Process) : removes m' p = removes m p := by
  simp only [removes, h]

theorem removes_of_update {obj k : ℕ} (hcount : m'.count = update m.count obj k)
    (hk : k ≠ 0) (h : removes m' p = true) : removes m p = true := by
  revert h
  unfold removes
  split
  · exact id
  · exact id
  · rename_i obj' _
    by_cases hobj : obj' = obj
    · subst hobj
      simp [hcount, hk]
    · simp [hcount, hobj]
  · exact id

/-- Where everybody who is counted is counted in one object, nobody is counted if nobody is counted
there. -/
theorem Inv.counted_eq_none (hs : Inv s) {obj : ℕ} (hnamed : s.mem.named = some obj) {u : T}
    (hobj : (s.pc u).counted ≠ some obj) : (s.pc u).counted = none := by
  by_contra hne
  obtain ⟨obj', hobj'⟩ := ne_none_iff_exists'.mp hne
  have heq : some obj' = some obj := (hs.counted u obj' hobj').symm.trans hnamed
  exact hobj (hobj'.trans heq)

variable [DecidableEq T] {t : T}

/-- What is left to show for a step after which the name stands for the object it stood for, or for
an object if it stood for none. -/
theorem Inv.move (hs : Inv s) (hrest : p'.AtRest)
    (hcount : ∀ obj, InPhase (fun p => p.counted = some obj) (update s.pc t p')
      (m'.count obj))
    (hnamed : ∀ obj, s.mem.named = some obj → m'.named = some obj)
    (hopened : ∀ obj, p'.pc.opened = some obj → m'.named = some obj)
    (hcounted : ∀ obj, p'.counted = some obj → m'.named = some obj)
    (huncounted : ∀ u, removes m' (update s.pc t p' u) = true →
      p'.counted = none ∧ ∀ w, w ≠ t → (s.pc w).counted = none) :
    Inv ⟨m', update s.pc t p'⟩ where
  atRest := (forall_update_iff s.pc fun _ p => p.AtRest).mpr
    ⟨hrest, fun u _ => hs.atRest u⟩
  count := hcount
  opened := (forall_update_iff s.pc
    fun _ p => ∀ obj, p.pc.opened = some obj → m'.named = some obj).mpr
      ⟨hopened, fun u _ obj hu => hnamed obj (hs.opened u obj hu)⟩
  counted := (forall_update_iff s.pc
    fun _ p => ∀ obj, p.counted = some obj → m'.named = some obj).mpr
      ⟨hcounted, fun u _ obj hu => hnamed obj (hs.counted u obj hu)⟩
  uncounted u hu := (forall_update_iff s.pc fun _ p => p.counted = none).mpr
    (huncounted u hu)

/-- What is left to show for a step while nobody is counted: the name may be removed if no process
has opened it. -/
theorem Inv.move_of_uncounted (hs : Inv s) (hrest : p'.AtRest)
    (hnone : ∀ u, (s.pc u).counted = none) (hcounted : p'.counted = none)
    (hcount : m'.count = s.mem.count)
    (hopened : ∀ obj, p'.pc.opened = some obj → m'.named = some obj)
    (hothers : ∀ u obj, (s.pc u).pc.opened = some obj → m'.named = some obj) :
    Inv ⟨m', update s.pc t p'⟩ := by
  have hnone' : ∀ u, (update s.pc t p' u).counted = none :=
    (forall_update_iff s.pc fun _ p => p.counted = none).mpr
      ⟨hcounted, fun u _ => hnone u⟩
  refine ⟨(forall_update_iff s.pc fun _ p => p.AtRest).mpr
    ⟨hrest, fun u _ => hs.atRest u⟩, fun obj => ?_, (forall_update_iff s.pc
      fun _ p => ∀ obj, p.pc.opened = some obj → m'.named = some obj).mpr
        ⟨hopened, fun u _ => hothers u⟩, fun u obj hu => ?_, fun _ _ => hnone'⟩
  · rw [hcount]
    exact (hs.count obj).stay (by rw [hnone t, hcounted])
  · rw [hnone' u] at hu
    cases hu

/-- A process that enters or leaves the count of one object leaves the other counts alone. -/
theorem Inv.count_update (hs : Inv s) {obj k : ℕ}
    (hp : (s.pc t).counted = none ∨ (s.pc t).counted = some obj)
    (hp' : p'.counted = none ∨ p'.counted = some obj)
    (hk : InPhase (fun p => p.counted = some obj) (update s.pc t p') k) (obj' : ℕ) :
    InPhase (fun p => p.counted = some obj') (update s.pc t p')
      (update s.mem.count obj k obj') := by
  by_cases heq : obj' = obj
  · subst heq
    rwa [update_self]
  · rw [update_of_ne heq]
    refine (hs.count obj').stay (iff_of_false ?_ ?_)
    · rcases hp' with h | h <;> simp [h, Ne.symm heq]
    · rcases hp with h | h <;> simp [h, Ne.symm heq]

/-- If the step neither brings the process to removing the name nor brings a count to zero, then
whoever is about to remove the name was so before. -/
theorem Inv.uncounted_of_update (hs : Inv s)
    (hself : removes m' p' = true → removes s.mem (s.pc t) = true)
    (hothers : ∀ p, removes m' p = true → removes s.mem p = true) {u : T}
    (hu : removes m' (update s.pc t p' u) = true) (w : T) : (s.pc w).counted = none := by
  by_cases hut : u = t
  · subst hut
    rw [update_self] at hu
    exact hs.uncounted u (hself hu) w
  · rw [update_of_ne hut] at hu
    exact hs.uncounted u (hothers _ hu) w

theorem Inv.attach (hT : ENat.card T ≤ (2 ^ 32 - 1 : ℕ)) (hs : Inv s) {obj ceilingMsgSize : ℕ}
    (hC : ∀ u, removes s.mem (s.pc u) = false) (hpc : (s.pc t).pc = .increase obj ceilingMsgSize)
    (hnamed : m'.named = s.mem.named)
    (hcount : m'.count = update s.mem.count obj (uint32 (s.mem.count obj + 1)))
    (hp' : p' = ⟨(s.pc t).handle.attach obj ceilingMsgSize, .idle⟩) :
    Inv ⟨m', update s.pc t p'⟩ := by
  have hobj : s.mem.named = some obj := hs.opened t obj (by rw [hpc]; rfl)
  have hcounted : (s.pc t).counted = none := by simp [Process.counted, hpc]
  have hcounted' : p'.counted = some obj := by rw [hp']; rfl
  have henter : InPhase (fun p => p.counted = some obj) (update s.pc t p')
      (s.mem.count obj + 1) := (hs.count obj).enter (by simp [hcounted]) hcounted'
  have hlt : s.mem.count obj + 1 < 2 ^ 32 := by
    have := henter.le_card hT
    omega
  rw [uint32_eq_self hlt] at hcount
  refine hs.move (fun _ => by simp [hp', Segment.Handle.attach]) (fun obj' => ?_)
    (fun obj' h => hnamed ▸ h) (fun obj' h => by simp [hp', Pc.opened] at h)
    (fun obj' h => by rw [hnamed, hobj, ← hcounted', h]) fun u hu => ?_
  · rw [hcount]
    exact hs.count_update (.inl hcounted) (.inr hcounted') henter obj'
  · -- the count is positive now, so whoever is about to remove the name was so before
    by_cases hut : u = t
    · subst hut
      simp [hp', removes] at hu
    · rw [update_of_ne hut] at hu
      have hu' := removes_of_update hcount (Nat.succ_ne_zero _) hu
      rw [hC u] at hu'
      cases hu'

theorem Inv.detach (hs : Inv s) (hrest : p'.AtRest) {obj : ℕ}
    (hcounted : (s.pc t).counted = some obj) (hnamed : m'.named = s.mem.named)
    (hcount : m'.count = update s.mem.count obj (s.mem.count obj - 1))
    (hpc' : p'.pc = .readCount obj) : Inv ⟨m', update s.pc t p'⟩ := by
  have hcounted' : p'.counted = none := by simp [Process.counted, hpc']
  obtain ⟨k, hk⟩ : ∃ k, s.mem.count obj = k + 1 :=
    Nat.exists_eq_succ_of_ne_zero ((hs.count obj).pos hcounted).ne'
  rw [hk, Nat.add_sub_cancel] at hcount
  have hleave : InPhase (fun p => p.counted = some obj) (update s.pc t p') k :=
    (hk ▸ hs.count obj).leave hcounted (by simp [hcounted'])
  refine hs.move hrest (fun obj' => ?_) (fun obj' h => hnamed ▸ h)
    (fun obj' h => by simp [hpc', Pc.opened] at h) (fun obj' h => by simp [hcounted'] at h)
    fun u hu => ⟨hcounted', fun w hw => ?_⟩
  · rw [hcount]
    exact hs.count_update (.inr hcounted) (.inl hcounted') hleave obj'
  · rcases eq_zero_or_pos k with rfl | hpos
    · -- the last one has left: the others could only be counted in the same object
      refine hs.counted_eq_none (hs.counted t obj hcounted) ?_
      have hw' := inPhase_zero_iff.mp hleave w
      rwa [update_of_ne hw] at hw'
    · refine hs.uncounted_of_update (fun h => ?_)
        (fun p h => removes_of_update hcount hpos.ne' h) hu w
      simp [removes, hpc', hcount, hpos.ne'] at h

/-- A timely step counts right and leaves nobody at an object without the name. -/
theorem Inv.step (hT : ENat.card T ≤ (2 ^ 32 - 1 : ℕ)) (hs : Inv s) {e : T × Act}
    (hC : Timely s e) (hstep : step s e = some s') : Inv s' := by
  obtain ⟨t, a⟩ := e
  obtain ⟨m', p', hp, rfl⟩ := Threads.step_eq_some.mp hstep
  have hrest : p'.AtRest := atRest_prog (hs.atRest t) hp
  -- a process that is counted as before leaves the counts as they are
  have hstay (hcounted : p'.counted = (s.pc t).counted) (obj : ℕ) :
      InPhase (fun p => p.counted = some obj) (update s.pc t p') (s.mem.count obj) :=
    (hs.count obj).stay (by rw [hcounted])
  -- the creator of an object in which nobody is counted: nobody is counted at all
  have hcreator {obj : ℕ} (hopened : (s.pc t).pc.opened = some obj)
      (hobj : ∀ u, (s.pc u).counted ≠ some obj) (u : T) : (s.pc u).counted = none :=
    hs.counted_eq_none (hs.opened t obj hopened) (hobj u)
  cases effect_prog (hs.atRest t) (fun obj hobj => (hs.count obj).pos hobj) hp with
  | keep hnamed hcount hcounted hopened hremoves =>
    refine hs.move hrest (fun obj => hcount ▸ hstay hcounted obj) (fun obj h => hnamed ▸ h)
      (fun obj h => ?_) (fun obj h => hnamed ▸ hs.counted t obj (hcounted ▸ h)) fun u hu => ?_
    · rcases hopened with hnone | heq
      · simp [hnone] at h
      · exact hnamed ▸ hs.opened t obj (heq ▸ h)
    · have hnone := hs.uncounted_of_update (fun h => hremoves (removes_congr hcount p' ▸ h))
        (fun p h => removes_congr hcount p ▸ h) hu
      exact ⟨hcounted.trans (hnone t), fun w _ => hnone w⟩
  | opens obj hfrom hnamed hcount hcounted hpc =>
    have hplace : p'.counted = none ∧ p'.pc.opened = some obj ∧ removes m' p' = false := by
      rcases hpc with h | h <;> simp [Process.counted, Pc.opened, removes, h]
    obtain ⟨hcounted', hopened', hremoves'⟩ := hplace
    refine hs.move hrest (fun obj => hcount ▸ hstay (hcounted'.trans hcounted.symm) obj)
      (fun obj' h => ?_) (fun obj' h => by rw [hnamed, ← hopened', h])
      (fun obj' h => by simp [hcounted'] at h) fun u hu => ?_
    · rcases hfrom with hnone | hsome
      · simp [hnone] at h
      · rw [hnamed, ← hsome, h]
    · have hnone := hs.uncounted_of_update (by simp [hremoves'])
        (fun p h => removes_congr hcount p ▸ h) hu
      exact ⟨hcounted', fun w _ => hnone w⟩
  | construct obj hpc hnamed hcount hpc' =>
    have hopened : (s.pc t).pc.opened = some obj := by rw [hpc]; rfl
    have hnone := hcreator hopened (by simpa only [Timely, hpc] using hC)
    -- the count is zero already
    have hzero : s.mem.count obj = 0 :=
      (hs.count obj).unique (inPhase_zero_iff.mpr fun u => by simp [hnone u])
    rw [← hzero, update_eq_self] at hcount
    refine hs.move_of_uncounted hrest hnone (by simp [Process.counted, hpc']) hcount
      (fun obj' h => ?_) fun u obj' h => hnamed ▸ hs.opened u obj' h
    obtain rfl : obj = obj' := by simpa only [hpc', Pc.opened, some.injEq] using h
    exact hnamed ▸ hs.opened t obj hopened
  | attach obj ceilingMsgSize hpc hnamed hcount hp' =>
    exact hs.attach hT (by simpa only [Timely, hpc] using hC) hpc hnamed hcount hp'
  | detach obj hcounted hnamed hcount hpc' => exact hs.detach hrest hcounted hnamed hcount hpc'
  | fail obj hpc ha hnamed hcount hpc' =>
    have hnone := @hcreator obj (by rw [hpc]; rfl)
      (by simpa only [Timely, hpc, ha] using hC)
    exact hs.move_of_uncounted hrest hnone (by simp [Process.counted, hpc']) hcount
      (fun obj' h => by simp [hpc', Pc.opened] at h) fun u obj' h => hnamed ▸ hs.opened u obj' h
  | unlink hpc ha hnamed hcount hcounted hopened =>
    have hC' : ∀ u, (s.pc u).pc.opened = none := by
      rcases hpc with hpc | hpc <;> simpa only [Timely, hpc, ha] using hC
    have hnone : ∀ u, (s.pc u).counted = none :=
      hs.uncounted t (by rcases hpc with hpc | hpc <;> simp [removes, hpc])
    exact hs.move_of_uncounted hrest hnone hcounted hcount
      (fun obj' h => by simp [hopened] at h) fun u obj' h => by simp [hC' u] at h

/-- **The handles and the name.** Let fewer than `2 ^ 32` processes take part, and let no step of a
run be part of a race between a process that arrives and one that leaves. Then the reference count
of every object is the number of the processes that are counted in it, and every handle that is
initialised is attached to the object that the name stands for. -/
theorem attached_of_timely (hT : ENat.card T ≤ (2 ^ 32 - 1 : ℕ)) (es : List (T × Act))
    (s : State T) (hC : AllSteps step Timely (init T) es) (h : exec step (init T) es = some s) :
    (∀ obj, InPhase (fun p => p.counted = some obj) s.pc (s.mem.count obj)) ∧ Attached s := by
  have hs : Inv s := exec_invariant_of_allSteps Inv
    (fun _ _ _ hs hC hstep => hs.step hT hC hstep) inv_init hC h
  exact ⟨hs.count, hs.attached⟩

/-- The process `t` calls a function and makes `n` steps of the call. -/
def call (t : T) (a : Act) (n : ℕ) : List (T × Act) := (t, a) :: List.replicate n (t, .step true)

/-- Process `1` counts itself before process `0` leaves; it is the last one and removes the name,
and the processes `2` and `3` meet in a new object. -/
theorem attached_of_successors :
    ∃ s : State (Fin 4), (s.pc 2).handle.init = true ∧ (s.pc 3).handle.init = true ∧
      s.mem.named = some 1 ∧
      InPhase (fun p => p.counted = some 1) s.pc 2 ∧ Attached s := by
  obtain ⟨s, hs, h₂, h₃, hnamed, hcount⟩ : ∃ s, exec step (init (Fin 4))
      (call 0 .openOrCreate 6 ++ call 1 .openOnly 5 ++ call 0 .destroy 3 ++ call 1 .destroy 4 ++
        call 2 .openOrCreate 6 ++ call 3 .openOnly 5) = some s ∧
      (s.pc 2).handle.init = true ∧ (s.pc 3).handle.init = true ∧ s.mem.named = some 1 ∧
      s.mem.count 1 = 2 := by decide +kernel
  have hT : ENat.card (Fin 4) ≤ (2 ^ 32 - 1 : ℕ) := by
    rw [ENat.card_eq_coe_fintype_card, Nat.cast_le]
    decide
  obtain ⟨hphase, hatt⟩ := attached_of_timely hT _ s (by decide +kernel) hs
  exact ⟨s, h₂, h₃, hnamed, hcount ▸ hphase 1, hatt⟩

/-- **An orphaned reader.** Process `1` maps the object of process `0` and counts itself after that
process has left and removed the name; process `2` then creates another object. -/
theorem orphaned :
    ∃ s, exec step (init (Fin 3))
        (call 0 .openOrCreate 6 ++ call 1 .openOnly 4 ++ call 0 .destroy 4 ++ [(1, .step true)] ++
          call 2 .openOrCreate 6) = some s ∧
      (s.pc 1).handle.init = true ∧ (s.pc 1).handle.obj = some 0 ∧
      (s.pc 2).handle.init = true ∧ (s.pc 2).handle.obj = some 1 ∧ s.mem.named = some 1 := by
  decide +kernel

end Cyber.SegmentAttach
