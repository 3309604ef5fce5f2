import Notebook.ShmTest.AllocMemory

/-!
# The handles of one topic

Any number of handles with one name are used in any order, by as many processes. Attaching and
detaching depend on little of the objects: what the name stands for, and the need-remap flag and the
reference count of each object.

The `Create` that replaces an object sets the flag in the object that it makes, so the reader of the
replaced object does not see it.

## Main definitions

* `View` — what the name stands for, and the flags and counts of the objects.
* `Evolves` — the view only grows, and a handle is attached to an object under its name.
* `Announced` — who still maps an object when its name is taken away finds its flag set.

## Main results

* `Call.run_sameHeaders` — locking and releasing a block keep the view.
* `run_evolves`, `Topic.WellFormed.step` — what every call does to the view and the handles.
* `follows_of_announced` — in announced runs the readers follow the writer.
-/

open Interleaving Function Option Threads

namespace ShmTest

/-! ### Calls -/

/-- The calls of a handle. With `crash` the process ends without `Destroy`. -/
inductive Call
  | create (os : List Os)
  | openOnly (os : Os)
  | acquireBlockToWrite (spurious : List (Bool × Bool)) (msgSize : ℕ)
  | releaseWrittenBlock (index : ℕ)
  | acquireBlockToRead (env : ReadEnv) (index : ℕ)
  | releaseReadBlock (index : ℕ)
  | destroy (os : Os)
  | crash
deriving DecidableEq, Repr

/-- What a call makes of the objects and of the handle, if it returns. -/
def Call.run (m : Store) (h : Handle) : Call → Option (Store × Handle)
  | create os => (ShmTest.create os m h).map Prod.snd
  | openOnly os => some (ShmTest.openOnly os m h).2
  | acquireBlockToWrite spurious msgSize =>
    (ShmTest.acquireBlockToWrite spurious m h msgSize).map Prod.snd
  | releaseWrittenBlock index => (ShmTest.releaseWrittenBlock m h index).map fun r => (r.2, h)
  | acquireBlockToRead env index => (ShmTest.acquireBlockToRead env m h index).map Prod.snd
  | releaseReadBlock index => (ShmTest.releaseReadBlock m h index).map fun r => (r.2, h)
  | destroy os => (ShmTest.destroy os m h).map Prod.snd
  | crash => some (m, h.reset)

/-- No object exists, and the handles are new. The process of the handle `t` is `pid t`. -/
def Topic.init {T : Type*} (shmName : ℕ) (pid : T → ℕ) (conf : T → ShmConf) (dead : ℕ → Bool) :
    Threads Store T Handle :=
  ⟨⟨fun _ => none, 0, fun _ => none, dead⟩, fun t => .new (pid t) shmName (conf t)⟩

/-! ### What attaching and detaching see -/

/-- The need-remap flag and the reference count. -/
def Segment.info (seg : Segment) : Bool × ℕ := (seg.needRemap, seg.referenceCount)

/-- What a name stands for, the number of objects created so far, and the flag and the reference
count of each object. -/
structure View where
  named : Option ℕ
  next : ℕ
  info : ℕ → Option (Bool × ℕ)

/-- The view of a store under a name. -/
def Store.view (m : Store) (shmName : ℕ) : View :=
  ⟨m.named shmName, m.next, fun obj => (m.shm obj).map Segment.info⟩

/-- The object that an initialised handle maps. -/
def Handle.attached (h : Handle) : Option ℕ := if h.init then h.obj else none

theorem Handle.attached_eq_some {h : Handle} {obj : ℕ} :
    h.attached = some obj ↔ h.init = true ∧ h.obj = some obj := by
  rw [attached, ite_none_right_eq_some]

theorem Handle.attached_of_not_init {h : Handle} (hinit : h.init = false) : h.attached = none := by
  rw [attached, hinit]
  rfl

namespace View

/-- The flag and the count of an object are written. -/
def put (v : View) (obj : ℕ) (i : Bool × ℕ) : View :=
  { v with info := update v.info obj (some i) }

/-- A new object takes the name. -/
def create (v : View) (i : Option (Bool × ℕ)) : View :=
  ⟨some v.next, v.next + 1, update v.info v.next i⟩

/-- The name is removed. -/
def unlink (v : View) : View := { v with named := none }

/-- Only objects that have been created have contents or a name. -/
structure Fresh (v : View) : Prop where
  info_lt : ∀ obj i, v.info obj = some i → obj < v.next
  named_lt : ∀ obj, v.named = some obj → obj < v.next

/-- Objects have been added, counts may have changed, flags may have been set. -/
structure Extends (v v' : View) : Prop where
  next_le : v.next ≤ v'.next
  info : ∀ obj < v.next, ∀ f k, v.info obj = some (f, k) →
    ∃ f' k', v'.info obj = some (f', k') ∧ (f = true → f' = true)
  fresh : v.Fresh → v'.Fresh

variable {v v' v'' : View} {obj : ℕ} {f f' : Bool} {k k' : ℕ}

theorem Extends.refl (v : View) : v.Extends v :=
  ⟨le_rfl, fun _ _ f k h => ⟨f, k, h, id⟩, id⟩

theorem Extends.trans (h : v.Extends v') (h' : v'.Extends v'') : v.Extends v'' := by
  refine ⟨h.next_le.trans h'.next_le, fun obj hobj f k hinfo => ?_, fun hf => h'.fresh (h.fresh hf)⟩
  obtain ⟨f₁, k₁, hinfo₁, hf₁⟩ := h.info obj hobj f k hinfo
  obtain ⟨f₂, k₂, hinfo₂, hf₂⟩ := h'.info obj (hobj.trans_le h.next_le) f₁ k₁ hinfo₁
  exact ⟨f₂, k₂, hinfo₂, fun hf => hf₂ (hf₁ hf)⟩

theorem Extends.put (hinfo : v.info obj = some (f, k)) (hf : f = true → f' = true) :
    v.Extends (v.put obj (f', k')) := by
  refine ⟨le_rfl, fun o _ g j ho => ?_, fun hfresh => ⟨fun o i ho => ?_, hfresh.named_lt⟩⟩
  · by_cases heq : o = obj
    · subst heq
      obtain ⟨rfl, rfl⟩ := Prod.mk.inj (some.inj (hinfo.symm.trans ho))
      exact ⟨f', k', update_self .., hf⟩
    · exact ⟨g, j, (update_of_ne heq ..).trans ho, id⟩
  · by_cases heq : o = obj
    · exact heq ▸ hfresh.info_lt obj _ hinfo
    · exact hfresh.info_lt o i ((update_of_ne heq ..).symm.trans ho)

theorem Extends.unlink (v : View) : v.Extends v.unlink :=
  ⟨le_rfl, fun _ _ f k h => ⟨f, k, h, id⟩, fun hfresh => ⟨hfresh.info_lt, fun _ h => by cases h⟩⟩

theorem Extends.create (v : View) (i : Option (Bool × ℕ)) : v.Extends (v.create i) := by
  refine ⟨Nat.le_succ _, fun o ho g j hinfo => ?_, fun hfresh => ⟨fun o j hinfo => ?_, ?_⟩⟩
  · exact ⟨g, j, (update_of_ne ho.ne ..).trans hinfo, id⟩
  · by_cases heq : o = v.next
    · exact heq ▸ Nat.lt_succ_self _
    · exact (hfresh.info_lt o j ((update_of_ne heq ..).symm.trans hinfo)).trans
        (Nat.lt_succ_self _)
  · rintro o ⟨⟩
    exact Nat.lt_succ_self _

end View

namespace Store

variable {m : Store} {obj : ℕ} {seg seg' : Segment}

theorem view_set (m : Store) (shmName obj : ℕ) (seg : Segment) :
    (m.set obj seg).view shmName = (m.view shmName).put obj seg.info := by
  simp only [view, set, View.put, View.mk.injEq, true_and]
  funext o
  by_cases ho : o = obj
  · subst ho
    simp
  · simp [ho]

theorem view_unlink (m : Store) (shmName : ℕ) :
    (m.unlink shmName).view shmName = (m.view shmName).unlink := by
  simp [view, unlink, View.unlink]

theorem view_shmCreate (m : Store) (shmName : ℕ) :
    (m.shmCreate shmName).view shmName = (m.view shmName).create none := by
  simp only [view, shmCreate, View.create, update_self, View.mk.injEq, true_and]
  funext o
  by_cases ho : o = m.next
  · subst ho
    simp
  · simp [ho]

end Store

/-! ### Calls that do not attach or detach -/

/-- What locking a block does not change in an object: its `State`, apart from the counter of
`FetchAddSeq`, and the number of its blocks. -/
def Segment.header (seg : Segment) : Bool × ℕ × ℕ × ℕ × ℕ :=
  (seg.needRemap, seg.referenceCount, seg.ceilingMsgSize, seg.blockNum, seg.blocks.length)

/-- The two stores have the same names, the same objects with the same headers, and the same
processes are dead. -/
structure SameHeaders (m m' : Store) : Prop where
  named : m'.named = m.named
  next : m'.next = m.next
  dead : m'.dead = m.dead
  header : ∀ obj, (m'.shm obj).map Segment.header = (m.shm obj).map Segment.header

variable {index : ℕ} {env : ReadEnv} {ok : Bool}

section Locking

variable {m m' m'' : Store} {h h' : Handle} {out : Acquired}

theorem SameHeaders.refl (m : Store) : SameHeaders m m := ⟨rfl, rfl, rfl, fun _ => rfl⟩

theorem SameHeaders.trans (h : SameHeaders m m') (h' : SameHeaders m' m'') : SameHeaders m m'' :=
  ⟨h'.named.trans h.named, h'.next.trans h.next, h'.dead.trans h.dead,
    fun obj => (h'.header obj).trans (h.header obj)⟩

theorem sameHeaders_set {obj : ℕ} {seg seg' : Segment} (hseg : m.shm obj = some seg)
    (hheader : seg'.header = seg.header) : SameHeaders m (m.set obj seg') := by
  refine ⟨rfl, rfl, rfl, fun o => ?_⟩
  by_cases ho : o = obj
  · subst ho
    simp [Store.set, hseg, hheader]
  · simp [Store.set, ho]

theorem sameHeaders_setBlock {obj : ℕ} {seg : Segment} (hseg : m.shm obj = some seg)
    (seq index : ℕ) (b : Block) :
    SameHeaders m (m.setBlock obj { seg with seq } index b) :=
  sameHeaders_set hseg (by simp [Segment.header])

theorem SameHeaders.view (h : SameHeaders m m') (shmName : ℕ) :
    m'.view shmName = m.view shmName := by
  have hinfo (obj : ℕ) : (m'.shm obj).map Segment.info = (m.shm obj).map Segment.info := by
    have hheader :=
      congrArg (Option.map fun x : Bool × ℕ × ℕ × ℕ × ℕ => (x.1, x.2.1)) (h.header obj)
    rwa [map_map, map_map] at hheader
  simp only [Store.view, h.named, h.next, hinfo]

theorem recordPid_sameHeaders {obj index : ℕ} {seg : Segment} (hseg : m.shm obj = some seg)
    (b : Block) : SameHeaders m (recordPid m h obj index seg b).2 := by
  rw [recordPid]
  split
  · exact sameHeaders_setBlock hseg seg.seq ..
  · exact .refl m

theorem lockToRead_sameHeaders (hcall : lockToRead env m h index = some (out, m', h')) :
    SameHeaders m m' ∧ h' = h := by
  rw [lockToRead] at hcall
  split at hcall
  · cases hcall
  split at hcall
  · cases hcall
  rename_i obj _ _ seg hseg
  have hset : ∀ b : Block,
      SameHeaders m (m.set obj { seg with blocks := seg.blocks.set index b }) :=
    fun b => sameHeaders_set hseg (by simp [Segment.header])
  split at hcall
  · cases hcall
    exact ⟨.refl m, rfl⟩
  simp only at hcall
  split at hcall
  · cases hcall
    exact ⟨(hset _).trans (recordPid_sameHeaders (Store.set_shm ..) _), rfl⟩
  · cases hcall
    exact ⟨hset _, rfl⟩

theorem getNextWritableBlockIndex_sameHeaders {self blockNum obj index : ℕ}
    {spurious : List (Bool × Bool)}
    (hcall : getNextWritableBlockIndex self blockNum obj spurious m = some (index, m')) :
    SameHeaders m m' := by
  induction spurious generalizing m with
  | nil => cases hcall
  | cons spurious rest ih =>
    rw [getNextWritableBlockIndex] at hcall
    split at hcall
    · cases hcall
    split at hcall
    · cases hcall
    rename_i seg hseg
    simp only at hcall
    split at hcall
    · cases hcall
    split at hcall
    · cases hcall
      exact sameHeaders_setBlock hseg ..
    · exact (sameHeaders_setBlock hseg ..).trans (ih hcall)

theorem acquireBlockToWrite_sameHeaders {spurious : List (Bool × Bool)} {msgSize : ℕ}
    (hcall : acquireBlockToWrite spurious m h msgSize = some (out, m', h')) :
    SameHeaders m m' ∧ h' = h := by
  rw [acquireBlockToWrite] at hcall
  split at hcall
  · cases hcall
    exact ⟨.refl m, rfl⟩
  split at hcall
  · cases hcall
    exact ⟨.refl m, rfl⟩
  split at hcall
  · cases hcall
  split at hcall
  · cases hcall
  rename_i hnext
  split at hcall
  · cases hcall
  rename_i hseg
  split at hcall
  · cases hcall
  · cases hcall
    exact ⟨(getNextWritableBlockIndex_sameHeaders hnext).trans (recordPid_sameHeaders hseg _), rfl⟩

theorem releaseBlock_sameHeaders {release : Mem → Mem}
    (hcall : releaseBlock release m h index = some (ok, m')) : SameHeaders m m' := by
  rw [releaseBlock] at hcall
  split at hcall
  · cases hcall
    exact .refl m
  split at hcall
  · cases hcall
  split at hcall
  · cases hcall
  rename_i seg hseg
  split at hcall
  · cases hcall
    exact .refl m
  · cases hcall
    exact sameHeaders_setBlock hseg seg.seq ..

/-- The calls that lock or release a block, and do nothing else. -/
def Call.Locks : Call → Prop
  | acquireBlockToWrite .. | releaseWrittenBlock _ | releaseReadBlock _ => True
  | _ => False

theorem Call.run_sameHeaders {c : Call} (hcall : c.run m h = some (m', h')) (hc : c.Locks) :
    SameHeaders m m' ∧ h' = h := by
  cases c with
  | acquireBlockToWrite =>
    obtain ⟨⟨out, _, _⟩, hcall, ⟨⟩⟩ := map_eq_some_iff.mp hcall
    exact acquireBlockToWrite_sameHeaders hcall
  | releaseWrittenBlock | releaseReadBlock =>
    obtain ⟨⟨ok, m₁⟩, hcall₁, hres⟩ := map_eq_some_iff.mp hcall
    cases hres
    exact ⟨releaseBlock_sameHeaders hcall₁, rfl⟩
  | _ => exact hc.elim

end Locking

/-! ### Calls that attach or detach -/

/-- The handle `h'` has been attached to the object that the name stands for. -/
structure Attaches (v v' : View) (h' : Handle) (obj : ℕ) (f : Bool) (k : ℕ) : Prop where
  named : v.named = some obj
  info : v.info obj = some (f, k)
  view : v' = v.put obj (f, uint32 (k + 1))
  init : h'.init = true
  obj : h'.obj = some obj

/-- `AcquireBlockToRead` finds the need-remap flag set. -/
def FindsNeedRemap (m : Store) (h : Handle) (index : ℕ) : Prop :=
  index < h.conf.blockNum ∧ ∃ seg, m.segment h = some seg ∧ seg.needRemap = true

variable (os : Os)

section Attaching

variable {m m' : Store} {h h' : Handle}

theorem openOnly_shmName (m : Store) (h : Handle) : (openOnly os m h).2.2.shmName = h.shmName := by
  rcases openOnly_cases os m h with ⟨-, heq⟩ | ⟨-, heq⟩ | ⟨-, obj, seg, -, -, heq⟩
  · rw [heq]
  · rw [heq]
  · rw [heq]
    rfl

theorem openOnly_view (m : Store) (h : Handle) : h.init = true ∧ openOnly os m h = (true, m, h) ∨
    h.init = false ∧ openOnly os m h = (false, m, h) ∨
    h.init = false ∧ (openOnly os m h).1 = true ∧ ∃ obj f k,
      Attaches (m.view h.shmName) ((openOnly os m h).2.1.view h.shmName) (openOnly os m h).2.2
        obj f k := by
  rcases openOnly_cases os m h with hkeep | hkeep | ⟨hinit, obj, seg, hnamed, hseg, heq⟩
  · exact .inl hkeep
  · exact .inr (.inl hkeep)
  · refine .inr (.inr ⟨hinit, by rw [heq], obj, seg.needRemap, seg.referenceCount, hnamed,
      ?_, ?_, ?_, ?_⟩)
    · simp [Store.view, hseg, Segment.info]
    all_goals rw [heq]
    · exact Store.view_set ..
    · rfl
    · rfl

/-- `AcquireBlockToRead` opens the object and, when it finds the flag set, maps again; what follows
does not change the view. -/
theorem acquireBlockToRead_cases {out : Acquired}
    {r : Bool × Store × Handle} (hr : openOnly env.openOnly m h = r)
    (hcall : acquireBlockToRead env m h index = some (out, m', h')) (shmName : ℕ) :
    ¬(r.1 = true ∧ FindsNeedRemap r.2.1 r.2.2 index) ∧ h' = r.2.2 ∧
        m'.view shmName = r.2.1.view shmName ∧
        (out.ok = true →
          r.1 = true ∧ ∃ seg, r.2.1.segment r.2.2 = some seg ∧ seg.needRemap = false) ∨
      (r.1 = true ∧ FindsNeedRemap r.2.1 r.2.2 index) ∧
        h' = (remap env.remap r.2.1 r.2.2).2.2 ∧
        m'.view shmName = (remap env.remap r.2.1 r.2.2).2.1.view shmName ∧
        (out.ok = true → (remap env.remap r.2.1 r.2.2).1 = true) := by
  rw [acquireBlockToRead, hr] at hcall
  simp only at hcall
  split at hcall
  · rename_i hfailed
    cases hcall
    refine .inl ⟨?_, rfl, rfl, fun hok => by cases hok⟩
    rintro ⟨hok, -⟩
    simp [hok] at hfailed
  rename_i hok
  have hok : r.1 = true := by simpa using hok
  split at hcall
  · rename_i hindex
    cases hcall
    exact .inl ⟨fun hfinds => absurd hfinds.2.1 hindex.not_gt, rfl, rfl, fun hok => by cases hok⟩
  rename_i hindex
  split at hcall
  · cases hcall
  rename_i seg hseg
  split at hcall
  · rename_i hflag
    have hfinds : FindsNeedRemap r.2.1 r.2.2 index := ⟨not_le.mp hindex, seg, hseg, hflag⟩
    refine .inr ⟨⟨hok, hfinds⟩, ?_⟩
    split at hcall
    · cases hcall
      exact ⟨rfl, rfl, fun hok => by cases hok⟩
    · rename_i hremap
      obtain ⟨hsame, hhandle⟩ := lockToRead_sameHeaders hcall
      have hview := hsame.view shmName
      exact ⟨hhandle, hview, fun _ => by simpa using hremap⟩
  · rename_i hflag
    obtain ⟨hsame, hhandle⟩ := lockToRead_sameHeaders hcall
    have hview := hsame.view shmName
    refine .inl ⟨?_, hhandle, hview, fun _ => ⟨hok, seg, hseg, Bool.eq_false_iff.mpr hflag⟩⟩
    rintro ⟨-, -, seg', hseg', hflag'⟩
    obtain rfl : seg = seg' := some.inj (hseg.symm.trans hseg')
    exact hflag hflag'

theorem create_view {os : List Os} (hcall : create os m h = some (ok, m', h')) :
    h'.shmName = h.shmName ∧
      (h.init = true ∧ m' = m ∧ h' = h ∨
        h.init = false ∧ h'.init = false ∧ CreateFailed m h.shmName m' ∨
        h.init = false ∧ h'.init = true ∧ h'.obj = some m.next ∧ ∃ f,
          m'.view h.shmName = (m.view h.shmName).create (some (f, 1))) := by
  obtain ⟨hshmName, hres⟩ := create_cases hcall
  refine ⟨hshmName, ?_⟩
  rcases hres with ⟨hinit, -, hm, hh⟩ | ⟨hinit, -, hinit', hfailed⟩ | ⟨hinit, -, seg, hcreated⟩
  · exact .inl ⟨hinit, hm, hh⟩
  · exact .inr (.inl ⟨hinit, hinit', hfailed⟩)
  · refine .inr (.inr ⟨hinit, hcreated.init, hcreated.obj, seg.needRemap, ?_⟩)
    rw [hcreated.store, Store.view_set, Store.view_shmCreate]
    simp [View.put, View.create, Segment.info, hcreated.referenceCount, Store.view]

/-- The view after `Destroy` of a handle that maps the object `obj`. -/
structure Destroyed (v v' : View) (unlink : Bool) (h' : Handle) (obj : ℕ) (f : Bool) (k : ℕ) :
    Prop where
  info : v.info obj = some (f, k)
  init : h'.init = false
  view : v' = if k - 1 = 0 ∧ unlink = true then (v.put obj (f, k - 1)).unlink
    else v.put obj (f, k - 1)

theorem remove_view (m : Store) (h : Handle) : (remove os m h).2.view h.shmName =
    if os.unlink = true then (m.view h.shmName).unlink else m.view h.shmName := by
  rw [remove]
  cases hunlink : os.unlink with
  | false => rfl
  | true =>
    cases hnamed : m.named h.shmName with
    | some obj => exact Store.view_unlink m h.shmName
    -- `shm_unlink` fails without the name, and there is nothing to remove
    | none => simp [View.unlink, Store.view, hnamed]

theorem destroy_view {os : Os} (hcall : destroy os m h = some (ok, m', h')) :
    h'.shmName = h.shmName ∧
      (h.init = false ∧ m' = m ∧ h' = h ∨
        h.init = true ∧ ∃ obj f k, h.obj = some obj ∧
          Destroyed (m.view h.shmName) (m'.view h.shmName) os.unlink h' obj f k) := by
  rw [destroy] at hcall
  split at hcall
  · rename_i hinit
    split at hcall
    · cases hcall
    rename_i obj hobj
    split at hcall
    · cases hcall
    rename_i seg hseg
    have hinfo : (m.view h.shmName).info obj = some (seg.needRemap, seg.referenceCount) := by
      simp [Store.view, hseg, Segment.info]
    simp only at hcall
    split at hcall
    · rename_i hzero
      cases hcall
      refine ⟨rfl, .inr ⟨hinit, obj, seg.needRemap, seg.referenceCount, hobj, hinfo, rfl, ?_⟩⟩
      refine (remove_view os _ _).trans ?_
      have hdec : seg.referenceCount - 1 = 0 := hzero
      rw [Store.view_set, Segment.info, hzero]
      simp only [hdec, true_and]
      rfl
    · rename_i hzero
      cases hcall
      refine ⟨rfl, .inr ⟨hinit, obj, seg.needRemap, seg.referenceCount, hobj, hinfo, rfl, ?_⟩⟩
      rw [if_neg fun h => hzero h.1]
      exact Store.view_set ..
  · rename_i hinit
    cases hcall
    exact ⟨rfl, .inl ⟨Bool.eq_false_iff.mpr hinit, rfl, rfl⟩⟩

end Attaching

/-! ### What every call keeps -/

/-- An initialised handle maps an object with contents. -/
def View.Mapped (v : View) (h : Handle) : Prop :=
  h.init = true → ∃ obj f k, h.obj = some obj ∧ v.info obj = some (f, k)

theorem View.Mapped.info {v : View} {h : Handle} {obj : ℕ} (hmapped : v.Mapped h)
    (hobj : h.attached = some obj) : ∃ f k, v.info obj = some (f, k) := by
  obtain ⟨hinit, hobj⟩ := Handle.attached_eq_some.mp hobj
  obtain ⟨obj', f, k, hobj', hinfo⟩ := hmapped hinit
  obtain rfl : obj' = obj := some.inj (hobj'.symm.trans hobj)
  exact ⟨f, k, hinfo⟩

/-- No object goes away, no flag is cleared, and a handle that is attached in the end was attached
to the object all the time, with nothing changed, or is attached to the object with the name. -/
structure Evolves (v : View) (h : Handle) (v' : View) (h' : Handle) : Prop where
  shmName : h'.shmName = h.shmName
  view : v.Extends v'
  mapped : v.Fresh → v.Mapped h → v'.Mapped h'
  attached : ∀ obj, h'.attached = some obj →
    h.attached = some obj ∧ v' = v ∨ v'.named = some obj

namespace Evolves

variable {v v' v'' : View} {h h' h'' : Handle}

theorem refl (v : View) (h : Handle) : Evolves v h v h :=
  ⟨rfl, .refl v, fun _ => id, fun _ ho => .inl ⟨ho, rfl⟩⟩

theorem trans (h₁ : Evolves v h v' h') (h₂ : Evolves v' h' v'' h'') : Evolves v h v'' h'' := by
  refine ⟨h₂.shmName.trans h₁.shmName, h₁.view.trans h₂.view,
    fun hfresh hmapped => h₂.mapped (h₁.view.fresh hfresh) (h₁.mapped hfresh hmapped), ?_⟩
  intro obj hobj
  rcases h₂.attached obj hobj with ⟨hobj', rfl⟩ | hnamed
  · exact h₁.attached obj hobj'
  · exact .inr hnamed

theorem detach (hname : h'.shmName = h.shmName) (hview : v.Extends v') (hinit : h'.init = false) :
    Evolves v h v' h' := by
  refine ⟨hname, hview, fun _ _ hinit' => ?_, fun obj hobj => ?_⟩
  · simp [hinit] at hinit'
  · simp [Handle.attached_of_not_init hinit] at hobj

theorem attach {obj : ℕ} {f : Bool} {k : ℕ} (hname : h'.shmName = h.shmName)
    (hattach : Attaches v v' h' obj f k) : Evolves v h v' h' := by
  obtain ⟨hnamed, hinfo, rfl, hinit, hobj⟩ := hattach
  refine ⟨hname, .put hinfo id, fun _ _ _ => ⟨obj, f, _, hobj, update_self ..⟩, ?_⟩
  intro o ho
  rw [← (Handle.attached_eq_some.mp ho).2, hobj]
  exact .inr hnamed

end Evolves

theorem CreateFailed.extends {m m' : Store} {shmName : ℕ} (hfailed : CreateFailed m shmName m') :
    (m.view shmName).Extends (m'.view shmName) := by
  cases hfailed with
  | kept => exact .refl _
  | unlinked => exact Store.view_unlink m shmName ▸ .unlink _
  | empty => exact Store.view_shmCreate m shmName ▸ .create _ none
  | removed =>
    rw [Store.view_unlink, Store.view_shmCreate]
    exact (View.Extends.create _ none).trans (.unlink _)

theorem Destroyed.extends {v v' : View} {unlink : Bool} {h' : Handle} {obj : ℕ} {f : Bool} {k : ℕ}
    (hdestroyed : Destroyed v v' unlink h' obj f k) : v.Extends v' := by
  obtain ⟨hinfo, -, rfl⟩ := hdestroyed
  have hput : v.Extends (v.put obj (f, k - 1)) := .put hinfo id
  split
  · exact hput.trans (.unlink _)
  · exact hput

section Run

variable {m m' : Store} {h h' : Handle}

theorem openOnly_evolves (m : Store) (h : Handle) :
    Evolves (m.view h.shmName) h ((openOnly os m h).2.1.view h.shmName) (openOnly os m h).2.2 := by
  rcases openOnly_view os m h with ⟨-, heq⟩ | ⟨-, heq⟩ | ⟨-, -, obj, f, k, hattach⟩
  · rw [heq]
    exact .refl _ h
  · rw [heq]
    exact .refl _ h
  · exact .attach (openOnly_shmName os m h) hattach

theorem remap_evolves (m : Store) (h : Handle) :
    Evolves (m.view h.shmName) h ((remap os m h).2.1.view h.shmName) (remap os m h).2.2 := by
  have hreset : Evolves (m.view h.shmName) h (m.view h.shmName) h.reset :=
    .detach rfl (.refl _) rfl
  exact hreset.trans (openOnly_evolves os m h.reset)

theorem acquireBlockToRead_evolves {out : Acquired}
    (hcall : acquireBlockToRead env m h index = some (out, m', h')) :
    Evolves (m.view h.shmName) h (m'.view h.shmName) h' := by
  have hopen := openOnly_evolves env.openOnly m h
  rcases acquireBlockToRead_cases rfl hcall h.shmName with
    ⟨-, rfl, hview, -⟩ | ⟨-, rfl, hview, -⟩
  · exact hview ▸ hopen
  · have hremap := remap_evolves env.remap (openOnly env.openOnly m h).2.1
      (openOnly env.openOnly m h).2.2
    rw [openOnly_shmName] at hremap
    exact hview ▸ hopen.trans hremap

theorem run_evolves {c : Call} (hcall : c.run m h = some (m', h')) :
    Evolves (m.view h.shmName) h (m'.view h.shmName) h' := by
  cases c with
  | create os =>
    obtain ⟨⟨ok, _, _⟩, hcall, ⟨⟩⟩ := map_eq_some_iff.mp hcall
    obtain ⟨hshmName, ⟨-, rfl, rfl⟩ | ⟨-, hinit, hfailed⟩ | ⟨-, hinit, hobj, f, hview⟩⟩ :=
      create_view hcall
    · exact .refl _ _
    · exact .detach hshmName hfailed.extends hinit
    · rw [hview]
      refine ⟨hshmName, .create _ _, fun _ _ _ => ⟨_, f, 1, hobj, update_self ..⟩, ?_⟩
      intro obj ho
      exact .inr (hobj.symm.trans (Handle.attached_eq_some.mp ho).2)
  | openOnly os =>
    have heq : (ShmTest.openOnly os m h).2 = (m', h') := some.inj hcall
    have hopen := openOnly_evolves os m h
    rwa [heq] at hopen
  | acquireBlockToWrite | releaseWrittenBlock | releaseReadBlock =>
    obtain ⟨hsame, rfl⟩ := Call.run_sameHeaders hcall trivial
    have hview := hsame.view h'.shmName
    exact hview ▸ .refl _ _
  | acquireBlockToRead env index =>
    obtain ⟨⟨out, _, _⟩, hcall, ⟨⟩⟩ := map_eq_some_iff.mp hcall
    exact acquireBlockToRead_evolves hcall
  | destroy os =>
    obtain ⟨⟨ok, _, _⟩, hcall, ⟨⟩⟩ := map_eq_some_iff.mp hcall
    obtain ⟨hshmName, ⟨-, rfl, rfl⟩ | ⟨-, obj, f, k, -, hdestroyed⟩⟩ := destroy_view hcall
    · exact .refl _ _
    · exact .detach hshmName hdestroyed.extends hdestroyed.init
  | crash =>
    obtain ⟨⟩ := some.inj hcall
    exact .detach rfl (.refl _) rfl

end Run

/-! ### Runs -/

section Runs

variable {T : Type*} [DecidableEq T] {name : ℕ} {s s' : Threads Store T Handle}

/-- What holds of the handles of a topic in every run. -/
structure Topic.WellFormed (name : ℕ) (s : Threads Store T Handle) : Prop where
  shmName : ∀ t, (s.pc t).shmName = name
  fresh : (s.mem.view name).Fresh
  mapped : ∀ t, (s.mem.view name).Mapped (s.pc t)

omit [DecidableEq T] in
theorem Topic.wellFormed_init (pid : T → ℕ) (conf : T → ShmConf) (dead : ℕ → Bool) :
    WellFormed name (init name pid conf dead) :=
  ⟨fun _ => rfl, ⟨fun _ _ h => (by cases h), fun _ h => (by cases h)⟩, fun _ h => (by cases h)⟩

theorem View.Mapped.extends {v v' : View} {h : Handle} (hmapped : v.Mapped h) (hfresh : v.Fresh)
    (hview : v.Extends v') : v'.Mapped h := by
  intro hinit
  obtain ⟨obj, f, k, hobj, hinfo⟩ := hmapped hinit
  obtain ⟨f', k', hinfo', -⟩ := hview.info obj (hfresh.info_lt obj _ hinfo) f k hinfo
  exact ⟨obj, f', k', hobj, hinfo'⟩

theorem Topic.WellFormed.step {e : T × Call} (hs : WellFormed name s)
    (hstep : Threads.step Call.run s e = some s') : WellFormed name s' := by
  obtain ⟨m', h', hcall, rfl⟩ := step_eq_some.mp hstep
  have hev := run_evolves hcall
  rw [hs.shmName] at hev
  refine ⟨fun u => ?_, hev.view.fresh hs.fresh, fun u => ?_⟩
  · by_cases hu : u = e.1
    · subst hu
      simpa using hev.shmName.trans (hs.shmName e.1)
    · simpa [hu] using hs.shmName u
  · by_cases hu : u = e.1
    · subst hu
      simpa using hev.mapped hs.fresh (hs.mapped e.1)
    · simpa [hu] using (hs.mapped u).extends hs.fresh hev.view

/-- Whoever still maps an object when a call takes the name away from it finds its flag set. -/
def Announced (name : ℕ) (s : Threads Store T Handle) (e : T × Call) : Prop :=
  ∀ s', Threads.step Call.run s e = some s' → ∀ u obj, (s'.pc u).attached = some obj →
    s.mem.named name = some obj → s'.mem.named name ≠ some obj →
      ∃ seg, s.mem.shm obj = some seg ∧ seg.needRemap = true

instance [Fintype T] (name : ℕ) (s : Threads Store T Handle) (e : T × Call) :
    Decidable (Announced name s e) :=
  inferInstanceAs (Decidable (∀ s' ∈ Threads.step Call.run s e, ∀ u, ∀ obj ∈ (s'.pc u).attached,
    _ → _ → ∃ seg ∈ s.mem.shm obj, _))

/-- The handle maps the object with the name, or finds the flag set. -/
def View.Follows (v : View) (h : Handle) : Prop :=
  ∀ obj, h.attached = some obj → v.named = some obj ∨ ∃ k, v.info obj = some (true, k)

theorem View.Extends.flagged {v v' : View} (hview : v.Extends v') (hfresh : v.Fresh) {obj k : ℕ}
    (hinfo : v.info obj = some (true, k)) : ∃ k', v'.info obj = some (true, k') := by
  obtain ⟨f', k', hinfo', hf⟩ := hview.info obj (hfresh.info_lt obj _ hinfo) true k hinfo
  exact ⟨k', hf rfl ▸ hinfo'⟩

/-- An announced call leaves every handle at the named object or at a flagged one. -/
theorem Announced.follows_step {e : T × Call} (hann : Announced name s e)
    (hstep : Threads.step Call.run s e = some s') (hs : Topic.WellFormed name s)
    (hfollows : ∀ u, (s.mem.view name).Follows (s.pc u)) :
    ∀ u, (s'.mem.view name).Follows (s'.pc u) := by
  intro u obj hobj'
  have hnamed_or := hann s' hstep u obj hobj'
  obtain ⟨m', h', hcall, rfl⟩ := step_eq_some.mp hstep
  have hev := run_evolves hcall
  rw [hs.shmName] at hev
  -- the handle was attached to the object before the call, or is now attached to the named one
  have hbefore : (s.pc u).attached = some obj ∨ (m'.view name).named = some obj := by
    by_cases hu : u = e.1
    · subst hu
      simp only [update_self] at hobj'
      rcases hev.attached obj hobj' with ⟨hobj, -⟩ | hnamed
      · exact .inl hobj
      · exact .inr hnamed
    · simp only [update_of_ne hu] at hobj'
      exact .inl hobj'
  rcases hbefore with hobj | hnamed
  · rcases hfollows u obj hobj with hnamed | ⟨k, hinfo⟩
    · by_cases hnamed' : m'.named name = some obj
      · exact .inl hnamed'
      · obtain ⟨seg, hseg, hflag⟩ := hnamed_or hnamed hnamed'
        refine .inr (hev.view.flagged hs.fresh (k := seg.referenceCount) ?_)
        simp [Store.view, hseg, Segment.info, hflag]
    · exact .inr (hev.view.flagged hs.fresh hinfo)
  · exact .inl hnamed

theorem openOnly_named {os : Os} {m : Store} {h : Handle} (hinit : h.init = false)
    (hok : (openOnly os m h).1 = true) : ∃ obj, (openOnly os m h).2.2.attached = some obj ∧
      ((openOnly os m h).2.1.view h.shmName).named = some obj := by
  rcases openOnly_view os m h with ⟨hinit', -⟩ | ⟨-, heq⟩ | ⟨-, -, obj, f, k, hattach⟩
  · simp [hinit] at hinit'
  · simp [heq] at hok
  · refine ⟨obj, Handle.attached_eq_some.mpr ⟨hattach.init, hattach.obj⟩, ?_⟩
    rw [hattach.view]
    exact hattach.named

theorem acquireBlockToRead_named {m m' : Store} {h h' : Handle} {out : Acquired}
    (hfollows : (m.view h.shmName).Follows h)
    (hcall : acquireBlockToRead env m h index = some (out, m', h')) (hok : out.ok = true) :
    ∃ obj, h'.attached = some obj ∧ (m'.view h.shmName).named = some obj := by
  rcases acquireBlockToRead_cases rfl hcall h.shmName with
    ⟨-, rfl, hview, hmapped⟩ | ⟨-, rfl, hview, hremap⟩
  · rw [hview]
    obtain ⟨hopen, seg, hseg, hflag⟩ := hmapped hok
    cases hinit : h.init with
    | false => exact openOnly_named hinit hopen
    | true =>
      have hkeep : openOnly env.openOnly m h = (true, m, h) := if_pos hinit
      rw [hkeep] at hseg ⊢
      change m.segment h = some seg at hseg
      obtain ⟨obj, hobj, hshm⟩ := bind_eq_some_iff.mp hseg
      have hattached : h.attached = some obj := Handle.attached_eq_some.mpr ⟨hinit, hobj⟩
      refine ⟨obj, hattached, ?_⟩
      rcases hfollows obj hattached with hnamed | ⟨k, hinfo⟩
      · exact hnamed
      · simp [Store.view, hshm, Segment.info, hflag] at hinfo
  · rw [hview]
    have hnamed := openOnly_named rfl (hremap hok)
    exact openOnly_shmName env.openOnly m h ▸ hnamed

/-- **Readers follow the writer.** In a run in which every handle that still maps an object when
its name is taken away finds its flag set, a successful read leaves the handle on the object that
the name stands for. -/
theorem follows_of_announced {pid : T → ℕ} {conf : T → ShmConf} {dead : ℕ → Bool}
    {es : List (T × Call)}
    (hrun : exec (Threads.step Call.run) (Topic.init name pid conf dead) es = some s)
    (hann : AllSteps (Threads.step Call.run) (Announced name) (Topic.init name pid conf dead) es)
    {t : T} {out : Acquired} {m' : Store} {h' : Handle}
    (hcall : acquireBlockToRead env s.mem (s.pc t) index = some (out, m', h'))
    (hok : out.ok = true) : ∃ obj, h'.attached = some obj ∧ m'.named name = some obj := by
  have hinv : Topic.WellFormed name s ∧ ∀ u, (s.mem.view name).Follows (s.pc u) := by
    refine exec_invariant_of_allSteps
      (fun s => Topic.WellFormed name s ∧ ∀ u, (s.mem.view name).Follows (s.pc u))
      (fun s e s' hs hann hstep => ⟨hs.1.step hstep, hann.follows_step hstep hs.1 hs.2⟩)
      ⟨Topic.wellFormed_init pid conf dead, fun u obj hobj => ?_⟩ hann hrun
    cases hobj
  obtain ⟨hwf, hfollows⟩ := hinv
  have hread := acquireBlockToRead_named (hwf.shmName t ▸ hfollows t) hcall hok
  rwa [hwf.shmName t] at hread

end Runs

/-! ### A restarted writer -/

/-- Eight bytes, one block. -/
def oneBlock : ShmConf := .ofProp ⟨"topic", 8, 1⟩

/-- The handles `0` and `2` of a writer that is restarted, and the handle `1` of a reader. -/
def restart : Threads Store ℕ Handle := Topic.init 0 id (fun _ => oneBlock) fun _ => false

/-- The reader maps the first object and goes on reading from it after the restarted writer has
given the name to a second one. -/
theorem reads_replaced_object :
    ∃ s out m' h', exec (Threads.step Call.run) restart
        [(0, .create [{}]), (1, .openOnly {}), (0, .crash), (2, .create [{}, {}])] = some s ∧
      acquireBlockToRead {} s.mem (s.pc 1) 0 = some (out, m', h') ∧ out.ok = true ∧
      h'.attached = some 0 ∧ (s.pc 2).attached = some 1 ∧ m'.named 0 = some 1 :=
  ⟨_, _, _, _, rfl, rfl, rfl, rfl, rfl, rfl⟩

/-- The writer is restarted twice, as the handles `2` and `3`; the reader opens the second
object. -/
def restarts : List (Fin 4 × Call) :=
  [(0, .create [{}]), (0, .crash), (2, .create [{}, {}]), (1, .openOnly {}), (2, .crash),
    (3, .create [{}, {}])]

/-- The second object was flagged when `Recreate` made it, so the next read takes the reader to the
third one. -/
theorem follows_restarted_writer :
    ∃ s out m' h', exec (Threads.step Call.run)
        (Topic.init 0 Fin.val (fun _ : Fin 4 => oneBlock) fun _ => false) restarts = some s ∧
      (s.pc 1).attached = some 1 ∧ s.mem.named 0 = some 2 ∧
      acquireBlockToRead {} s.mem (s.pc 1) 0 = some (out, m', h') ∧ out.ok = true ∧
      ∃ obj, h'.attached = some obj ∧ m'.named 0 = some obj := by
  obtain ⟨s, hrun⟩ : ∃ s, exec (Threads.step Call.run)
      (Topic.init 0 Fin.val (fun _ : Fin 4 => oneBlock) fun _ => false) restarts = some s :=
    ⟨_, rfl⟩
  have hann : AllSteps (Threads.step Call.run) (Announced 0)
      (Topic.init 0 Fin.val (fun _ : Fin 4 => oneBlock) fun _ => false) restarts := by
    decide +kernel
  obtain ⟨r, hcall, hok⟩ :
      ∃ r, acquireBlockToRead {} s.mem (s.pc 1) 0 = some r ∧ r.1.ok = true := by
    cases hrun
    exact ⟨_, rfl, rfl⟩
  refine ⟨s, r.1, r.2.1, r.2.2, hrun, ?_, ?_, hcall, hok, follows_of_announced hrun hann hcall hok⟩
  all_goals
    cases hrun
    rfl

end ShmTest
