import Notebook.Cyber.Transport.Shm.SegmentWrite

/-!
# The block that a reader acquires

`AcquireBlockToRead` tests the index it was sent against the number of blocks, and only then maps
the current object if its own is outdated. Objects for larger messages have fewer blocks, so the
test says nothing about the object that the block is taken from. A reader that opens an object
before its creator has constructed the `State` there computes the layout from a zero ceiling.
-/

open Interleaving Function Option Threads

namespace Cyber.Segment

/-! ### The ceilings of the objects -/

/-- The ceilings stored in the objects. -/
def Store.ceiling (m : Store) (obj : ℕ) : ℕ := (m.shm obj).ceilingMsgSize

/-- The object that a process has created and not yet constructed. -/
def Pc.building : Pc → Option ℕ
  | .construct _ _ obj => some obj
  | _ => none

variable {m m' : Store} {p p' : Process} {h : Handle} {l : Pc} {a : Act} {obj : ℕ}

theorem Store.ceiling_modify {f : Shm → Shm} (hf : ∀ x, (f x).ceilingMsgSize = x.ceilingMsgSize) :
    (m.modify obj f).ceiling = m.ceiling := by
  funext u
  by_cases hu : u = obj
  · subst hu
    simp [Store.ceiling, Store.modify, hf]
  · simp [Store.ceiling, Store.modify, hu]

theorem Store.ceiling_increase (m : Store) (obj : ℕ) :
    (m.modify obj .increaseReferenceCounts).ceiling = m.ceiling :=
  Store.ceiling_modify fun _ => rfl

theorem Store.ceiling_construct (m : Store) (obj c : ℕ) :
    (m.construct obj c).ceiling = update m.ceiling obj c := by
  funext u
  by_cases hu : u = obj
  · subst hu
    simp [Store.ceiling, Store.construct, Store.modify]
  · simp [Store.ceiling, Store.construct, Store.modify, hu]

theorem building_ite {c : Prop} [Decidable c] {l₁ l₂ : Pc} (h₁ : l₁.building = none)
    (h₂ : l₂.building = none) : (if c then l₁ else l₂).building = none := by
  rw [apply_ite Pc.building, h₁, h₂, ite_self]

/-- **What an access does to the objects.** It leaves all ceilings and creates no object; or it
creates an object that the process then has to construct; or it stores the ceiling of the object
that the process has created. -/
theorem access_cases (hs : access m h l a = some (m', p')) :
    (m'.ceiling = m.ceiling ∧ m'.next = m.next ∧ p'.pc.building = none) ∨
    (m'.ceiling = m.ceiling ∧ m'.next = m.next + 1 ∧ p'.pc.building = some m.next) ∨
    ∃ obj, l.building = some obj ∧
      m'.ceiling = update m.ceiling obj h.conf.ceilingMsgSize ∧ m'.next = m.next ∧
      p'.pc.building = none := by
  revert hs
  fun_cases access m h l a <;> simp only [some.injEq, reduceCtorEq, IsEmpty.forall_iff] <;>
    intro hs <;> obtain ⟨rfl, rfl⟩ := Prod.mk.inj hs
  case case3 => exact .inr (.inl ⟨rfl, rfl, rfl⟩)
  case case5 n grow obj =>
    refine .inr (.inr ⟨obj, rfl, ?_, rfl, building_ite rfl rfl⟩)
    rw [Store.ceiling_increase, Store.ceiling_construct]
  -- everything else leaves the ceilings alone
  all_goals left
  case case8 => exact ⟨m.ceiling_increase _, rfl, building_ite rfl rfl⟩
  case case12 => exact ⟨m.ceiling_increase _, rfl, building_ite rfl rfl⟩
  case case14 => exact ⟨Store.ceiling_modify fun _ => rfl, rfl, rfl⟩
  case case16 ok => cases ok <;> exact ⟨rfl, rfl, rfl⟩
  case case17 => exact ⟨Store.ceiling_modify fun _ => rfl, rfl, building_ite rfl rfl⟩
  case case22 => exact ⟨m.ceiling_increase _, rfl, building_ite rfl rfl⟩
  case case26 => exact ⟨m.ceiling_increase _, rfl, rfl⟩
  case case30 => exact ⟨Store.ceiling_modify fun _ => rfl, rfl, rfl⟩
  case case33 => split_ifs <;> exact ⟨rfl, rfl, rfl⟩
  case case10 => exact ⟨rfl, rfl, building_ite rfl (building_ite rfl rfl)⟩
  case case20 => exact ⟨rfl, rfl, building_ite (building_ite rfl rfl) rfl⟩
  all_goals first
    | exact ⟨rfl, rfl, rfl⟩
    | exact ⟨rfl, rfl, building_ite rfl rfl⟩

section Objects

variable {T : Type*} [DecidableEq T] {s s' : State T} {t : T}

/-- Objects that do not exist yet, or are not yet constructed, store no ceiling, and each object is
constructed by the one process that has created it. -/
structure Fresh (s : State T) : Prop where
  unborn : ∀ obj, s.mem.next ≤ obj → s.mem.ceiling obj = 0
  building : ∀ t obj, (s.pc t).pc.building = some obj →
    obj < s.mem.next ∧ s.mem.ceiling obj = 0
  unique : ∀ t u obj, (s.pc t).pc.building = some obj → (s.pc u).pc.building = some obj → t = u

/-- A construction that is under way after a step of `t` is that of `t`, or was under way before
in another process. -/
theorem building_update {q : Process} {u : T} (hu : (update s.pc t q u).pc.building = some obj) :
    u = t ∧ q.pc.building = some obj ∨ u ≠ t ∧ (s.pc u).pc.building = some obj := by
  by_cases hut : u = t
  · subst hut
    exact .inl ⟨rfl, by simpa using hu⟩
  · exact .inr ⟨hut, by simpa [hut] using hu⟩

variable {q : Process}

theorem Fresh.keep (hs : Fresh s) (hc : m'.ceiling = s.mem.ceiling) (hn : m'.next = s.mem.next)
    (hb : q.pc.building = none) : Fresh ⟨m', update s.pc t q⟩ := by
  have hold : ∀ u o, (update s.pc t q u).pc.building = some o →
      (s.pc u).pc.building = some o := fun u o hu => by
    rcases building_update hu with ⟨-, hu'⟩ | ⟨-, hu'⟩
    · simp [hb] at hu'
    · exact hu'
  refine ⟨fun o ho => ?_, fun u o hu => ?_, fun u v o hu hv => ?_⟩
  · rw [hc]
    exact hs.unborn o (hn ▸ ho)
  · rw [hc, hn]
    exact hs.building u o (hold u o hu)
  · exact hs.unique u v o (hold u o hu) (hold v o hv)

theorem Fresh.create (hs : Fresh s) (hc : m'.ceiling = s.mem.ceiling)
    (hn : m'.next = s.mem.next + 1) (hb : q.pc.building = some s.mem.next) :
    Fresh ⟨m', update s.pc t q⟩ := by
  have hnew : ∀ u o, (update s.pc t q u).pc.building = some o →
      u = t ∧ o = s.mem.next ∨ (s.pc u).pc.building = some o := fun u o hu => by
    rcases building_update hu with ⟨rfl, hu'⟩ | ⟨-, hu'⟩
    · exact .inl ⟨rfl, (some.inj (hb.symm.trans hu')).symm⟩
    · exact .inr hu'
  refine ⟨fun o ho => ?_, fun u o hu => ?_, fun u v o hu hv => ?_⟩
  · rw [hc]
    exact hs.unborn o (Nat.le_of_succ_le (hn.symm.trans_le ho))
  · rw [hc, hn]
    rcases hnew u o hu with ⟨-, rfl⟩ | hu
    · exact ⟨Nat.lt_succ_self _, hs.unborn _ le_rfl⟩
    · exact ⟨Nat.lt_succ_of_lt (hs.building u o hu).1, (hs.building u o hu).2⟩
  · rcases hnew u o hu with ⟨hut, ho⟩ | hu <;> rcases hnew v o hv with ⟨hvt, ho'⟩ | hv
    · exact hut.trans hvt.symm
    · exact absurd (hs.building v o hv).1 ho.not_lt
    · exact absurd (hs.building u o hu).1 ho'.not_lt
    · exact hs.unique u v o hu hv

theorem Fresh.construct (hs : Fresh s) {obj c : ℕ} (hobj : (s.pc t).pc.building = some obj)
    (hc : m'.ceiling = update s.mem.ceiling obj c) (hn : m'.next = s.mem.next)
    (hb : q.pc.building = none) : Fresh ⟨m', update s.pc t q⟩ := by
  have hother : ∀ u o, (update s.pc t q u).pc.building = some o →
      o ≠ obj ∧ (s.pc u).pc.building = some o := fun u o hu => by
    rcases building_update hu with ⟨-, hu'⟩ | ⟨hut, hu'⟩
    · simp [hb] at hu'
    · exact ⟨fun ho => hut (hs.unique u t obj (ho ▸ hu') hobj), hu'⟩
  refine ⟨fun o ho => ?_, fun u o hu => ?_, fun u v o hu hv => ?_⟩
  · have hlt : obj < s.mem.next := (hs.building t obj hobj).1
    have hle : s.mem.next ≤ o := hn ▸ ho
    rw [hc, update_of_ne (by omega)]
    exact hs.unborn o hle
  · obtain ⟨hne, hu⟩ := hother u o hu
    rw [hc, hn, update_of_ne hne]
    exact hs.building u o hu
  · exact hs.unique u v o (hother u o hu).2 (hother v o hv).2

theorem fresh_step (hs : Fresh s) (h : step s (t, a) = some s') : Fresh s' := by
  obtain ⟨m', q, hq, rfl⟩ := step_eq_some.mp h
  rcases access_cases hq with ⟨hc, hn, hb⟩ | ⟨hc, hn, hb⟩ | ⟨obj, hobj, hc, hn, hb⟩
  · exact hs.keep hc hn hb
  · exact hs.create hc hn hb
  · exact hs.construct hobj hc hn hb

end Objects

/-! ### The index of a reader -/

/-- Every object that is constructed keeps its ceiling. -/
def Store.Keeps (m m' : Store) : Prop := ∀ obj, 0 < m.ceiling obj → m'.ceiling obj = m.ceiling obj

theorem keeps_access (hs : access m h l a = some (m', p'))
    (hb : ∀ obj, l.building = some obj → m.ceiling obj = 0) : m.Keeps m' := by
  intro o ho
  rcases access_cases hs with ⟨hc, -⟩ | ⟨hc, -⟩ | ⟨obj, hobj, hc, -⟩
  · rw [hc]
  · rw [hc]
  · have hne : o ≠ obj := by
      rintro rfl
      exact ho.ne' (hb o hobj)
    rw [hc, update_of_ne hne]

/-- What holds of the fields where a process is in `AcquireBlockToRead`. -/
def Pc.Valid (h : Handle) : Pc → Prop
  | .readNeedRemap i => h.init ∧ i < h.conf.blockNum
  | .tryLockForRead i => h.init ∧ i < h.conf.blockNum
  | .reading i buf => h.init ∧ i < h.conf.blockNum ∧ buf = h.blockBufAddrs i
  | _ => True

/-- The configuration of a mapped segment is that of the object, and the index of a reader is in
its range. -/
structure Process.Valid (m : Store) (p : Process) : Prop where
  stored : p.handle.init → ∀ obj, p.handle.obj = some obj →
    0 < m.ceiling obj ∧ p.handle.conf = .update (m.ceiling obj)
  pc : p.pc.Valid p.handle

/-- The number of blocks in an object; before its construction it has none. -/
def Store.blockNum (m : Store) (obj : ℕ) : ℕ :=
  if m.ceiling obj = 0 then 0 else (ShmConf.update (m.ceiling obj)).blockNum

theorem Store.lt_blockNum {obj k : ℕ} :
    k < m.blockNum obj ↔ 0 < m.ceiling obj ∧ k < (ShmConf.update (m.ceiling obj)).blockNum := by
  unfold Store.blockNum
  split_ifs with hc
  · simp [hc]
  · simp [pos_of_ne_zero hc]

/-- A process about to open an object relies on a block of that object: a reader that has tested
its index on that block, any other process on the first one. -/
def Pc.reliesOn : Pc → Option ℕ
  | .openExisting _ _ => some 0
  | .writeRemap _ => some 0
  | .openOnly _ => some 0
  | .readRemap i => some i
  | _ => none

/-- **The condition on a step that opens an object**: the object has the block relied on. -/
def Pc.OpensLarge (m : Store) (l : Pc) : Prop :=
  ∀ k ∈ l.reliesOn, ∀ obj ∈ m.named, k < m.blockNum obj
deriving Decidable

theorem Process.Valid.of_unmapped (hinit : h.init = false) (hpc : l.Valid h) :
    Process.Valid m ⟨h, l⟩ where
  stored hinit' := absurd (hinit.symm.trans hinit') Bool.false_ne_true
  pc := hpc

theorem Process.Valid.keeps (hp : p.Valid m) (hk : m.Keeps m') : p.Valid m' where
  stored hinit obj hobj := by
    obtain ⟨hpos, hconf⟩ := hp.stored hinit obj hobj
    rw [hk obj hpos]
    exact ⟨hpos, hconf⟩
  pc := hp.pc

theorem valid_attach {pc : Handle → Pc} (h' : attach m h obj pc = (m', p'))
    (hpos : 0 < m.ceiling obj)
    (hpc : (pc (h.attach obj (m.ceiling obj))).Valid (h.attach obj (m.ceiling obj))) :
    p'.Valid m' := by
  obtain ⟨rfl, rfl⟩ := Prod.mk.inj h'
  refine ⟨fun _ o ho => ?_, hpc⟩
  obtain rfl : obj = o := some.inj ho
  rw [Store.ceiling_increase]
  exact ⟨hpos, rfl⟩

theorem Pc.OpensLarge.opened {ok : Bool} {obj k : ℕ} (hC : l.OpensLarge m)
    (hk : l.reliesOn = some k) (h : m.shmOpen ok = some obj) :
    0 < m.ceiling obj ∧ k < (ShmConf.update (m.ceiling obj)).blockNum := by
  have hnamed : obj ∈ m.named := by
    unfold Store.shmOpen at h
    split_ifs at h
    exact h
  exact Store.lt_blockNum.mp (hC k hk obj hnamed)

theorem valid_rangeTest {i : ℕ} (hinit : h.init) : (rangeTest h i).Valid h :=
  iteInduction (fun _ => trivial) fun hi => ⟨hinit, not_le.mp hi⟩

theorem valid_sizeTest {n : ℕ} : (sizeTest h n).Valid h :=
  iteInduction (fun _ => trivial) fun _ => trivial

/-- The index of a reader stays in range unless it maps a smaller object. -/
theorem valid_access (hp : Process.Sound ⟨h, l⟩) (hv : Process.Valid m ⟨h, l⟩)
    (hC : l.OpensLarge m) (hk : m.Keeps m') (hs : access m h l a = some (m', p')) :
    p'.Valid m' := by
  obtain ⟨hconf, -, hsound⟩ := hp
  obtain ⟨hst, hpc⟩ := hv.keeps hk
  revert hs
  fun_cases access m h l a <;> simp only [some.injEq, reduceCtorEq, IsEmpty.forall_iff] <;>
    intro hs
  -- the five ways to map an object
  case case5 n grow obj =>
    obtain ⟨c, hc⟩ := hconf
    refine valid_attach hs ?_ (iteInduction (fun _ => trivial) fun _ => trivial)
    rw [Store.ceiling_construct, update_self, hc]
    exact ShmConf.getCeilingMessageSize_pos c
  case case8 n grow ok obj hobj =>
    exact valid_attach hs (hC.opened rfl hobj).1
      (iteInduction (fun _ => trivial) fun _ => trivial)
  case case12 n ok obj hobj =>
    exact valid_attach hs (hC.opened rfl hobj).1 valid_sizeTest
  case case22 i ok obj hobj =>
    exact valid_attach hs (hC.opened rfl hobj).1 (valid_rangeTest rfl)
  case case26 i ok obj hobj =>
    obtain ⟨hpos, hlt⟩ := hC.opened rfl hobj
    exact valid_attach hs hpos ⟨rfl, hlt⟩
  all_goals obtain ⟨-, rfl⟩ := Prod.mk.inj hs
  case case1 => exact ⟨hst, iteInduction (fun _ => trivial) fun _ => trivial⟩
  case case10 => exact ⟨hst, iteInduction (fun _ => trivial) fun _ => valid_sizeTest⟩
  case case13 => exact .of_unmapped rfl (iteInduction (fun _ => trivial) fun _ => trivial)
  case case14 => exact .of_unmapped rfl trivial
  -- `Recreate` has let go of its object before
  case case16 => exact .of_unmapped hsound trivial
  case case17 => exact ⟨hst, iteInduction (fun _ => trivial) fun _ => trivial⟩
  case case20 => exact ⟨hst, iteInduction valid_rangeTest fun _ => trivial⟩
  case case24 => exact ⟨hst, iteInduction (fun _ => trivial) fun _ => hpc⟩
  case case27 => exact .of_unmapped rfl trivial
  case case28 => exact ⟨hst, iteInduction (fun _ => ⟨hpc.1, hpc.2, rfl⟩) fun _ => trivial⟩
  case case30 => exact .of_unmapped rfl trivial
  all_goals exact ⟨hst, trivial⟩

/-! ### Runs -/

variable {T : Type*} [DecidableEq T]

/-- The invariant of the runs in which every step meets the condition. -/
structure Consistent (s : State T) : Prop where
  fresh : Fresh s
  sound : ∀ t, (s.pc t).Sound
  valid : ∀ t, (s.pc t).Valid s.mem

/-- The event `e` meets the condition on the steps that open an object. -/
def OpensLarge (s : State T) (e : T × Act) : Prop := (s.pc e.1).pc.OpensLarge s.mem
deriving Decidable

omit [DecidableEq T] in
theorem consistent_init : Consistent (init T) where
  fresh := ⟨fun _ _ => rfl, nofun, nofun⟩
  sound _ := sound_new
  valid _ := .of_unmapped rfl trivial

theorem consistent_step {s s' : State T} {e : T × Act} (hs : Consistent s) (hC : OpensLarge s e)
    (h : step s e = some s') : Consistent s' := by
  obtain ⟨t, a⟩ := e
  refine ⟨fresh_step hs.fresh h, forall_pc_step h hs.sound fun m p hp =>
    sound_access (hs.sound t) hp, ?_⟩
  obtain ⟨m', q, hq, rfl⟩ := step_eq_some.mp h
  have hk : s.mem.Keeps m' := keeps_access hq fun obj hobj => (hs.fresh.building t obj hobj).2
  intro u
  by_cases hu : u = t
  · subst hu
    simpa using valid_access (hs.sound u) (hs.valid u) hC hk hq
  · simpa [hu] using (hs.valid u).keeps hk

/-- **The block that a reader acquires.** Take any run of any number of writers and readers in
which every step that opens an object finds it constructed, and every remap inside
`AcquireBlockToRead` finds an object with more blocks than the index that was tested before. Then
whenever `AcquireBlockToRead` has returned `true`, the index is smaller than the number of blocks
of the object that the reader has mapped, and the returned buffer is the one recorded for that
block. -/
theorem block_read_valid {es : List (T × Act)} {s : State T}
    (h : exec step (init T) es = some s) (hC : AllSteps step OpensLarge (init T) es)
    {t : T} {index : ℕ} {buf : Option BufAddr} (ht : (s.pc t).pc = .reading index buf) :
    ∃ obj, (s.pc t).handle.obj = some obj ∧
      index < s.mem.blockNum obj ∧
      buf = (s.pc t).handle.blockBufAddrs index ∧
      buf = some (bufAddr obj (.update (s.mem.ceiling obj)) index) := by
  have hs : Consistent s := exec_invariant_of_allSteps Consistent
    (fun s e s' hs hC h => consistent_step hs hC h) consistent_init hC h
  obtain ⟨hst, hpc⟩ := hs.valid t
  rw [ht] at hpc
  obtain ⟨hinit, hlt, rfl⟩ := hpc
  obtain ⟨obj, hobj⟩ := (hs.sound t).attached hinit
  obtain ⟨hpos, hconf⟩ := hst hinit obj hobj.obj_eq
  refine ⟨obj, hobj.obj_eq, Store.lt_blockNum.mpr ⟨hpos, hconf ▸ hlt⟩, rfl, ?_⟩
  rw [hobj.addrs index hlt, hconf]

/-- The writer grows the object for its second message; the reader, which has mapped the first
object, then reads block 0. -/
def growth : List (ℕ × Act) :=
  calls 0 (.acquireBlockToWrite 100) 4 ++ calls 0 .release 0 ++
    calls 1 (.acquireBlockToRead 0) 1 ++ calls 0 (.acquireBlockToWrite 100000) 6 ++ steps 1 3

/-- The reader follows the writer to the new object and gets its block 0. -/
theorem block_read_valid_of_growth :
    ∃ s : State ℕ, exec step (init ℕ) growth = some s ∧
      ∃ buf obj, (s.pc 1).pc = .reading 0 buf ∧ (s.pc 1).handle.obj = some obj ∧
        0 < s.mem.blockNum obj ∧ buf.isSome := by
  obtain ⟨s, hs, ht⟩ := map_eq_some_iff.mp
    (show (exec step (init ℕ) growth).map (fun s => (s.pc 1).pc) =
      some (.reading 0 (some ⟨1, 128, 132096, 0⟩)) from rfl)
  have hC : AllSteps step OpensLarge (init ℕ) growth := by decide +kernel
  obtain ⟨obj, hobj, hlt, -, -⟩ := block_read_valid hs hC ht
  exact ⟨s, hs, _, obj, ht, hobj, hlt, rfl⟩

/-- The writer fills blocks 0 to 8 of an object with 16 blocks and then needs an object for larger
messages, which has 8; after that the reader, which has mapped the first of them, reads block 8. -/
def shrinkage : List (ℕ × Act) :=
  calls 0 (.acquireBlockToWrite 10000000) 8 ++ calls 0 .release 0 ++
    (List.replicate 8 (calls 0 (.acquireBlockToWrite 10000000) 2 ++ calls 0 .release 0)).flatten ++
    calls 1 (.acquireBlockToRead 0) 3 ++ calls 1 .release 0 ++
    calls 0 (.acquireBlockToWrite 20000000) 6 ++ calls 0 .release 0 ++
    calls 1 (.acquireBlockToRead 8) 3

/-- The old object of the reader has the block 8, so the index passes the test; after the remap the
block lies outside the object, and its buffer is null. -/
theorem block_read_out_of_range :
    (exec step (init ℕ) shrinkage).map
        (fun s => ((s.pc 1).pc, (s.pc 1).handle.obj.map s.mem.blockNum)) =
      some (.reading 8 none, some 8) := by
  decide +kernel

end Cyber.Segment
