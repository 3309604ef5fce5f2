import Notebook.ShmTest.AllocMemory

/-!
# What a failed acquire leaves behind

`AcquireBlockToWrite` and `AcquireBlockToRead` lock a block first and record the process in the
set of process ids of the block afterwards; the result of the call is the result of the recording.
The set has a fixed number of slots and no live process leaves it, so a call can lock a block and
return `false`. Its caller does not release the block, and since the process is not
recorded, no `AnyAlive` ever will.

## Main definitions

* `writeTarget`, `readTarget` — the block that a call will lock.
* `Recordable` — the block can record the process.
* `LocksKept` — no lock count has changed.

## Main results

* `lock_block` — what locking a block changes.
* `all_or_nothing_iff` — a failed call keeps all lock counts exactly if its target is recordable.
-/

open Interleaving List Option

namespace ShmTest

/-! ### The set of process ids -/

/-- `Insert` fails exactly when the set is full and the element is not in it. -/
theorem LocklessSet.insert_isSome_iff {elem : ℕ} {slots : List ℕ} :
    (insert elem slots).isSome ↔ elem ∈ slots ∨ 0 ∈ slots := by
  induction slots with
  | nil => simp [insert]
  | cons p slots ih =>
    rw [insert]
    by_cases hp : p = elem
    · simp [hp]
    · by_cases h0 : p = 0
      · rw [if_pos hp, if_neg (not_not.mpr h0)]
        simp [h0]
      · have hne : elem ≠ p := Ne.symm hp
        have hne0 : 0 ≠ p := Ne.symm h0
        simp [hp, h0, ih, hne, hne0]

/-! ### Locking when everybody is alive -/

namespace Mem

variable {m m' : Mem} {self : ℕ} {mode : Mode}

theorem anyAlive_of_alive (halive : ∀ p ∈ m.pidSet, m.procDead p = false) :
    (m.anyAlive self).2 = m := by
  have hcount : m.deadRecords = 0 := countP_eq_zero.mpr fun p hp => by simp [halive p hp]
  have hslots : (m.pidSet.map fun p => if m.procDead p then 0 else p) = m.pidSet :=
    (map_congr_left fun p hp => by simp [halive p hp]).trans (map_id _)
  rw [anyAlive_eq, hcount, hslots, towardsZero_zero]

theorem tryLock_eq_some {spurious : Bool} (h : m.tryLock spurious mode = some m') :
    m'.lockNum ≠ m.lockNum ∧ m'.pidSet = m.pidSet := by
  cases mode with
  | write =>
    simp only [tryLock, ite_none_right_eq_some, some.injEq] at h
    obtain ⟨⟨hfree, -⟩, rfl⟩ := h
    have hne : writeExclusive ≠ rwLockFree := by decide
    exact ⟨hfree ▸ hne, rfl⟩
  | read =>
    simp only [tryLock, ite_none_right_eq_some, some.injEq] at h
    obtain ⟨-, rfl⟩ := h
    refine ⟨?_, rfl⟩
    -- the increment wraps around, but never to the same value
    unfold int32
    simp only
    omega

variable (self mode) in
theorem lock_of_alive (halive : ∀ p ∈ m.pidSet, m.procDead p = false) (spurious : Bool × Bool) :
    m.lock self mode spurious = (false, m) ∨
      ∃ m', m.lock self mode spurious = (true, m') ∧ m'.lockNum ≠ m.lockNum ∧
        m'.pidSet = m.pidSet := by
  unfold lock
  split
  · rename_i m' hm'
    exact .inr ⟨m', rfl, tryLock_eq_some hm'⟩
  · simp only [anyAlive_of_alive halive]
    split
    · exact .inl rfl
    · split
      · rename_i m' hm'
        exact .inr ⟨m', rfl, tryLock_eq_some hm'⟩
      · exact .inl rfl

end Mem

/-! ### Blocks of the store -/

variable {seg : Segment} {obj index : ℕ} {b : Block}

namespace Store

/-- The block `i` of an object. -/
def blockAt (m : Store) (obj i : ℕ) : Option Block := (m.shm obj).bind (·.blocks[i]?)

/-- All processes that are recorded in a block are alive. -/
def AllAlive (m : Store) : Prop :=
  ∀ obj i b, m.blockAt obj i = some b → ∀ p ∈ b.pidSet, p ≠ 0 → m.dead p = false

theorem AllAlive.procDead {m : Store} (h : m.AllAlive) {obj i : ℕ} (hb : m.blockAt obj i = some b) :
    ∀ p ∈ (b.mem m.dead).pidSet,
      (b.mem m.dead).procDead p = false := by
  intro p hp
  by_cases h0 : p = 0
  · simp [Mem.procDead, h0]
  · simp [Mem.procDead, Block.mem, h obj i b hb p hp h0]

theorem blockAt_eq {m : Store} {obj i : ℕ} (hseg : m.shm obj = some seg) :
    m.blockAt obj i = seg.blocks[i]? := by
  rw [blockAt, hseg, bind_some]

theorem blockAt_set {m : Store} {obj : ℕ} {seg seg' : Segment} (hseg : m.shm obj = some seg)
    (hblocks : seg'.blocks = seg.blocks) : (m.set obj seg').blockAt = m.blockAt := by
  funext o i
  by_cases ho : o = obj
  · subst ho
    simp [blockAt, set, hseg, hblocks]
  · simp [blockAt, set, ho]

theorem blockAt_setBlock (m : Store) (obj : ℕ) {index : ℕ} {b₀ : Block}
    (hb₀ : seg.blocks[index]? = some b₀) (b : Block) :
    (m.setBlock obj seg index b).blockAt obj index = some b := by
  obtain ⟨hlt, -⟩ := List.getElem?_eq_some_iff.mp hb₀
  simp [blockAt, setBlock, set, hlt]

theorem blockAt_setBlock_self {m : Store} (seg' : Segment) (hseg : m.shm obj = some seg)
    (hblocks : seg'.blocks = seg.blocks)
    (hb : seg.blocks[index]? = some b) : (m.setBlock obj seg' index b).blockAt = m.blockAt := by
  refine blockAt_set hseg ?_
  obtain ⟨hlt, rfl⟩ := List.getElem?_eq_some_iff.mp hb
  rw [hblocks, set_getElem_self]

end Store

/-- No lock count of any block differs between the two states. -/
def LocksKept (m m' : Store) : Prop :=
  ∀ obj i, (m'.blockAt obj i).map Block.lockNum = (m.blockAt obj i).map Block.lockNum

/-- The block, given by its object and index, has the process in its set already, or has an empty
slot. -/
def Recordable (self : ℕ) (m : Store) (target : Option (ℕ × ℕ)) : Prop :=
  ∀ obj i b, target = some (obj, i) → m.blockAt obj i = some b → self ∈ b.pidSet ∨ 0 ∈ b.pidSet

/-- The block that a call of `AcquireBlockToWrite` will lock: the first that the search from `m_seq`
on can lock. -/
def writeTarget (spurious : List (Bool × Bool)) (m : Store) (h : Handle) (msgSize : ℕ) :
    Option (ℕ × ℕ) :=
  if h.init ∧ msgSize ≤ h.conf.ceilingMsgSize then
    h.obj.bind fun obj =>
      (getNextWritableBlockIndex h.pid h.conf.blockNum obj spurious m).map fun r => (obj, r.1)
  else none

/-- The block, unless it is there and cannot be locked for reading. -/
def lockable (self : ℕ) (spurious : Bool × Bool) (m : Store) (obj index : ℕ) : Option (ℕ × ℕ) :=
  if (m.blockAt obj index).all fun b => ((b.mem m.dead).lock self .read spurious).1 then
    some (obj, index)
  else none

/-- The block that a call of `AcquireBlockToRead` will lock: the block `index` of the object to
which the handle is attached, by `OpenOnly` if it is not yet, and by `Remap` if that object is
flagged. -/
def readTarget (env : ReadEnv) (m : Store) (h : Handle) (index : ℕ) : Option (ℕ × ℕ) :=
  let opened := openOnly env.openOnly m h
  let mapped := if (opened.2.1.segment opened.2.2).any (·.needRemap)
    then remap env.remap opened.2.1 opened.2.2 else opened
  if opened.1 ∧ index < opened.2.2.conf.blockNum ∧ mapped.1 then
    mapped.2.2.obj.bind (lockable h.pid env.spurious m · index)
  else none

/-- What a call that acquires a block does: it fails without having locked a block, or it takes
memory beyond the blocks for one, or it changes the lock count of the block and returns the result
of `Insert`. -/
inductive Effect (self : ℕ) (m : Store) (target : Option (ℕ × ℕ)) (out : Acquired) (m' : Store) :
    Prop
  | unlocked (htarget : target = none) (hkept : LocksKept m m')
  | beyond {obj i : ℕ} (htarget : target = some (obj, i)) (hnone : m.blockAt obj i = none)
      (hkept : LocksKept m m')
  | locked {obj i : ℕ} {b : Block} (htarget : target = some (obj, i))
      (hblock : m.blockAt obj i = some b)
      (hok : out.ok = (LocklessSet.insert self b.pidSet).isSome)
      (hchanged : (m'.blockAt obj i).map Block.lockNum ≠ some b.lockNum)

variable {self : ℕ} {m m' : Store} {target : Option (ℕ × ℕ)} {out : Acquired}

theorem Effect.all_or_nothing (h : Effect self m target out m') :
    (out.ok = false → LocksKept m m') ↔ Recordable self m target := by
  cases h with
  | unlocked htarget hkept =>
    exact iff_of_true (fun _ => hkept) fun obj i b hb => by simp [htarget] at hb
  | beyond htarget hnone hkept =>
    refine iff_of_true (fun _ => hkept) fun obj i b hb hblock => ?_
    obtain ⟨rfl, rfl⟩ := Prod.mk.inj (some.inj (htarget.symm.trans hb))
    simp [hnone] at hblock
  | @locked obj i b htarget hblock hok hchanged =>
    constructor
    · intro hall obj' i' b' hb hblock'
      obtain ⟨rfl, rfl⟩ := Prod.mk.inj (some.inj (htarget.symm.trans hb))
      obtain rfl : b = b' := some.inj (hblock.symm.trans hblock')
      by_contra hfull
      have hfail : out.ok = false := by
        rw [hok]
        exact Bool.eq_false_iff.mpr fun h => hfull (LocklessSet.insert_isSome_iff.mp h)
      exact hchanged ((hall hfail obj i).trans (by rw [hblock]; rfl))
    · intro hrec hfail
      rw [hok, LocklessSet.insert_isSome_iff.mpr (hrec obj i b htarget hblock)] at hfail
      exact absurd hfail (by decide)

/-! ### The calls -/

theorem locksKept_of_blockAt (h : m'.blockAt = m.blockAt) : LocksKept m m' :=
  fun obj i => by rw [h]

theorem Effect.of_blockAt {m₀ : Store} (h : Effect self m target out m')
    (hm : m.blockAt = m₀.blockAt) : Effect self m₀ target out m' := by
  cases h with
  | unlocked htarget hkept => exact .unlocked htarget fun obj i => by rw [hkept, hm]
  | beyond htarget hnone hkept =>
    exact .beyond htarget (by rw [← hm, hnone]) fun obj i => by rw [hkept, hm]
  | locked htarget hblock hok hchanged => exact .locked htarget (by rw [← hm, hblock]) hok hchanged

theorem openOnly_keeps (os : Os) (m : Store) (h : Handle) :
    (openOnly os m h).2.1.blockAt = m.blockAt ∧ (openOnly os m h).2.1.dead = m.dead ∧
      (openOnly os m h).2.2.pid = h.pid := by
  rcases openOnly_cases os m h with ⟨-, heq⟩ | ⟨-, heq⟩ | ⟨-, obj, seg, -, hseg, heq⟩
  · rw [heq]
    exact ⟨rfl, rfl, rfl⟩
  · rw [heq]
    exact ⟨rfl, rfl, rfl⟩
  · rw [heq]
    exact ⟨Store.blockAt_set hseg rfl, rfl, rfl⟩

theorem Store.AllAlive.of_blockAt (h : m.AllAlive) (hblocks : m'.blockAt = m.blockAt)
    (hdead : m'.dead = m.dead) : m'.AllAlive := by
  intro obj i b hb
  rw [hblocks] at hb
  rw [hdead]
  exact h obj i b hb

/-- The end of a call that has locked the block `b₀` and thereby made it `b`. -/
theorem recordPid_effect {h : Handle} {m₁ : Store} {b₀ b : Block}
    (hb₀ : m.blockAt obj index = some b₀) (hpids : b.pidSet = b₀.pidSet)
    (hnum : b.lockNum ≠ b₀.lockNum) (hseg : m₁.shm obj = some seg)
    (hb : seg.blocks[index]? = some b) :
    Effect h.pid m (some (obj, index)) (recordPid m₁ h obj index seg b).1
      (recordPid m₁ h obj index seg b).2 := by
  unfold recordPid
  split
  · rename_i pidSet hpidSet
    refine .locked rfl hb₀ ?_ ?_
    · rw [← hpids, hpidSet]
      rfl
    · rw [Store.blockAt_setBlock _ _ hb]
      simpa using hnum
  · rename_i hfull
    refine .locked rfl hb₀ ?_ ?_
    · rw [← hpids, hfull]
      rfl
    · rw [Store.blockAt_eq hseg, hb]
      simpa using hnum

/-- Locking a block that records live processes only: it fails without effect, or changes the lock
count and keeps the set. -/
theorem lock_block (self : ℕ) (halive : m.AllAlive) (hb : m.blockAt obj index = some b)
    (mode : Mode) (spurious : Bool × Bool) :
    ((b.mem m.dead).lock self mode spurious).1 = false ∧
        ((b.mem m.dead).lock self mode spurious).2.block = b ∨
      ((b.mem m.dead).lock self mode spurious).1 = true ∧
        ((b.mem m.dead).lock self mode spurious).2.block.lockNum ≠ b.lockNum ∧
        ((b.mem m.dead).lock self mode spurious).2.block.pidSet = b.pidSet := by
  rcases Mem.lock_of_alive self mode (halive.procDead hb) spurious with
    heq | ⟨m', heq, hnum, hpids⟩
  · rw [heq]
    exact .inl ⟨rfl, rfl⟩
  · rw [heq]
    exact .inr ⟨rfl, hnum, hpids⟩

variable {h h' : Handle}

theorem lockToRead_effect {env : ReadEnv} {index : ℕ} (halive : m.AllAlive)
    (hcall : lockToRead env m h index = some (out, m', h')) :
    Effect h.pid m (h.obj.bind (lockable h.pid env.spurious m · index)) out m' := by
  unfold lockToRead at hcall
  split at hcall
  · cases hcall
  rename_i obj hobj
  rw [hobj, bind_some, lockable]
  split at hcall
  · cases hcall
  rename_i seg hseg
  rw [Store.blockAt_eq hseg]
  split at hcall
  · rename_i hnone
    cases hcall
    exact .beyond (by simp [hnone]) ((Store.blockAt_eq hseg).trans hnone) fun _ _ => rfl
  · rename_i b hb
    have hblock : m.blockAt obj index = some b := (Store.blockAt_eq hseg).trans hb
    have hlt := (List.getElem?_eq_some_iff.mp hb).1
    rw [hb, all_some]
    rcases lock_block h.pid halive hblock .read env.spurious with
      ⟨hfail, hsame⟩ | ⟨hok, hnum, hpids⟩
    · simp only [hfail, hsame, Bool.false_eq_true, if_false] at hcall
      cases hcall
      exact .unlocked (by simp [hfail])
        (locksKept_of_blockAt (Store.blockAt_setBlock_self seg hseg rfl hb))
    · simp only [hok, if_true] at hcall ⊢
      cases hcall
      exact recordPid_effect hblock hpids hnum (Function.update_self ..) (by simp [hlt])

theorem lockable_congr {spurious : Bool × Bool} (hblocks : m'.blockAt = m.blockAt)
    (hdead : m'.dead = m.dead) : lockable self spurious m' = lockable self spurious m := by
  unfold lockable
  rw [hblocks, hdead]

theorem acquireBlockToRead_effect {env : ReadEnv} {index : ℕ}
    (halive : m.AllAlive) (hcall : acquireBlockToRead env m h index = some (out, m', h')) :
    Effect h.pid m (readTarget env m h index) out m' := by
  unfold acquireBlockToRead at hcall
  unfold readTarget
  obtain ⟨hblocks, hdead, hpid⟩ := openOnly_keeps env.openOnly m h
  generalize openOnly env.openOnly m h = r at hcall hblocks hdead hpid
  simp only at hcall ⊢
  split at hcall
  · cases hcall
    exact .unlocked (by simp_all) (locksKept_of_blockAt hblocks)
  split at hcall
  · rename_i hrange
    cases hcall
    exact .unlocked (if_neg fun hr => hrange.not_gt hr.2.1) (locksKept_of_blockAt hblocks)
  split at hcall
  · cases hcall
  rename_i hseg
  have halive := halive.of_blockAt hblocks hdead
  rw [hseg, any_some, ← hpid]
  split at hcall
  · rename_i hflag
    obtain ⟨hblocks', hdead', hpid'⟩ := openOnly_keeps env.remap r.2.1 r.2.2.reset
    change (remap env.remap r.2.1 r.2.2).2.1.blockAt = _ at hblocks'
    change (remap env.remap r.2.1 r.2.2).2.1.dead = _ at hdead'
    change (remap env.remap r.2.1 r.2.2).2.2.pid = r.2.2.pid at hpid'
    rw [if_pos hflag]
    split at hcall
    · cases hcall
      exact .unlocked (by simp_all) (locksKept_of_blockAt (hblocks'.trans hblocks))
    · rw [if_pos (by simp_all), ← hpid',
        ← lockable_congr (hblocks'.trans hblocks) (hdead'.trans hdead)]
      exact (lockToRead_effect (halive.of_blockAt hblocks' hdead') hcall).of_blockAt
        (hblocks'.trans hblocks)
  · rename_i hflag
    rw [if_neg hflag, if_pos (by simp_all), ← lockable_congr hblocks hdead]
    exact (lockToRead_effect halive hcall).of_blockAt hblocks

/-- The rounds of `GetNextWritableBlockIndex` before the last change no block. -/
theorem getNextWritableBlockIndex_eq_some {blockNum obj index : ℕ} {spurious : List (Bool × Bool)}
    (halive : m.AllAlive)
    (hcall : getNextWritableBlockIndex self blockNum obj spurious m = some (index, m')) :
    ∃ b₀ b, m.blockAt obj index = some b₀ ∧ m'.blockAt obj index = some b ∧
      b.pidSet = b₀.pidSet ∧ b.lockNum ≠ b₀.lockNum := by
  induction spurious generalizing m with
  | nil => cases hcall
  | cons spurious rest ih =>
    unfold getNextWritableBlockIndex at hcall
    split at hcall
    · cases hcall
    split at hcall
    · cases hcall
    rename_i seg hseg
    simp only at hcall
    split at hcall
    · cases hcall
    rename_i b hb
    have hblock : m.blockAt obj (seg.seq % blockNum) = some b := (Store.blockAt_eq hseg).trans hb
    rcases lock_block self halive hblock .write spurious with
      ⟨hfail, hsame⟩ | ⟨hok, hnum, hpids⟩
    · simp only [hfail, hsame, Bool.false_eq_true, if_false] at hcall
      have hblocks :=
        Store.blockAt_setBlock_self { seg with seq := uint32 (seg.seq + 1) } hseg rfl hb
      obtain ⟨b₀, b', hb₀, hb', hpids, hnum⟩ := ih (halive.of_blockAt hblocks rfl) hcall
      exact ⟨b₀, b', hblocks ▸ hb₀, hb', hpids, hnum⟩
    · simp only [hok, if_true] at hcall
      cases hcall
      exact ⟨b, _, hblock, Store.blockAt_setBlock _ _ (by exact hb) _, hpids, hnum⟩

theorem acquireBlockToWrite_effect {spurious : List (Bool × Bool)} {msgSize : ℕ}
    (halive : m.AllAlive)
    (hcall : acquireBlockToWrite spurious m h msgSize = some (out, m', h')) :
    Effect h.pid m (writeTarget spurious m h msgSize) out m' := by
  unfold acquireBlockToWrite at hcall
  unfold writeTarget
  split at hcall
  · cases hcall
    exact .unlocked (by simp_all) fun _ _ => rfl
  split at hcall
  · rename_i hsize
    cases hcall
    exact .unlocked (if_neg fun hfits => hsize.not_ge hfits.2) fun _ _ => rfl
  rw [if_pos (by simp_all)]
  split at hcall
  · cases hcall
  rename_i hobj
  split at hcall
  · cases hcall
  rename_i hnext
  obtain ⟨b₀, b, hb₀, hb, hpids, hnum⟩ := getNextWritableBlockIndex_eq_some halive hnext
  split at hcall
  · cases hcall
  rename_i seg hseg
  rw [Store.blockAt_eq hseg] at hb
  simp only [hb] at hcall
  cases hcall
  rw [hobj, bind_some, hnext]
  exact recordPid_effect hb₀ hpids hnum hseg hb

/-! ### All or nothing -/

/-- **A failed call leaves all lock counts as they were exactly when the block that it will lock, if
any, can record the process.** Which block that is, the store before the call says. -/
theorem all_or_nothing_iff {h : Handle} (halive : m.AllAlive) :
    (∀ spurious msgSize out m' h', acquireBlockToWrite spurious m h msgSize = some (out, m', h') →
      ((out.ok = false → LocksKept m m') ↔
        Recordable h.pid m (writeTarget spurious m h msgSize))) ∧
    ∀ env index out m' h', acquireBlockToRead env m h index = some (out, m', h') →
      ((out.ok = false → LocksKept m m') ↔ Recordable h.pid m (readTarget env m h index)) :=
  ⟨fun _ _ _ _ _ hcall => (acquireBlockToWrite_effect halive hcall).all_or_nothing,
    fun _ _ _ _ _ hcall => (acquireBlockToRead_effect halive hcall).all_or_nothing⟩

/-- An object with one block, in which the live processes `2`, …, `65` are recorded. -/
def crowded (lockNum : ℤ) : Store where
  shm obj :=
    if obj = 0 then some ⟨false, 0, 1, 8, 1, [⟨lockNum, List.range' 2 maxProcessNum⟩]⟩ else none
  next := 1
  named _ := some 0
  dead _ := false

theorem crowded_allAlive (lockNum : ℤ) : (crowded lockNum).AllAlive := fun _ _ _ _ _ _ _ => rfl

/-- The handle of the process `1` on that object. -/
def crowdedHandle : Handle :=
  { Handle.new 1 0 (ShmConf.default.update 8 1) with init := true, obj := some 0 }

/-- The writer that finds no place leaves the free block locked; the reader of a block that somebody
writes fails before it has locked anything. -/
theorem all_or_nothing_crowded :
    (∃ out m' h',
      acquireBlockToWrite [(false, false)] (crowded rwLockFree) crowdedHandle 8 =
        some (out, m', h') ∧ out.ok = false ∧ ¬LocksKept (crowded rwLockFree) m') ∧
    ∃ out m' h', acquireBlockToRead {} (crowded writeExclusive) crowdedHandle 0 =
      some (out, m', h') ∧ out.ok = false ∧ LocksKept (crowded writeExclusive) m' := by
  constructor
  · refine ⟨_, _, _, rfl, rfl, fun hkept => ?_⟩
    have hrec := ((all_or_nothing_iff (h := crowdedHandle) (crowded_allAlive rwLockFree)).1
      [(false, false)] 8 _ _ _ rfl).mp fun _ => hkept
    exact absurd (hrec 0 0 _ rfl rfl) (by decide)
  · refine ⟨_, _, _, rfl, rfl, ?_⟩
    exact ((all_or_nothing_iff (h := crowdedHandle) (crowded_allAlive writeExclusive)).2 {} 0
      _ _ _ rfl).mpr (fun _ _ _ htarget => by cases htarget) rfl

/-- The call of a process that finds no place fails with the block locked. -/
theorem acquireBlockToWrite_crowded :
    (crowded rwLockFree).AllAlive ∧
      ∃ out m' h', acquireBlockToWrite [(false, false)] (crowded rwLockFree) crowdedHandle 8 =
          some (out, m', h') ∧
        out.ok = false ∧
        ((crowded rwLockFree).blockAt 0 0).map Block.lockNum = some rwLockFree ∧
        (m'.blockAt 0 0).map Block.lockNum = some writeExclusive :=
  ⟨crowded_allAlive _, _, _, _, rfl, rfl, rfl, rfl⟩

end ShmTest
