import Notebook.Cyber.Transport.Shm.ShmConf
import Notebook.ShmTest.Block

/-!
# Shared-memory objects and the handles of `SHM_TEST`

The processes of a topic exchange messages through a POSIX shared-memory object that is named after
the topic. An `AllocMemory` (`shm_src/alloc_memory.cpp`, `shm_src/alloc_memory_base.cpp`) is the
handle that one process holds on it: a writer makes the object with `Create`, a reader maps it with
`OpenOnly`. A `Create` that finds the name taken replaces the object: it removes the name, makes a
new object and sets the need-remap flag, in the new object. A reader that finds the flag set in the
object it has mapped maps again whatever the name stands for.

An object stays alive while somebody maps it, so the model keeps every object ever created. What the
environment decides is an argument of the calls: whether a system call succeeds, whether a
`compare_exchange_weak` fails spuriously, and what `AcquireBlockToRead` makes of memory beyond the
blocks. A list of such answers feeds a loop or a recursion, one answer for each round; when it runs
out, the call has not returned, and the result is `none`.

## Main definitions

* `Store`, `Handle` — the objects with their names, and the handles.
* `create`, `openOnly`, `destroy`, `acquireBlockToWrite`, `acquireBlockToRead` — the calls.

## Main results

* `openOnly_cases`, `create_cases` — what the calls that attach a handle can do.
-/

open Interleaving Function

namespace ShmTest

/-! ### Configuration -/

/-- `ShmQosProp` -/
structure ShmQosProp where
  topicName : String
  blockSize : ℕ
  blockCount : ℕ
deriving DecidableEq, Repr

/-- `ShmConf` -/
structure ShmConf where
  msgSize : ℕ
  ceilingMsgSize : ℕ
  blockBufSize : ℕ
  blockNum : ℕ
deriving DecidableEq, Repr

namespace ShmConf

/-- `GetCeilingMessageSize`, with the table of size classes of `my_cyber`. -/
def getCeilingMessageSize : ℕ → ℕ := Cyber.ShmConf.getCeilingMessageSize

/-- `GetBlockBufSize` -/
def getBlockBufSize : ℕ → ℕ := Cyber.ShmConf.getBlockBufSize

/-- `Update(blockSize, blockCount)`, which leaves `m_msgSize` as it is. -/
def update (conf : ShmConf) (blockSize blockCount : ℕ) : ShmConf :=
  let ceilingMsgSize := getCeilingMessageSize blockSize
  { conf with
    ceilingMsgSize, blockBufSize := getBlockBufSize ceilingMsgSize, blockNum := blockCount }

/-- `ShmConf(prop)` -/
def ofProp (prop : ShmQosProp) : ShmConf :=
  let ceilingMsgSize := getCeilingMessageSize prop.blockSize
  { msgSize := prop.blockSize, ceilingMsgSize, blockBufSize := getBlockBufSize ceilingMsgSize
    blockNum := prop.blockCount }

/-- `ShmConf()`, with `DEFAULT_BLOCK_SIZE` and `DEFAULT_BLOCK_NUM`. -/
def default : ShmConf where
  msgSize := 0
  ceilingMsgSize := 1024 * 1024 * 8
  blockBufSize := 1024 * 1024 * 8 + Cyber.ShmConf.messageInfoSize
  blockNum := 32

/-- `MsgSize()`, which returns a `uint32_t`. -/
def getMsgSize (conf : ShmConf) : ℕ := uint32 conf.msgSize

end ShmConf

/-! ### Objects -/

/-- The fields of a `Block` that take part in locking. -/
structure Block where
  lockNum : ℤ
  pidSet : List ℕ
deriving DecidableEq, Repr

/-- A new `Block`. -/
def Block.new : Block := ⟨0, List.replicate maxProcessNum 0⟩

/-- The contents of an object: the `State` at its start and the blocks. -/
structure Segment where
  needRemap : Bool
  seq : ℕ
  referenceCount : ℕ
  ceilingMsgSize : ℕ
  blockNum : ℕ
  blocks : List Block
deriving DecidableEq, Repr

/-- `new State(ceilingMsgSize, blockNum)` and `new Block[blockNum]` -/
def Segment.new (ceilingMsgSize blockNum : ℕ) : Segment :=
  ⟨false, 0, 0, ceilingMsgSize, blockNum, List.replicate blockNum .new⟩

/-- `State::IncreaseReferenceCounts` -/
def Segment.increaseReferenceCounts (seg : Segment) : Segment :=
  { seg with referenceCount := uint32 (seg.referenceCount + 1) }

/-- `State::DecreaseReferenceCounts` -/
def Segment.decreaseReferenceCounts (seg : Segment) : Segment :=
  { seg with referenceCount := seg.referenceCount - 1 }

/-- All objects created so far, numbered in the order of their creation, what each name stands for,
and the processes that have died. An object without contents has size `0`. -/
structure Store where
  shm : ℕ → Option Segment
  next : ℕ
  named : ℕ → Option ℕ
  dead : ℕ → Bool

namespace Store

variable (m : Store) (shmName : ℕ)

/-- `shm_open` with `O_CREAT | O_EXCL` when the name is free. -/
def shmCreate (m : Store) (shmName : ℕ) : Store where
  shm := update m.shm m.next none
  next := m.next + 1
  named := update m.named shmName (some m.next)
  dead := m.dead

/-- `shm_unlink` -/
def unlink (m : Store) (shmName : ℕ) : Store :=
  { m with named := update m.named shmName none }

/-- The contents of an object are written. -/
def set (m : Store) (obj : ℕ) (seg : Segment) : Store :=
  { m with shm := update m.shm obj (some seg) }

/-- A block of an object is written. -/
def setBlock (m : Store) (obj : ℕ) (seg : Segment) (index : ℕ) (b : Block) : Store :=
  m.set obj { seg with blocks := seg.blocks.set index b }

@[simp] theorem unlink_unlink : (m.unlink shmName).unlink shmName = m.unlink shmName := by
  simp [unlink]

@[simp] theorem shmCreate_unlink : (m.unlink shmName).shmCreate shmName = m.shmCreate shmName := by
  simp [unlink, shmCreate]

@[simp] theorem set_set (m : Store) (obj : ℕ) (seg seg' : Segment) :
    (m.set obj seg).set obj seg' = m.set obj seg' := by
  simp [set]

@[simp] theorem set_shm (m : Store) (obj : ℕ) (seg : Segment) :
    (m.set obj seg).shm obj = some seg :=
  update_self ..

end Store

/-! ### Handles -/

/-- The address of the buffer of a block: `sizeof(State) + blockNum * sizeof(Block) +
index * blockBufSize` bytes into the object. -/
structure BufAddr where
  obj : ℕ
  blockNum : ℕ
  blockBufSize : ℕ
  index : ℕ
deriving DecidableEq, Repr

/-- The fields of an `AllocMemory` in the process `pid`: `m_state`, `m_blocks` and `m_managedShm`
all point into the object `obj`, or are all null. -/
structure Handle where
  pid : ℕ
  shmName : ℕ
  init : Bool
  conf : ShmConf
  obj : Option ℕ
  blockBufAddrs : ℕ → Option BufAddr

/-- The constructors of `AllocMemory`. -/
def Handle.new (pid shmName : ℕ) (conf : ShmConf) : Handle :=
  ⟨pid, shmName, false, conf, none, fun _ => none⟩

/-- `Reset`, together with the `m_init = false` that precedes it in `Remap` and `Recreate`. -/
def Handle.reset (h : Handle) : Handle :=
  { h with init := false, obj := none, blockBufAddrs := fun _ => none }

/-- What `m_state` and `m_blocks` point to. -/
def Store.segment (m : Store) (h : Handle) : Option Segment := h.obj.bind m.shm

/-- Which of the system calls that can fail do succeed. -/
structure Os where
  shmOpen : Bool := true
  fstat : Bool := true
  ftruncate : Bool := true
  mmap : Bool := true
  unlink : Bool := true
deriving DecidableEq, Repr

/-- The common end of `Create` and `OpenOnly`: the configuration is taken from the `State`, the
address of every block is recorded, and the reference is counted. -/
def attach (m : Store) (h : Handle) (obj : ℕ) (seg : Segment) : Store × Handle :=
  let conf := h.conf.update seg.ceilingMsgSize seg.blockNum
  (m.set obj seg.increaseReferenceCounts,
    { h with
      init := true
      conf
      obj := some obj
      blockBufAddrs := fun i =>
        if i < conf.blockNum then some ⟨obj, conf.blockNum, conf.blockBufSize, i⟩
        else h.blockBufAddrs i })

/-- `OpenOnly` -/
def openOnly (os : Os) (m : Store) (h : Handle) : Bool × Store × Handle :=
  if h.init then (true, m, h)
  else
    match m.named h.shmName with
    | none => (false, m, h)
    | some obj =>
      if os.shmOpen && os.fstat && os.mmap then
        match m.shm obj with
        -- an object of size `0` cannot be mapped
        | none => (false, m, h)
        | some seg => (true, attach m h obj seg)
      else (false, m, h)

/-- `Create` when the name is free. -/
def createNew (os : Os) (m : Store) (h : Handle) : Bool × Store × Handle :=
  if os.shmOpen then
    let obj := m.next
    let m := m.shmCreate h.shmName
    -- the object stays under the name, empty
    if !os.ftruncate then (false, m, h)
    else if !os.mmap then (false, m.unlink h.shmName, h)
    else (true, attach m h obj (.new h.conf.getMsgSize h.conf.blockNum))
  else (false, m, h)

/-- `m_state->SetNeedRemap(true)` -/
def setNeedRemap (m : Store) (h : Handle) : Store :=
  match h.obj with
  | none => m
  | some obj =>
    match m.shm obj with
    | none => m
    | some seg => m.set obj { seg with needRemap := true }

/-- `Recreate`, with the `Create` that it calls. -/
def recreate (create : Store → Handle → Option (Bool × Store × Handle)) (os : Os) (m : Store)
    (h : Handle) (msgSize blockNum : ℕ) : Option (Bool × Store × Handle) :=
  let h := h.reset
  let m := if os.unlink then m.unlink h.shmName else m
  match create m { h with conf := h.conf.update msgSize blockNum } with
  | none => none
  | some (ok, m, h) => if ok then some (true, setNeedRemap m h, h) else some (false, m, h)

/-- `Create`. It calls `Recreate` when the name is taken, and `Recreate` calls it again; each round
of this takes one element of the list. -/
def create : List Os → Store → Handle → Option (Bool × Store × Handle)
  | [], _, _ => none
  | os :: rest, m, h =>
    if h.init then some (true, m, h)
    else
      match m.named h.shmName with
      | none => some (createNew os m h)
      | some _ =>
        if os.shmOpen then
          recreate (create rest) os m h h.conf.getMsgSize h.conf.blockNum
        else some (false, m, h)

/-- `Remap` -/
def remap (os : Os) (m : Store) (h : Handle) : Bool × Store × Handle := openOnly os m h.reset

/-- `Remove` -/
def remove (os : Os) (m : Store) (h : Handle) : Bool × Store :=
  if os.unlink && (m.named h.shmName).isSome then (true, m.unlink h.shmName) else (false, m)

/-- `Destroy` -/
def destroy (os : Os) (m : Store) (h : Handle) : Option (Bool × Store × Handle) :=
  if h.init then
    match h.obj with
    | none => none
    | some obj =>
      match m.shm obj with
      | none => none
      | some seg =>
        let h := { h with init := false }
        let m := m.set obj seg.decreaseReferenceCounts
        if seg.decreaseReferenceCounts.referenceCount = 0 then
          let r := remove os m h
          some (r.1, r.2, h)
        else some (true, m, h)
  else some (true, m, h)

/-! ### Locking a block -/

namespace Mem

/-- `TryLockForWrite` and `TryLockForRead` without interference. With `spurious` the exchange fails
although the values agree, `MAX_TRY_LOCK_TIMES` times in `TryLockForRead`. -/
def tryLock (m : Mem) (spurious : Bool) : Mode → Option Mem
  | .write =>
    if m.lockNum = rwLockFree ∧ ¬spurious then some { m with lockNum := writeExclusive }
    else none
  | .read =>
    if rwLockFree ≤ m.lockNum ∧ ¬spurious then
      some { m with lockNum := int32 (m.lockNum + 1) }
    else none

/-- The attempts of `AcquireBlockToRead`, and of one round of `GetNextWritableBlockIndex`, to lock a
block: the try-lock, and, if it fails and `AnyAlive` finds nobody alive, a second one. -/
def lock (self : ℕ) (mode : Mode) (spurious : Bool × Bool) (m : Mem) : Bool × Mem :=
  match m.tryLock spurious.1 mode with
  | some m' => (true, m')
  | none =>
    let r := m.anyAlive self
    if r.1 then (false, r.2)
    else
      match r.2.tryLock spurious.2 mode with
      | some m' => (true, m')
      | none => (false, r.2)

end Mem

/-- A block together with the processes that have died. -/
def Block.mem (b : Block) (dead : ℕ → Bool) : Mem := ⟨b.lockNum, b.pidSet, dead⟩

/-- The fields of a block in a `Mem`. -/
def Mem.block (m : Mem) : Block := ⟨m.lockNum, m.pidSet⟩

/-- What a call that acquires a block returns: its result and the fields of the `WritableBlock` or
`ReadableBlock`, with the block by its object and index. The fields are set when the block has been
locked. -/
structure Acquired where
  ok : Bool
  block : Option (ℕ × ℕ)
  buf : Option BufAddr
deriving DecidableEq, Repr

/-- A call that fails before it has locked a block. -/
def Acquired.failed : Acquired := ⟨false, none, none⟩

/-- The end of `AcquireBlockToWrite` and of `AcquireBlockToRead`: the block is locked, and the
result is that of `Insert`. -/
def recordPid (m : Store) (h : Handle) (obj index : ℕ) (seg : Segment) (b : Block) :
    Acquired × Store :=
  match LocklessSet.insert h.pid b.pidSet with
  | some pidSet => (⟨true, some (obj, index), h.blockBufAddrs index⟩,
      m.setBlock obj seg index { b with pidSet })
  | none => (⟨false, some (obj, index), h.blockBufAddrs index⟩, m)

/-- What the environment decides in a call of `AcquireBlockToRead`: the system calls of `OpenOnly`
and of `Remap`, the exchanges of the two try-locks, and what the memory beyond the blocks is taken
for when the index lies there. -/
structure ReadEnv where
  openOnly : Os := {}
  remap : Os := {}
  spurious : Bool × Bool := (false, false)
  beyond : Bool := false
deriving DecidableEq, Repr

/-- `AcquireBlockToRead` from the try-lock on. -/
def lockToRead (env : ReadEnv) (m : Store) (h : Handle) (index : ℕ) :
    Option (Acquired × Store × Handle) :=
  match h.obj with
  | none => none
  | some obj =>
    match m.shm obj with
    | none => none
    | some seg =>
      match seg.blocks[index]? with
      -- the lock and the set of process ids are looked for in the buffer of a block
      | none => some (⟨env.beyond, some (obj, index), h.blockBufAddrs index⟩, m, h)
      | some b =>
        let r := (b.mem m.dead).lock h.pid .read env.spurious
        let b := r.2.block
        let seg := { seg with blocks := seg.blocks.set index b }
        let m := m.set obj seg
        if r.1 then
          let r := recordPid m h obj index seg b
          some (r.1, r.2, h)
        else some (.failed, m, h)

/-- `AcquireBlockToRead` -/
def acquireBlockToRead (env : ReadEnv) (m : Store) (h : Handle) (index : ℕ) :
    Option (Acquired × Store × Handle) :=
  let r := openOnly env.openOnly m h
  let m := r.2.1
  let h := r.2.2
  if !r.1 then some (.failed, m, h)
  else if h.conf.blockNum ≤ index then some (.failed, m, h)
  else
    match m.segment h with
    | none => none
    | some seg =>
      if seg.needRemap then
        let r := remap env.remap m h
        if !r.1 then some (.failed, r.2.1, r.2.2) else lockToRead env r.2.1 r.2.2 index
      else lockToRead env m h index

/-- `GetNextWritableBlockIndex`. With `blockNum = 0` the process divides by zero. -/
def getNextWritableBlockIndex (self blockNum obj : ℕ) :
    List (Bool × Bool) → Store → Option (ℕ × Store)
  | [], _ => none
  | spurious :: rest, m =>
    if blockNum = 0 then none
    else
      match m.shm obj with
      | none => none
      | some seg =>
        let tryIdx := seg.seq % blockNum
        let seg := { seg with seq := uint32 (seg.seq + 1) }
        match seg.blocks[tryIdx]? with
        | none => none
        | some b =>
          let r := (b.mem m.dead).lock self .write spurious
          let m := m.setBlock obj seg tryIdx r.2.block
          if r.1 then some (tryIdx, m) else getNextWritableBlockIndex self blockNum obj rest m

/-- `AcquireBlockToWrite` -/
def acquireBlockToWrite (spurious : List (Bool × Bool)) (m : Store) (h : Handle) (msgSize : ℕ) :
    Option (Acquired × Store × Handle) :=
  if !h.init then some (.failed, m, h)
  else if h.conf.ceilingMsgSize < msgSize then some (.failed, m, h)
  else
    match h.obj with
    | none => none
    | some obj =>
      match getNextWritableBlockIndex h.pid h.conf.blockNum obj spurious m with
      | none => none
      | some (index, m) =>
        match m.shm obj with
        | none => none
        | some seg =>
          match seg.blocks[index]? with
          | none => none
          | some b =>
            let r := recordPid m h obj index seg b
            some (r.1, r.2, h)

/-- `ReleaseWrittenBlock` and `ReleaseReadBlock` -/
def releaseBlock (release : Mem → Mem) (m : Store) (h : Handle) (index : ℕ) :
    Option (Bool × Store) :=
  if h.conf.blockNum ≤ index then some (false, m)
  else
    match h.obj with
    | none => none
    | some obj =>
      match m.shm obj with
      | none => none
      | some seg =>
        match seg.blocks[index]? with
        | none => some (true, m)
        | some b => some (true, m.setBlock obj seg index (release (b.mem m.dead)).block)

/-- `ReleaseWrittenBlock` -/
def releaseWrittenBlock : Store → Handle → ℕ → Option (Bool × Store) :=
  releaseBlock Mem.releaseWriteLock

/-- `ReleaseReadBlock` -/
def releaseReadBlock : Store → Handle → ℕ → Option (Bool × Store) :=
  releaseBlock Mem.releaseReadLock

/-! ### What attaching does -/

section Attaching

variable (os : Os) (m : Store) (h : Handle)

/-- `OpenOnly` does nothing on an initialised handle; otherwise it fails without effect, or attaches
the handle to the object that the name stands for. -/
theorem openOnly_cases :
    h.init = true ∧ openOnly os m h = (true, m, h) ∨
    h.init = false ∧ openOnly os m h = (false, m, h) ∨
    h.init = false ∧ ∃ obj seg, m.named h.shmName = some obj ∧ m.shm obj = some seg ∧
      openOnly os m h = (true, attach m h obj seg) := by
  unfold openOnly
  by_cases hinit : h.init = true
  · exact .inl ⟨hinit, if_pos hinit⟩
  · rw [if_neg hinit]
    have hinit : h.init = false := Bool.eq_false_iff.mpr hinit
    refine .inr ?_
    split
    · exact .inl ⟨hinit, rfl⟩
    · rename_i obj hobj
      split
      · split
        · exact .inl ⟨hinit, rfl⟩
        · rename_i seg hseg
          exact .inr ⟨hinit, obj, seg, hobj, hseg, rfl⟩
      · exact .inl ⟨hinit, rfl⟩

/-- What `Create` can leave of the objects and of the name when it fails. -/
inductive CreateFailed (m : Store) (shmName : ℕ) : Store → Prop
  | kept : CreateFailed m shmName m
  | unlinked : CreateFailed m shmName (m.unlink shmName)
  | empty : CreateFailed m shmName (m.shmCreate shmName)
  | removed : CreateFailed m shmName ((m.shmCreate shmName).unlink shmName)

/-- The object that `Create` makes: its blocks are new, its handle is the only one that is counted,
and it is flagged when the name was taken. -/
structure Created (m : Store) (h : Handle) (m' : Store) (h' : Handle) (seg : Segment) : Prop where
  store : m' = (m.shmCreate h.shmName).set m.next seg
  init : h'.init = true
  obj : h'.obj = some m.next
  pid : h'.pid = h.pid
  conf : h'.conf = h.conf.update h.conf.getMsgSize h.conf.blockNum
  seq : seg.seq = 0
  blocks : seg.blocks = List.replicate h.conf.blockNum .new
  referenceCount : seg.referenceCount = 1
  needRemap : seg.needRemap = (m.named h.shmName).isSome

variable {m h}

theorem createNew_cases (os : Os) (hinit : h.init = false) (hname : m.named h.shmName = none) :
    (createNew os m h).2.2.shmName = h.shmName ∧
      ((createNew os m h).1 = false ∧ (createNew os m h).2.2.init = false ∧
          CreateFailed m h.shmName (createNew os m h).2.1 ∨
        (createNew os m h).1 = true ∧
          ∃ seg, Created m h (createNew os m h).2.1 (createNew os m h).2.2 seg) := by
  rw [createNew]
  split
  · simp only
    split
    · exact ⟨rfl, .inl ⟨rfl, hinit, .empty⟩⟩
    · split
      · exact ⟨rfl, .inl ⟨rfl, hinit, .removed⟩⟩
      · exact ⟨rfl, .inr ⟨rfl, _, rfl, rfl, rfl, rfl, rfl, rfl, rfl, rfl, by rw [hname]; rfl⟩⟩
  · exact ⟨rfl, .inl ⟨rfl, hinit, .kept⟩⟩

variable {m' : Store}

theorem CreateFailed.of_unlink {shmName : ℕ} {unlink : Bool}
    (hfailed : CreateFailed (if unlink then m.unlink shmName else m) shmName m') :
    CreateFailed m shmName m' := by
  cases unlink with
  | false => exact hfailed
  | true =>
    rw [if_pos rfl] at hfailed
    cases hfailed with
    | kept => exact .unlinked
    | unlinked =>
      rw [Store.unlink_unlink]
      exact .unlinked
    | empty =>
      rw [Store.shmCreate_unlink]
      exact .empty
    | removed =>
      rw [Store.shmCreate_unlink]
      exact .removed

/-- A round of `Recreate` flags the object that the `Create` in it has made. -/
theorem Created.of_unlink {unlink : Bool} {h₀ h' : Handle} {seg : Segment}
    (hcreated : Created (if unlink then m.unlink h.shmName else m) h₀ m' h' seg)
    (hshmName : h₀.shmName = h.shmName) (hpid : h₀.pid = h.pid)
    (hconf : h₀.conf = h.conf.update h.conf.getMsgSize h.conf.blockNum)
    (hname : (m.named h.shmName).isSome) :
    Created m h (setNeedRemap m' h') h' { seg with needRemap := true } := by
  have hnext : (if unlink then m.unlink h.shmName else m).next = m.next := by split <;> rfl
  have hshm : (if unlink then m.unlink h.shmName else m).shmCreate h.shmName =
      m.shmCreate h.shmName := by
    split
    · exact Store.shmCreate_unlink m h.shmName
    · rfl
  have hstore := hcreated.store
  have hobj := hcreated.obj
  rw [hshmName, hnext, hshm] at hstore
  rw [hnext] at hobj
  refine ⟨?_, hcreated.init, hobj, hcreated.pid.trans hpid, ?_, hcreated.seq, ?_,
    hcreated.referenceCount, hname.symm⟩
  · rw [setNeedRemap, hobj, hstore]
    simp
  · rw [hcreated.conf, hconf]
    rfl
  · have hblocks := hcreated.blocks
    rwa [hconf] at hblocks

theorem create_of_free (os : List Os) (hinit : h.init = false) (hnamed : m.named h.shmName = none) :
    ∃ m' h', create ({} :: os) m h = some (true, m', h') :=
  ⟨_, _, by rw [create, hnamed, if_neg (by simp [hinit])]; rfl⟩

theorem create_succeeds (m : Store) (hinit : h.init = false) :
    ∃ m' h', create [{}, {}] m h = some (true, m', h') := by
  cases hnamed : m.named h.shmName with
  | none => exact create_of_free [{}] hinit hnamed
  | some obj =>
    -- the second round finds the name removed
    have hunlinked : (m.unlink h.shmName).named h.shmName = none := update_self ..
    obtain ⟨m', h', hcreate⟩ := create_of_free []
      (h := { h.reset with conf := h.conf.update h.conf.getMsgSize h.conf.blockNum }) rfl hunlinked
    refine ⟨setNeedRemap m' h', h', ?_⟩
    rw [create, hnamed, if_neg (by simp [hinit])]
    simp only [if_true, recreate, Handle.reset] at hcreate ⊢
    rw [hcreate]
    rfl

/-- `Create` does nothing on an initialised handle; otherwise it fails, and the handle stays
uninitialised, or it makes a new object. -/
theorem create_cases {os : List Os} {ok : Bool} {h' : Handle}
    (hcall : create os m h = some (ok, m', h')) :
    h'.shmName = h.shmName ∧
      (h.init = true ∧ ok = true ∧ m' = m ∧ h' = h ∨
        h.init = false ∧ ok = false ∧ h'.init = false ∧ CreateFailed m h.shmName m' ∨
        h.init = false ∧ ok = true ∧ ∃ seg, Created m h m' h' seg) := by
  induction os generalizing m h ok m' h' with
  | nil => cases hcall
  | cons os rest ih =>
    rw [create] at hcall
    split at hcall
    · rename_i hinit
      cases hcall
      exact ⟨rfl, .inl ⟨hinit, rfl, rfl, rfl⟩⟩
    rename_i hinit
    have hinit : h.init = false := Bool.eq_false_iff.mpr hinit
    split at hcall
    · rename_i hname
      obtain ⟨hshmName, hres⟩ := createNew_cases os hinit hname
      generalize createNew os m h = r at hcall hshmName hres
      cases hcall
      refine ⟨hshmName, .inr ?_⟩
      rcases hres with ⟨hok, hinit', hfailed⟩ | ⟨hok, hcreated⟩
      · exact .inl ⟨hinit, hok, hinit', hfailed⟩
      · exact .inr ⟨hinit, hok, hcreated⟩
    rename_i obj hname
    split at hcall
    · rw [recreate] at hcall
      split at hcall
      · cases hcall
      rename_i ok₁ m₁ h₁ hcall₁
      obtain ⟨hshmName, hres⟩ := ih hcall₁
      rcases hres with ⟨hinit₁, -⟩ | ⟨-, rfl, hinit₁, hfailed⟩ | ⟨-, rfl, seg, hcreated⟩
      · cases hinit₁
      · cases hcall
        exact ⟨hshmName, .inr (.inl ⟨hinit, rfl, hinit₁, hfailed.of_unlink⟩)⟩
      · cases hcall
        have hcreated := Created.of_unlink (h := h) hcreated rfl rfl rfl (by rw [hname]; rfl)
        exact ⟨hshmName, .inr (.inr ⟨hinit, rfl, _, hcreated⟩)⟩
    · cases hcall
      exact ⟨rfl, .inr (.inl ⟨hinit, rfl, hinit, .kept⟩)⟩

end Attaching

end ShmTest
