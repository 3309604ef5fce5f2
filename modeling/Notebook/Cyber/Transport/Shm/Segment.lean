import Notebook.Interleaving.Threads
import Notebook.Cyber.Transport.Shm.ShmConf

/-!
# Shared-memory segments under one name

The processes of a channel exchange messages through a POSIX shared-memory object named after the
channel (`transport/shm/segment.cc`, `transport/shm/posix_segment.cc`). Each process holds a
`Segment`, its view of the object it has mapped. A writer whose message is too large for the current
object replaces it: it marks the object as outdated, removes the name and creates a larger object;
the other processes find the mark and map whatever the name then stands for. The index of a written
block is sent to the readers by the notifier and may reach them at any later time.

An object stays alive while somebody maps it, so the model keeps every object ever created and lets
the name stand for one of them or for none. One action is one system call, or one access to the
`State` at the start of an object, together with the local computation up to the next one. The
`bool` of an action says whether a system call that may fail, or a `TryLock` on a block, succeeds.
-/

open Interleaving

namespace Cyber.Segment

/-! ### The shared-memory objects -/

/-- The `State` at the start of an object. The memory of a new object is zero-filled until its
creator has constructed the `State` there. -/
structure Shm where
  needRemap : Bool := false
  seq : ℕ := 0
  referenceCount : ℕ := 0
  ceilingMsgSize : ℕ := 0
deriving DecidableEq, Repr

/-- All objects created so far, numbered in the order of their creation, the one that the name of
the channel stands for, and the block indices that the writers have sent to the readers. -/
structure Store where
  shm : ℕ → Shm
  next : ℕ
  named : Option ℕ
  notified : List ℕ

variable (m : Store)

namespace Store

/-- `shm_open` with `O_CREAT | O_EXCL` when the name is free. -/
def create : Store := { m with next := m.next + 1, named := some m.next }

/-- `shm_open` of an existing object, with the `fstat` and `mmap` that follow. -/
def shmOpen (ok : Bool) : Option ℕ := if ok then m.named else none

/-- `shm_unlink` -/
def unlink : Store := { m with named := none }

/-- A write to the `State` of an object. -/
def modify (obj : ℕ) (f : Shm → Shm) : Store :=
  { m with shm := Function.update m.shm obj (f (m.shm obj)) }

/-- The block index in a `ReadableInfo` goes out to the readers. -/
def notify (index : ℕ) : Store := { m with notified := index :: m.notified }

/-- `new (managed_shm_) State(ceiling_msg_size)` -/
def construct (obj ceilingMsgSize : ℕ) : Store :=
  m.modify obj fun _ => { ceilingMsgSize }

end Store

/-- `State::IncreaseReferenceCounts` -/
def Shm.increaseReferenceCounts (x : Shm) : Shm :=
  { x with referenceCount := uint32 (x.referenceCount + 1) }

/-- `State::DecreaseReferenceCounts` -/
def Shm.decreaseReferenceCounts (x : Shm) : Shm :=
  { x with referenceCount := x.referenceCount - 1 }

/-! ### The view of a process -/

/-- The address of the buffer of a block: `sizeof(State) + blockNum * sizeof(Block) +
index * blockBufSize` bytes into the object. -/
structure BufAddr where
  obj : ℕ
  blockNum : ℕ
  blockBufSize : ℕ
  index : ℕ
deriving DecidableEq, Repr

/-- Where the buffer of the block `index` of the object lies in the layout of `conf`. -/
def bufAddr (obj : ℕ) (conf : ShmConf) (index : ℕ) : BufAddr :=
  ⟨obj, conf.blockNum, conf.blockBufSize, index⟩

/-- The fields of a `Segment`: `state_`, `blocks_` and `managed_shm_` all point into the object
`obj`, or are all null. An index without an entry in `block_buf_addrs_` reads as null. -/
structure Handle where
  init : Bool
  conf : ShmConf
  obj : Option ℕ
  blockBufAddrs : ℕ → Option BufAddr

namespace Handle

/-- The constructor of `Segment`. -/
def new : Handle := ⟨false, .update ShmConf.messageSize16K, none, fun _ => none⟩

/-- `Reset`, together with the `init_ = false` that precedes it in `Remap` and `Recreate`. -/
def reset (h : Handle) : Handle :=
  { h with init := false, obj := none, blockBufAddrs := fun _ => none }

/-- The common end of `OpenOrCreate` and `OpenOnly`: the configuration is taken from the ceiling
that the object stores, and the address of every block is recorded. -/
def attach (h : Handle) (obj ceilingMsgSize : ℕ) : Handle where
  init := true
  conf := .update ceilingMsgSize
  obj := some obj
  blockBufAddrs i :=
    if i < (ShmConf.update ceilingMsgSize).blockNum then
      some (bufAddr obj (.update ceilingMsgSize) i)
    else h.blockBufAddrs i

end Handle

/-- How the mapping came about on which a call of `AcquireBlockToWrite` takes its block: the
message was not larger than the ceiling in force, or `Recreate` made a new object, or `Recreate`
found that the name was taken again and opened that object, with the ceiling stored in it. -/
inductive Origin
  | kept
  | created
  | opened (ceilingMsgSize : ℕ)
deriving DecidableEq, Repr

/-- Where a process is in the functions of `Segment`. A call that returns `false` leaves it at
`idle`. The flag `grow` tells the `OpenOrCreate` of `Recreate` from the one at the start of
`AcquireBlockToWrite`. -/
inductive Pc
  | idle
  | create (msgSize : ℕ) (grow : Bool)
  | construct (msgSize : ℕ) (grow : Bool) (obj : ℕ)
  | openExisting (msgSize : ℕ) (grow : Bool)
  | writeNeedRemap (msgSize : ℕ)
  | writeRemap (msgSize : ℕ)
  | setNeedRemap (msgSize : ℕ)
  | remove (msgSize : ℕ)
  | nextWritable (msgSize : ℕ) (origin : Origin)
  | writing (msgSize : ℕ) (origin : Origin) (index : ℕ) (buf : Option BufAddr)
  | openOnly (index : ℕ)
  | readNeedRemap (index : ℕ)
  | readRemap (index : ℕ)
  | tryLockForRead (index : ℕ)
  | reading (index : ℕ) (buf : Option BufAddr)
  | referenceCounts
  | destroyed
  | crashed
deriving DecidableEq

/-- What a process does next: call a function, make its next access, or end its use of a block.
With `fail`, the `mmap` in `OpenOrCreate` fails, which removes the name. -/
inductive Act
  | acquireBlockToWrite (msgSize : ℕ)
  | acquireBlockToRead (index : ℕ)
  | step (ok : Bool)
  | fail
  | release
  | destroy
deriving DecidableEq, Repr

/-- A process with its `Segment`. -/
structure Process where
  handle : Handle
  pc : Pc

/-- `AcquireBlockToWrite` after the remap: the size test that may lead to `Recreate`. -/
def sizeTest (h : Handle) (msgSize : ℕ) : Pc :=
  if h.conf.ceilingMsgSize < msgSize then .setNeedRemap msgSize else .nextWritable msgSize .kept

/-- `AcquireBlockToRead` after opening: the range test of the index. -/
def rangeTest (h : Handle) (index : ℕ) : Pc :=
  if h.conf.blockNum ≤ index then .idle else .readNeedRemap index

/-- The end of an `OpenOnly` that has mapped `obj`. -/
def attach (m : Store) (h : Handle) (obj : ℕ) (pc : Handle → Pc) : Store × Process :=
  let h' := h.attach obj (m.shm obj).ceilingMsgSize
  (m.modify obj .increaseReferenceCounts, ⟨h', pc h'⟩)

/-- The functions of `Segment`, one access to the shared objects at a time. A null `state_` that
is read crashes the process. -/
def access (m : Store) (h : Handle) : Pc → Act → Option (Store × Process)
  | .idle, .acquireBlockToWrite n =>
    some (m, ⟨h, if h.init then .writeNeedRemap n else .create n false⟩)
  | .create n grow, .step ok =>
    match m.named with
    | some _ => some (m, ⟨h, .openExisting n grow⟩)
    | none =>
      if ok then some (m.create, ⟨h, .construct n grow m.next⟩) else some (m, ⟨h, .idle⟩)
  | .construct n grow obj, .step ok =>
    -- with `ok` false the `ftruncate` fails: the object stays under the name, empty
    if ok then
      some (attach (m.construct obj h.conf.ceilingMsgSize) h obj fun _ =>
        if grow then .nextWritable n .created else .writeNeedRemap n)
    else some (m, ⟨h, .idle⟩)
  | .construct _ _ _, .fail => some (m.unlink, ⟨h, .idle⟩)
  | .openExisting n grow, .step ok =>
    match m.shmOpen ok with
    | some obj =>
      some (attach m h obj fun _ =>
        if grow then .nextWritable n (.opened (m.shm obj).ceilingMsgSize) else .writeNeedRemap n)
    | none => some (m, ⟨h, .idle⟩)
  | .writeNeedRemap n, .step _ =>
    match h.obj with
    | some obj => some (m, ⟨h, if (m.shm obj).needRemap then .writeRemap n else sizeTest h n⟩)
    | none => some (m, ⟨h, .crashed⟩)
  | .writeRemap n, .step ok =>
    match m.shmOpen ok with
    | some obj => some (attach m h.reset obj fun h' => sizeTest h' n)
    -- the size test comes before the test of `result`
    | none => some (m, ⟨h.reset, if h.conf.ceilingMsgSize < n then .setNeedRemap n else .idle⟩)
  | .setNeedRemap n, .step _ =>
    match h.obj with
    | some obj =>
      some (m.modify obj fun x => { x with needRemap := true }, ⟨h.reset, .remove n⟩)
    | none => some (m, ⟨h, .crashed⟩)
  | .remove n, .step ok =>
    some (if ok then m.unlink else m, ⟨{ h with conf := .update n }, .create n true⟩)
  | .nextWritable n origin, .step ok =>
    match h.obj with
    | some obj =>
      let index := (m.shm obj).seq % h.conf.blockNum
      some (m.modify obj fun x => { x with seq := uint32 (x.seq + 1) },
        ⟨h, if ok then .writing n origin index (h.blockBufAddrs index)
          else .nextWritable n origin⟩)
    | none => some (m, ⟨h, .crashed⟩)
  | .writing _ _ index _, .release => some (m.notify index, ⟨h, .idle⟩)
  | .idle, .acquireBlockToRead i =>
    if i ∈ m.notified then some (m, ⟨h, if h.init then rangeTest h i else .openOnly i⟩) else none
  | .openOnly i, .step ok =>
    match m.shmOpen ok with
    | some obj => some (attach m h obj fun h' => rangeTest h' i)
    | none => some (m, ⟨h, .idle⟩)
  | .readNeedRemap i, .step _ =>
    match h.obj with
    | some obj => some (m, ⟨h, if (m.shm obj).needRemap then .readRemap i else .tryLockForRead i⟩)
    | none => some (m, ⟨h, .crashed⟩)
  | .readRemap i, .step ok =>
    match m.shmOpen ok with
    | some obj => some (attach m h.reset obj fun _ => .tryLockForRead i)
    | none => some (m, ⟨h.reset, .idle⟩)
  | .tryLockForRead i, .step ok =>
    some (m, ⟨h, if ok then .reading i (h.blockBufAddrs i) else .idle⟩)
  | .reading _ _, .release => some (m, ⟨h, .idle⟩)
  | .idle, .destroy =>
    if h.init then
      match h.obj with
      | some obj =>
        some (m.modify obj .decreaseReferenceCounts, ⟨{ h with init := false }, .referenceCounts⟩)
      | none => some (m, ⟨h, .crashed⟩)
    else some (m, ⟨h, .destroyed⟩)
  | .referenceCounts, .step ok =>
    match h.obj with
    | some obj =>
      some (if (m.shm obj).referenceCount = 0 ∧ ok then m.unlink else m, ⟨h, .destroyed⟩)
    | none => some (m, ⟨h, .crashed⟩)
  | _, _ => none

/-- The program of a process. -/
def prog (m : Store) (p : Process) (a : Act) : Option (Store × Process) :=
  access m p.handle p.pc a

variable {T : Type*} [DecidableEq T]

/-- The processes of a channel. -/
abbrev State (T : Type*) : Type _ := Threads Store T Process

/-- No object exists, and every process has a new `Segment`. -/
def init (T : Type*) : State T := ⟨⟨fun _ => {}, 0, none, []⟩, fun _ => ⟨.new, .idle⟩⟩

/-- One access of one process. -/
abbrev step : State T → T × Act → Option (State T) := Threads.step prog

end Cyber.Segment
