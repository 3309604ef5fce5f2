import Notebook.Cyber.Message.MessageTraits
import Notebook.Cyber.Transport.Shm.Block
import Notebook.Cyber.Transport.Shm.ShmConf

/-!
# A channel over shared memory

`ShmTransmitter::Transmit` (`transport/transmitter/shm_transmitter.h`) takes the next free block of
the segment of the channel, writes the message, its size and its `MessageInfo` into the block,
releases the block, and notifies the dispatchers of the index. `ShmDispatcher::ReadMessage`
(`transport/dispatcher/shm_dispatcher.cc`) locks the block of that index for reading, some time
later, and hands what it finds there to the listeners. Between the release and this lock nobody
holds the block: when the round-robin index has come round, another `Transmit` may have rewritten
it, or failed half way.

The model has any number of threads that transmit and dispatch, over one segment that is never
recreated. One action is one atomic operation on the lock of a block, one access to its fields or
its buffer, or the notification. The notifications are a list; every dispatcher takes each of them
once, in their order, at any later time. A block remembers which `Transmit` took it last.
-/

open Interleaving CountedLock ByteMemory Function

namespace Cyber

/-- The functions of `message_traits.h` for the messages of type `M`: `ByteSize`, `SerializeToArray`
into a buffer of that size, with its result and the bytes it has written, and `ParseFromArray`. -/
structure MessageTraits (M : Type*) where
  byteSize : M → ℕ
  serializeToArray : M → Bool × List UInt8
  parseFromArray : List UInt8 → Option M
  length_le : ∀ msg, (serializeToArray msg).2.length ≤ byteSize msg
  length_eq : ∀ msg, (serializeToArray msg).1 = true →
    (serializeToArray msg).2.length = byteSize msg

/-- What a message type parses from a message that it has serialized is that message. -/
def MessageTraits.RoundTrip {M : Type*} (traits : MessageTraits M) : Prop :=
  ∀ msg msg', (traits.serializeToArray msg).1 = true →
    traits.parseFromArray (traits.serializeToArray msg).2 = some msg' → msg' = msg

/-- The traits of `RawMessage`. -/
def RawMessage.traits : MessageTraits RawMessage where
  byteSize msg := msg.message.length
  serializeToArray msg := (true, msg.message)
  parseFromArray data := if data.length = 0 then none else some { message := data }
  length_le _ := le_rfl
  length_eq _ _ := rfl

namespace ShmChannel

variable {M : Type*}

/-- A call of `Transmit`, with its number among all calls. -/
structure Tx (M : Type*) where
  id : ℕ
  msg : M
  info : MessageInfo
deriving DecidableEq

/-- The fields of a `Block` other than its lock, its buffer, and the `Transmit` that was the last to
lock the block. -/
structure Data (M : Type*) where
  msgSize : ℕ := 0
  msgInfoSize : ℕ := 0
  buf : ℕ → UInt8 := fun _ => 0
  takenBy : Option (Tx M) := none

/-- The segment, the number of `Transmit` calls, and the notifications: the calls that have sent
them and the block indices in their `ReadableInfo`s. -/
structure Channel (M : Type*) where
  seq : ℕ := 0
  lock : ℕ → Block.Mem := fun _ => ⟨0⟩
  data : ℕ → Data M := fun _ => {}
  calls : ℕ := 0
  notified : List (Tx M × ℕ) := []

namespace Channel

variable (m : Channel M)

/-- A change of the lock of the block `index`. -/
def setLock (index : ℕ) (b : Block.Mem) : Channel M :=
  { m with lock := update m.lock index b }

/-- A write to the block `index`. -/
def modify (index : ℕ) (f : Data M → Data M) : Channel M :=
  { m with data := update m.data index (f (m.data index)) }

/-- `ReleaseWrittenBlock` -/
def releaseWrittenBlock (conf : ShmConf) (index : ℕ) : Channel M :=
  if conf.blockNum ≤ index then m else m.setLock index ⟨int32 ((m.lock index).lockNum + 1)⟩

/-- `ReleaseReadBlock` -/
def releaseReadBlock (conf : ShmConf) (index : ℕ) : Channel M :=
  if conf.blockNum ≤ index then m else m.setLock index ⟨int32 ((m.lock index).lockNum - 1)⟩

end Channel

/-- A message handed to the listeners for the notification `number`. -/
structure Delivery (M : Type*) where
  number : ℕ
  msg : M
  info : MessageInfo
deriving DecidableEq

/-- Where a thread is in `Transmit` or `ReadMessage`, by the operation that it makes next. -/
inductive Pc (M : Type*)
  | idle
  | nextWritable (tx : Tx M)
  | lockForWrite (tx : Tx M) (index : ℕ)
  | serialize (tx : Tx M) (index : ℕ)
  | setMsgSize (tx : Tx M) (index : ℕ)
  | serializeInfo (tx : Tx M) (index : ℕ)
  | setMsgInfoSize (tx : Tx M) (index : ℕ)
  | releaseWritten (tx : Tx M) (index : ℕ) (ok : Bool)
  | notify (tx : Tx M) (index : ℕ)
  | lockForRead (number index : ℕ) (l : Block.Pc)
  | readInfo (number index : ℕ)
  | onMessage (number index : ℕ) (info : MessageInfo)
  | releaseRead (index : ℕ)

/-- `AcquireBlockToRead` after an operation of `TryLockForRead` that leaves the thread at `l`
there. -/
def Pc.ofTryLockForRead (number index : ℕ) (l : Block.Pc) : Pc M :=
  if l = .reading then .readInfo number index
  else if l = .idle then .idle else .lockForRead number index l

/-- A thread, with the number of notifications that its dispatcher has taken and what it has handed
to the listeners. -/
structure Process (M : Type*) where
  pc : Pc M := .idle
  next : ℕ := 0
  delivered : List (Delivery M) := []

/-- The thread goes on to `pc`. -/
def Process.goto (p : Process M) (pc : Pc M) : Process M := { p with pc }

/-- What a thread does next: call `Transmit`, take the next notification, with or without a segment
for the channel in `segments_`, or go on. With `fail`, a `compare_exchange_weak` fails although the
values agree, and `OnMessage` finds the dispatcher shut down or no listener. -/
inductive Act (M : Type*)
  | transmit (msg : M) (info : MessageInfo)
  | listen (hasSegment : Bool)
  | step (fail : Bool)

section Program

variable (traits : MessageTraits M) (conf : ShmConf)

/-- `Transmit` and `ReadMessage`, one access to the segment at a time. A message above the ceiling
would recreate the segment. -/
def act (m : Channel M) (p : Process M) : Pc M → Act M → Option (Channel M × Process M)
  | .idle, .transmit msg info =>
    if conf.ceilingMsgSize < traits.byteSize msg then none
    else some ({ m with calls := m.calls + 1 }, p.goto (.nextWritable ⟨m.calls, msg, info⟩))
  -- `GetNextWritableBlockIndex`
  | .nextWritable tx, .step _ =>
    some ({ m with seq := uint32 (m.seq + 1) }, p.goto (.lockForWrite tx (m.seq % conf.blockNum)))
  | .lockForWrite tx index, .step fail =>
    (Block.prog (m.lock index) .writeCas (.step fail)).map fun r =>
      if r.2 = .writing then
        ((m.setLock index r.1).modify index fun d => { d with takenBy := some tx },
          p.goto (.serialize tx index))
      else (m.setLock index r.1, p.goto (.nextWritable tx))
  -- `SerializeToArray` may have written a part of the message when it fails
  | .serialize tx index, .step _ =>
    let r := traits.serializeToArray tx.msg
    some (m.modify index fun d => { d with buf := write d.buf 0 r.2 },
      p.goto (if r.1 then .setMsgSize tx index else .releaseWritten tx index false))
  | .setMsgSize tx index, .step _ =>
    some (m.modify index fun d => { d with msgSize := traits.byteSize tx.msg },
      p.goto (.serializeInfo tx index))
  | .serializeInfo tx index, .step _ =>
    match tx.info.serializeTo MessageInfo.kSize with
    | some bs =>
      some (m.modify index fun d => { d with buf := write d.buf (traits.byteSize tx.msg) bs },
        p.goto (.setMsgInfoSize tx index))
    | none => some (m, p.goto (.releaseWritten tx index false))
  | .setMsgInfoSize tx index, .step _ =>
    some (m.modify index fun d => { d with msgInfoSize := MessageInfo.kSize },
      p.goto (.releaseWritten tx index true))
  | .releaseWritten tx index ok, .step _ =>
    some (m.releaseWrittenBlock conf index, p.goto (if ok then .notify tx index else .idle))
  | .notify tx index, .step _ =>
    some ({ m with notified := m.notified ++ [(tx, index)] }, p.goto .idle)
  -- `AcquireBlockToRead`
  | .idle, .listen hasSegment =>
    match m.notified[p.next]? with
    | none => none
    | some r =>
      some (m, { p with
        next := p.next + 1
        pc := if hasSegment ∧ r.2 < conf.blockNum then .lockForRead p.next r.2 .readLoad
          else .idle })
  | .lockForRead number index l, .step fail =>
    (Block.prog (m.lock index) l (.step fail)).map fun r =>
      (m.setLock index r.1, p.goto (.ofTryLockForRead number index r.2))
  | .readInfo number index, .step _ =>
    match MessageInfo.deserializeFrom (m.data index).buf (m.data index).msgSize
      (m.data index).msgInfoSize with
    | some info => some (m, p.goto (.onMessage number index info))
    | none => some (m, p.goto (.releaseRead index))
  -- the listener parses the message in the block
  | .onMessage number index info, .step fail =>
    match traits.parseFromArray (read (m.data index).buf 0 (m.data index).msgSize) with
    | some msg =>
      some (m, { p with
        pc := .releaseRead index
        delivered := if fail then p.delivered else p.delivered ++ [⟨number, msg, info⟩] })
    | none => some (m, p.goto (.releaseRead index))
  | .releaseRead index, .step _ => some (m.releaseReadBlock conf index, p.goto .idle)
  | _, _ => none

/-- The program of a thread. -/
def prog (m : Channel M) (p : Process M) (a : Act M) : Option (Channel M × Process M) :=
  act traits conf m p p.pc a

end Program

/-- A channel with the threads that use it. -/
abbrev State (M : Type*) : Type _ := Threads (Channel M) Tid (Process M)

/-- A new segment, and threads that have not done anything. -/
def init (M : Type*) : State M := ⟨{}, fun _ => {}⟩

/-- One operation of one thread, on a segment that was created for messages of `n` bytes. -/
abbrev step (traits : MessageTraits M) (n : ℕ) : State M → Tid × Act M → Option (State M) :=
  Threads.step (prog traits (.update n))

/-! ### Current reads -/

/-- The notification and the block that a thread is about to read. -/
def Pc.reads : Pc M → Option (ℕ × ℕ)
  | .readInfo number index => some (number, index)
  | _ => none

/-- `Transmit` is called with the channel id that `DeserializeFrom` leaves, and a dispatcher reads a
block when the last `Transmit` that took the block is the one that has sent the notification. -/
def Current (s : State M) : Tid × Act M → Prop
  | (_, .transmit _ info) => info.channelId = 0
  | (_, .listen _) => True
  | (t, .step _) => ∀ r ∈ (s.pc t).pc.reads,
      (s.mem.data r.2).takenBy = (s.mem.notified[r.1]?).map (·.1)

instance [DecidableEq M] (s : State M) : (e : Tid × Act M) → Decidable (Current s e)
  | (_, .transmit _ info) => inferInstanceAs (Decidable (info.channelId = 0))
  | (_, .listen _) => .isTrue trivial
  | (t, .step _) => inferInstanceAs (Decidable (∀ r ∈ (s.pc t).pc.reads,
      (s.mem.data r.2).takenBy = (s.mem.notified[r.1]?).map (·.1)))

/-! ### What one action does -/

section Moves

variable (traits : MessageTraits M) (conf : ShmConf) (m : Channel M) (p : Process M)

/-- The actions of a thread, one case for each way they can go. -/
inductive Move : Pc M → Act M → Channel M → Process M → Prop
  | transmit (msg : M) (info : MessageInfo) :
      Move .idle (.transmit msg info) { m with calls := m.calls + 1 }
        (p.goto (.nextWritable ⟨m.calls, msg, info⟩))
  | fetchAddSeq (tx : Tx M) (fail : Bool) :
      Move (.nextWritable tx) (.step fail) { m with seq := uint32 (m.seq + 1) }
        (p.goto (.lockForWrite tx (m.seq % conf.blockNum)))
  | lockForWrite (tx : Tx M) (i : ℕ) (fail : Bool) (hfree : m.lock i = ⟨0⟩) :
      Move (.lockForWrite tx i) (.step fail)
        ((m.setLock i ⟨-1⟩).modify i fun d => { d with takenBy := some tx })
        (p.goto (.serialize tx i))
  | lockForWriteFailed (tx : Tx M) (i : ℕ) (fail : Bool) :
      Move (.lockForWrite tx i) (.step fail) m (p.goto (.nextWritable tx))
  | serialize (tx : Tx M) (i : ℕ) (fail : Bool) (hok : (traits.serializeToArray tx.msg).1 = true) :
      Move (.serialize tx i) (.step fail)
        (m.modify i fun d => { d with buf := write d.buf 0 (traits.serializeToArray tx.msg).2 })
        (p.goto (.setMsgSize tx i))
  | serializeFailed (tx : Tx M) (i : ℕ) (fail : Bool)
      (hfailed : (traits.serializeToArray tx.msg).1 = false) :
      Move (.serialize tx i) (.step fail)
        (m.modify i fun d => { d with buf := write d.buf 0 (traits.serializeToArray tx.msg).2 })
        (p.goto (.releaseWritten tx i false))
  | setMsgSize (tx : Tx M) (i : ℕ) (fail : Bool) :
      Move (.setMsgSize tx i) (.step fail)
        (m.modify i fun d => { d with msgSize := traits.byteSize tx.msg })
        (p.goto (.serializeInfo tx i))
  | serializeInfo (tx : Tx M) (i : ℕ) (fail : Bool) (bs : List UInt8)
      (hbs : tx.info.serializeTo MessageInfo.kSize = some bs) :
      Move (.serializeInfo tx i) (.step fail)
        (m.modify i fun d => { d with buf := write d.buf (traits.byteSize tx.msg) bs })
        (p.goto (.setMsgInfoSize tx i))
  | setMsgInfoSize (tx : Tx M) (i : ℕ) (fail : Bool) :
      Move (.setMsgInfoSize tx i) (.step fail)
        (m.modify i fun d => { d with msgInfoSize := MessageInfo.kSize })
        (p.goto (.releaseWritten tx i true))
  | releaseWritten (tx : Tx M) (i : ℕ) (fail : Bool) :
      Move (.releaseWritten tx i true) (.step fail) (m.releaseWrittenBlock conf i)
        (p.goto (.notify tx i))
  | releaseFailed (tx : Tx M) (i : ℕ) (fail : Bool) :
      Move (.releaseWritten tx i false) (.step fail) (m.releaseWrittenBlock conf i) (p.goto .idle)
  | notify (tx : Tx M) (i : ℕ) (fail : Bool) :
      Move (.notify tx i) (.step fail) { m with notified := m.notified ++ [(tx, i)] } (p.goto .idle)
  | listen (hasSegment : Bool) (tx : Tx M) (i : ℕ) (hnext : m.notified[p.next]? = some (tx, i))
      (hi : i < conf.blockNum) :
      Move .idle (.listen hasSegment) m
        { p with next := p.next + 1, pc := .lockForRead p.next i .readLoad }
  | skip (hasSegment : Bool) :
      Move .idle (.listen hasSegment) m { p with next := p.next + 1, pc := .idle }
  | lockForRead (number i : ℕ) (l l' : Block.Pc) (fail : Bool) (b : Block.Mem)
      (htry : Block.prog (m.lock i) l (.step fail) = some (b, l')) :
      Move (.lockForRead number i l) (.step fail) (m.setLock i b)
        (p.goto (.ofTryLockForRead number i l'))
  | readInfo (number i : ℕ) (fail : Bool) (info : MessageInfo)
      (hinfo : MessageInfo.deserializeFrom (m.data i).buf (m.data i).msgSize
        (m.data i).msgInfoSize = some info) :
      Move (.readInfo number i) (.step fail) m (p.goto (.onMessage number i info))
  | readInfoFailed (number i : ℕ) (fail : Bool) :
      Move (.readInfo number i) (.step fail) m (p.goto (.releaseRead i))
  | deliver (number i : ℕ) (fail : Bool) (info : MessageInfo) (msg : M)
      (hmsg : traits.parseFromArray (read (m.data i).buf 0 (m.data i).msgSize) = some msg) :
      Move (.onMessage number i info) (.step fail) m
        { p with pc := .releaseRead i, delivered := p.delivered ++ [⟨number, msg, info⟩] }
  | drop (number i : ℕ) (fail : Bool) (info : MessageInfo) :
      Move (.onMessage number i info) (.step fail) m (p.goto (.releaseRead i))
  | releaseRead (i : ℕ) (fail : Bool) :
      Move (.releaseRead i) (.step fail) (m.releaseReadBlock conf i) (p.goto .idle)

variable {traits conf m p} {m' : Channel M} {p' : Process M} {l : Pc M} {a : Act M}

theorem setLock_self (m : Channel M) (i : ℕ) : m.setLock i (m.lock i) = m := by
  rw [Channel.setLock, update_eq_self]

theorem move_lockForWrite {tx : Tx M} {i : ℕ} {fail : Bool}
    (h : act traits conf m p (.lockForWrite tx i) (.step fail) = some (m', p')) :
    Move traits conf m p (.lockForWrite tx i) (.step fail) m' p' := by
  simp only [act, Block.prog] at h
  split_ifs at h with hcas
  · cases h
    have hfree : m.lock i = ⟨0⟩ := congrArg Block.Mem.mk hcas.1
    exact .lockForWrite tx i fail hfree
  · cases h
    rw [setLock_self]
    exact .lockForWriteFailed tx i fail

/-- **Every action is a move.** -/
theorem move_of_act (h : act traits conf m p l a = some (m', p')) :
    Move traits conf m p l a m' p' := by
  revert h
  fun_cases act traits conf m p l a <;> intro h
  case case4 => exact move_lockForWrite h
  case case14 number i l fail =>
    obtain ⟨⟨b, l'⟩, htry, hr⟩ := Option.map_eq_some_iff.mp h
    obtain ⟨rfl, rfl⟩ := Prod.mk.inj hr
    exact .lockForRead number i l l' fail b htry
  all_goals
    simp only [Option.some.injEq, Prod.mk.injEq, reduceCtorEq] at h
    try obtain ⟨rfl, rfl⟩ := h
  case case2 => exact .transmit _ _
  case case3 => exact .fetchAddSeq _ _
  case case5 tx i fail r =>
    cases hok : r.1 with
    | true => exact .serialize tx i fail hok
    | false => exact .serializeFailed tx i fail hok
  case case6 => exact .setMsgSize _ _ _
  case case7 hbs => exact .serializeInfo _ _ _ _ hbs
  case case8 hbs => cases hbs
  case case9 => exact .setMsgInfoSize _ _ _
  case case10 tx i ok fail =>
    cases ok with
    | true => exact .releaseWritten tx i fail
    | false => exact .releaseFailed tx i fail
  case case11 => exact .notify _ _ _
  case case13 hasSegment r hnext =>
    split_ifs with hread
    · exact .listen hasSegment r.1 r.2 hnext hread.2
    · exact .skip hasSegment
  case case15 hinfo => exact .readInfo _ _ _ _ hinfo
  case case16 => exact .readInfoFailed _ _ _
  case case17 number i info fail msg hmsg =>
    cases fail with
    | true => exact .drop number i true info
    | false => exact .deliver number i false info msg hmsg
  case case18 => exact .drop _ _ _ _
  case case19 => exact .releaseRead _ _

end Moves

end ShmChannel

end Cyber
