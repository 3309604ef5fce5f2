import Notebook.Cyber.Base.AtomicRWLock

/-!
# The lock of a shared-memory block

A `Block` of a shared-memory segment (`transport/shm/block.cc`) carries a read-write lock in the
counter `lock_num_`, with functions that give up instead of waiting: `TryLockForWrite` makes one
compare-exchange, `TryLockForRead` at most `kMaxTryLockTimes` of them. The model has one
transition for each atomic operation, as for `Cyber.AtomicRWLock`, and the code refines the same
counted lock.
-/

open Interleaving CountedLock

namespace Cyber

namespace Block

/-- `kRWLockFree` -/
def kRWLockFree : ℤ := 0

/-- `kWriteExclusive` -/
def kWriteExclusive : ℤ := -1

/-- `kMaxTryLockTimes` -/
def kMaxTryLockTimes : ℕ := 5

/-- The field `lock_num_`; the two size fields do not take part in locking. -/
structure Mem where
  lockNum : ℤ
deriving DecidableEq, Repr

/-- Where a thread is in `TryLockForRead` or `TryLockForWrite`, with its locals `lock_num` and
`try_times`. A call that returns `false` leaves the thread at `idle`. -/
inductive Pc
  | idle
  | writeCas
  | writing
  | readLoad
  | readCas (lockNum : ℤ) (tryTimes : ℕ)
  | readReload (tryTimes : ℕ)
  | reading
deriving DecidableEq, Repr

/-- What a thread does next: call a function of the block, or make its next atomic operation, where
`spurious` makes a `compare_exchange_weak` fail. -/
inductive Act
  | tryLockForWrite
  | tryLockForRead
  | step (spurious : Bool)
  | release
deriving DecidableEq, Repr

/-- `TryLockForWrite`, `TryLockForRead`, `ReleaseWriteLock` and `ReleaseReadLock`, one atomic
operation at a time. -/
def prog (m : Mem) : Pc → Act → Option (Mem × Pc)
  | .idle, .tryLockForWrite => some (m, .writeCas)
  | .idle, .tryLockForRead => some (m, .readLoad)
  | .writeCas, .step spurious =>
    if m.lockNum = kRWLockFree ∧ ¬spurious then some (⟨kWriteExclusive⟩, .writing)
    else some (m, .idle)
  | .writing, .release => some (⟨int32 (m.lockNum + 1)⟩, .idle)
  | .readLoad, .step _ =>
    if m.lockNum < kRWLockFree then some (m, .idle) else some (m, .readCas m.lockNum 0)
  | .readCas n k, .step spurious =>
    if m.lockNum = n ∧ ¬spurious then some (⟨int32 (n + 1)⟩, .reading)
    else if k + 1 = kMaxTryLockTimes then some (m, .idle)
    else some (m, .readReload (k + 1))
  | .readReload k, .step _ =>
    if m.lockNum < kRWLockFree then some (m, .idle) else some (m, .readCas m.lockNum k)
  | .reading, .release => some (⟨int32 (m.lockNum - 1)⟩, .idle)
  | _, _ => none

/-- A block with the threads that use it. -/
abbrev State : Type := Threads Mem Tid Pc

/-- A new block. -/
def init : State := ⟨⟨0⟩, fun _ => .idle⟩

/-- One atomic operation of one thread. -/
abbrev step : State → Tid × Act → Option State := Threads.step prog

/-- What a thread holds. -/
def Pc.role : Pc → Role
  | .writing => .writer
  | .reading => .reader
  | _ => .free

/-- A reader that is about to exchange has seen a counter that is not negative. -/
def Pc.Guarded : Pc → Prop
  | .readCas n _ => 0 ≤ n
  | _ => True

/-! ### The code refines the counted lock -/

variable {m m' : Mem} {l l' : Pc} {a : Act}

theorem guarded_prog (h : prog m l a = some (m', l')) : l'.Guarded := by
  revert h
  fun_cases prog m l a <;> rintro ⟨⟩
  case case7 hguard => exact not_lt.mp hguard
  case case12 hguard => exact not_lt.mp hguard
  all_goals trivial

theorem op_prog (h : prog m l a = some (m', l')) (hl : l.Guarded) :
    Op int32 m.lockNum l.role m'.lockNum l'.role := by
  revert h
  fun_cases prog m l a <;> rintro ⟨⟩
  case case3 spurious hcas =>
    rw [hcas.1]
    exact .lockWrite
  case case5 => exact .unlockWrite _
  case case8 n k spurious hcas =>
    obtain ⟨rfl, -⟩ := hcas
    exact .lockRead _ hl
  case case13 => exact .unlockRead _
  all_goals exact .keep _ _

/-- **The counter counts the holders** in every state that an interleaving reaches. -/
theorem sound_of_exec {es : List (Tid × Act)} {s : State} (h : exec step init es = some s) :
    Sound s.mem.lockNum (Pc.role ∘ s.pc) :=
  CountedLock.sound_of_exec Mem.lockNum (s := init) card_tid int32_of_le guarded_prog op_prog
    sound_free (fun _ => trivial) h

end Block

/-- **The meaning of `lock_num_`.** For any number of threads and any interleaving of the atomic
operations of `AtomicRWLock`, with either setting of `write_first_`, and of `Block`: the counter is
`-1` exactly when one thread holds the write lock and none a read lock, and is the number of
readers otherwise; a writer never coexists with another holder. -/
theorem lock_num_counts_holders :
    (∀ (writeFirst : Bool) (es : List (Tid × AtomicRWLock.Act)) (s : AtomicRWLock.State),
      exec (AtomicRWLock.step writeFirst) AtomicRWLock.init es = some s →
        Counts s.mem.lockNum {t | (s.pc t).role = .reader} {t | (s.pc t).role = .writer}) ∧
    (∀ (es : List (Tid × Block.Act)) (s : Block.State),
      exec Block.step Block.init es = some s →
        Counts s.mem.lockNum {t | (s.pc t).role = .reader} {t | (s.pc t).role = .writer}) :=
  ⟨fun _ _ _ h => (AtomicRWLock.sound_of_exec h).counts,
    fun _ _ h => (Block.sound_of_exec h).counts⟩

theorem lock_num_counts_holders_of_runs :
    (∃ s, exec (AtomicRWLock.step true) AtomicRWLock.init
        [(0, .writeLock), (0, .step false), (1, .readLock), (1, .step false), (0, .step false),
          (1, .step false)] = some s ∧ s.mem.lockNum = -1 ∧
      Counts s.mem.lockNum {t | (s.pc t).role = .reader} {t | (s.pc t).role = .writer}) ∧
    (∃ s, exec Block.step Block.init
        [(0, .tryLockForRead), (0, .step false), (0, .step true), (0, .step false),
          (0, .step false), (1, .tryLockForWrite), (1, .step false)] = some s ∧
      s.mem.lockNum = 1 ∧
      Counts s.mem.lockNum {t | (s.pc t).role = .reader} {t | (s.pc t).role = .writer}) := by
  constructor
  · exact exists_exec_mono (P := fun s => s.mem.lockNum = -1) (by decide +kernel) fun s hs hn =>
      ⟨hn, lock_num_counts_holders.1 true _ s hs⟩
  · exact exists_exec_mono (P := fun s => s.mem.lockNum = 1) (by decide +kernel) fun s hs hn =>
      ⟨hn, lock_num_counts_holders.2 _ s hs⟩

end Cyber
