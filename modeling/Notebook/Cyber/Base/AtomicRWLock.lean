import Notebook.Interleaving.CountedLock

/-!
# The read-write lock `AtomicRWLock`

`AtomicRWLock` (`base/atomic_rw_lock.h`) keeps a read-write lock in the counter `lock_num_`. A
reader tests the counter on a value it loaded before and takes the lock by a compare-exchange of
that value; with `write_first_` it also waits until no writer waits. The model has one transition
for each atomic operation.

Every operation of the code is an operation of `Interleaving.CountedLock` (`op_prog`), so the
counter counts the holders in every state of every interleaving (`sound_of_exec`).
-/

open Interleaving CountedLock

namespace Cyber

/-- A thread, named by its kernel thread id: a positive `pid_t`, of which there are `2 ^ 31 - 1`. -/
abbrev Tid : Type := Fin 2147483647

theorem card_tid : ENat.card Tid ≤ (2 ^ 31 - 1 : ℕ) := by
  simp [ENat.card_eq_coe_fintype_card]

theorem int32_of_le (z : ℤ) (h₁ : -1 ≤ z) (h₂ : z ≤ (2 ^ 31 - 1 : ℕ)) : int32 z = z :=
  int32_eq_self (by omega) (by omega)

namespace AtomicRWLock

/-- `RW_LOCK_FREE` -/
def rwLockFree : ℤ := 0

/-- `WRITE_EXCLUSIVE` -/
def writeExclusive : ℤ := -1

/-- `MAX_RETRY_TIMES` -/
def maxRetryTimes : ℕ := 5

/-- The fields `lock_num_` and `write_lock_wait_num_`. -/
structure Mem where
  lockNum : ℤ
  writeLockWaitNum : ℕ
deriving DecidableEq, Repr

/-- Where a thread is in `ReadLock` or `WriteLock`, with its locals `lock_num` and `retry_times`. -/
inductive Pc
  | idle
  | readLoad
  | readGuard (lockNum : ℤ) (retryTimes : ℕ)
  | readReload (retryTimes : ℕ)
  | readCas (lockNum : ℤ) (retryTimes : ℕ)
  | reading
  | writeWait
  | writeCas (retryTimes : ℕ)
  | writeDone
  | writing
deriving DecidableEq, Repr

/-- What a thread does next: call a function of the lock, or make its next atomic operation, where
`spurious` makes a `compare_exchange_weak` fail. -/
inductive Act
  | readLock
  | writeLock
  | step (spurious : Bool)
  | unlock
deriving DecidableEq, Repr

/-- `if (++retry_times == MAX_RETRY_TIMES) { yield; retry_times = 0; }` -/
def retry (retryTimes : ℕ) : ℕ :=
  if retryTimes + 1 = maxRetryTimes then 0 else retryTimes + 1

/-- `ReadLock`, `WriteLock`, `ReadUnlock` and `WriteUnlock`, one atomic operation at a time. -/
def prog (writeFirst : Bool) (m : Mem) : Pc → Act → Option (Mem × Pc)
  | .idle, .readLock => some (m, .readLoad)
  | .idle, .writeLock => some (m, .writeWait)
  | .readLoad, .step _ => some (m, .readGuard m.lockNum 0)
  | .readGuard n r, .step _ =>
    -- the second operand loads `write_lock_wait_num_`, and is there only with `write_first_`
    if n < rwLockFree ∨ (writeFirst ∧ 0 < m.writeLockWaitNum) then
      some (m, .readReload (retry r))
    else some (m, .readCas n r)
  | .readReload r, .step _ => some (m, .readGuard m.lockNum r)
  | .readCas n r, .step spurious =>
    -- a failed exchange stores the current value in `lock_num`
    if m.lockNum = n ∧ ¬spurious then some ({ m with lockNum := int32 (n + 1) }, .reading)
    else some (m, .readGuard m.lockNum r)
  | .reading, .unlock => some ({ m with lockNum := int32 (m.lockNum - 1) }, .idle)
  | .writeWait, .step _ =>
    some ({ m with writeLockWaitNum := uint32 (m.writeLockWaitNum + 1) }, .writeCas 0)
  | .writeCas r, .step spurious =>
    if m.lockNum = rwLockFree ∧ ¬spurious then
      some ({ m with lockNum := writeExclusive }, .writeDone)
    else some (m, .writeCas (retry r))
  | .writeDone, .step _ =>
    some ({ m with writeLockWaitNum := uint32 (m.writeLockWaitNum + 2 ^ 32 - 1) }, .writing)
  | .writing, .unlock => some ({ m with lockNum := int32 (m.lockNum + 1) }, .idle)
  | _, _ => none

/-- A lock with the threads that use it. -/
abbrev State : Type := Threads Mem Tid Pc

/-- A new lock. -/
def init : State := ⟨⟨0, 0⟩, fun _ => .idle⟩

/-- One atomic operation of one thread. -/
abbrev step (writeFirst : Bool) : State → Tid × Act → Option State :=
  Threads.step (prog writeFirst)

/-- What a thread holds: the write lock from the exchange in `WriteLock` to `WriteUnlock`, a read
lock from the exchange in `ReadLock` to `ReadUnlock`. -/
def Pc.role : Pc → Role
  | .reading => .reader
  | .writeDone => .writer
  | .writing => .writer
  | _ => .free

/-- A reader that is about to exchange has seen a counter that is not negative. -/
def Pc.Guarded : Pc → Prop
  | .readCas n _ => 0 ≤ n
  | _ => True

/-! ### The code refines the counted lock -/

variable {writeFirst : Bool} {m m' : Mem} {l l' : Pc} {a : Act}

/-- The guard of `ReadLock` establishes the bound that its exchange relies on. -/
theorem guarded_prog (h : prog writeFirst m l a = some (m', l')) : l'.Guarded := by
  revert h
  fun_cases prog writeFirst m l a <;> rintro ⟨⟩
  case case5 n r spurious hguard => exact not_lt.mp fun hn => hguard (Or.inl hn)
  all_goals trivial

theorem op_prog (h : prog writeFirst m l a = some (m', l')) (hl : l.Guarded) :
    Op int32 m.lockNum l.role m'.lockNum l'.role := by
  revert h
  fun_cases prog writeFirst m l a <;> rintro ⟨⟩
  case case7 n r spurious hcas =>
    obtain ⟨rfl, -⟩ := hcas
    exact .lockRead _ hl
  case case9 => exact .unlockRead _
  case case11 r spurious hcas =>
    rw [hcas.1]
    exact .lockWrite
  case case14 => exact .unlockWrite _
  all_goals exact .keep _ _

/-- **The counter counts the holders** in every state that an interleaving reaches. -/
theorem sound_of_exec {es : List (Tid × Act)} {s : State}
    (h : exec (step writeFirst) init es = some s) :
    Sound s.mem.lockNum (Pc.role ∘ s.pc) :=
  CountedLock.sound_of_exec Mem.lockNum (s := init) card_tid int32_of_le guarded_prog op_prog
    sound_free (fun _ => trivial) h

end AtomicRWLock

end Cyber
