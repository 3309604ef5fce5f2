import Notebook.Cyber.Base.AtomicRWLock
import Notebook.Interleaving.NestedLock

/-!
# The reentrant read-write lock

`ReentrantRWLock` (`base/reentrant_rw_lock.h`) is a read-write lock whose writer may lock again: it
keeps the id of the writing thread in `write_thread_id_`, and a thread that finds its own id there
returns at once from `ReadLock`, `ReadUnlock` and, after counting, from `WriteLock`. The id is
written after `lock_num_` was taken, and cleared after `lock_num_` was released.

The threads use the lock through the guards of `base/rw_lock_guard.h`, so each keeps a stack of
guards, and releases the last one first. The model has one transition for each access to one of the
three fields; the call of `WriteUnlock` and its `fetch_add` are one transition.

## Main definitions

* `prog` — the four functions, one access at a time.
* `Local.hold` — what a thread holds of the lock.
* `Local.Good` — the guards of a thread and the id go together.

## Main results

* `op_move` — while the ids are right, every access is an operation of `Interleaving.NestedLock`.
* `good_move` — the thread that moves stays good.
-/

open Interleaving NestedLock List

namespace Cyber.ReentrantRWLock

/-- `RW_LOCK_FREE` -/
def rwLockFree : ℤ := 0

/-- `WRITE_EXCLUSIVE` -/
def writeExclusive : ℤ := -1

/-- `ReadLockGuard` and `WriteLockGuard` -/
inductive Guard
  | read
  | write
deriving DecidableEq, Repr

/-- The fields of the lock; `none` is `NULL_THREAD_ID`. -/
structure Mem (T : Type*) where
  writeThreadId : Option T
  writeLockWaitNum : ℕ
  lockNum : ℤ
deriving DecidableEq, Repr

/-- The next access of a thread, with the locals `lock_num` and `retry_times`. -/
inductive Pc
  | body
  | readCheck
  | readLoad
  | readGuard (lockNum : ℤ) (retryTimes : ℕ)
  | readReload (retryTimes : ℕ)
  | readCas (lockNum : ℤ) (retryTimes : ℕ)
  | writeCheck
  | writeNested
  | writeWait
  | writeCas (retryTimes : ℕ)
  | writeStore
  | writeDone
  | readUnlockCheck
  | readUnlockSub
  | writeClear
deriving DecidableEq, Repr

/-- A thread: its id, its guards, the last one first, and where it is. -/
structure Local (T : Type*) where
  threadId : T
  guards : List Guard
  pc : Pc
deriving DecidableEq, Repr

/-- What a thread does next: make a guard, destroy the last one, or make its next access, where
`spurious` makes a `compare_exchange_weak` fail. -/
inductive Act
  | readLock
  | writeLock
  | unlock
  | step (spurious : Bool)
deriving DecidableEq, Repr

section Program

variable {T : Type*}

/-- The function goes on. -/
def Local.goto (l : Local T) (pc : Pc) : Local T := { l with pc := pc }

/-- The lock function returns to a new guard. -/
def Local.enter (l : Local T) (g : Guard) : Local T :=
  { l with guards := g :: l.guards, pc := .body }

/-- The guard is gone. -/
def Local.leave (l : Local T) (pc : Pc) : Local T := { l with guards := l.guards.tail, pc := pc }

/-- `ReadLock`, `WriteLock`, `ReadUnlock` and `WriteUnlock`, one access at a time. -/
def prog [DecidableEq T] (writeFirst : Bool) (m : Mem T) (l : Local T) (a : Act) :
    Option (Mem T × Local T) :=
  match l.pc, a with
  | .body, .readLock => some (m, l.goto .readCheck)
  | .readCheck, .step _ =>
    if m.writeThreadId = some l.threadId then some (m, l.enter .read)
    else some (m, l.goto .readLoad)
  | .readLoad, .step _ => some (m, l.goto (.readGuard m.lockNum 0))
  | .readGuard n r, .step _ =>
    -- the second operand loads `write_lock_wait_num_`, and is there only with `write_first_`
    if n < rwLockFree ∨ (writeFirst ∧ 0 < m.writeLockWaitNum) then
      some (m, l.goto (.readReload (AtomicRWLock.retry r)))
    else some (m, l.goto (.readCas n r))
  | .readReload r, .step _ => some (m, l.goto (.readGuard m.lockNum r))
  | .readCas n r, .step spurious =>
    -- a failed exchange stores the current value in `lock_num`
    if m.lockNum = n ∧ ¬spurious then
      some ({ m with lockNum := int32 (m.lockNum + 1) }, l.enter .read)
    else some (m, l.goto (.readGuard m.lockNum r))
  | .body, .writeLock => some (m, l.goto .writeCheck)
  | .writeCheck, .step _ =>
    if m.writeThreadId = some l.threadId then some (m, l.goto .writeNested)
    else some (m, l.goto .writeWait)
  | .writeNested, .step _ =>
    some ({ m with lockNum := int32 (m.lockNum - 1) }, l.enter .write)
  | .writeWait, .step _ =>
    some ({ m with writeLockWaitNum := uint32 (m.writeLockWaitNum + 1) }, l.goto (.writeCas 0))
  | .writeCas r, .step spurious =>
    if m.lockNum = rwLockFree ∧ ¬spurious then
      some ({ m with lockNum := writeExclusive }, l.goto .writeStore)
    else some (m, l.goto (.writeCas (AtomicRWLock.retry r)))
  | .writeStore, .step _ =>
    some ({ m with writeThreadId := some l.threadId }, l.goto .writeDone)
  | .writeDone, .step _ =>
    some ({ m with writeLockWaitNum := wordSub 32 m.writeLockWaitNum 1 }, l.enter .write)
  | .body, .unlock =>
    match l.guards with
    | [] => none
    | .read :: _ => some (m, l.goto .readUnlockCheck)
    | .write :: _ =>
      if m.lockNum = writeExclusive then
        some ({ m with lockNum := int32 (m.lockNum + 1) }, l.leave .writeClear)
      else some ({ m with lockNum := int32 (m.lockNum + 1) }, l.leave .body)
  | .readUnlockCheck, .step _ =>
    if m.writeThreadId = some l.threadId then some (m, l.leave .body)
    else some (m, l.goto .readUnlockSub)
  | .readUnlockSub, .step _ =>
    some ({ m with lockNum := int32 (m.lockNum - 1) }, l.leave .body)
  | .writeClear, .step _ => some ({ m with writeThreadId := none }, l.goto .body)
  | _, _ => none

end Program

/-- A lock with the threads that use it. -/
abbrev State (T : Type*) : Type _ := Threads (Mem T) T (Local T)

/-- A new lock. -/
def init (T : Type*) : State T := ⟨⟨none, 0, 0⟩, fun t => ⟨t, [], .body⟩⟩

/-- One access of one thread. -/
abbrev step {T : Type*} [DecidableEq T] (writeFirst : Bool) :
    State T → T × Act → Option (State T) :=
  Threads.step (prog writeFirst)

variable {T : Type*}

/-! ### What a thread holds -/

/-- The thread is between the return of its outermost `WriteLock` and the start of the matching
`WriteUnlock`. -/
def Local.Writing (l : Local T) : Prop := Guard.write ∈ l.guards
deriving Decidable

/-- How deep the write guards of a thread are nested. -/
def Local.depth (l : Local T) : ℕ := l.guards.count .write

/-- The thread did not find its id and waits for the lock. -/
def Pc.waits : Pc → Bool
  | .readLoad | .readGuard _ _ | .readReload _ | .readCas _ _ | .writeWait | .writeCas _ => true
  | _ => false

/-- The thread has the lock and is about to return from `WriteLock`. -/
def Pc.acquired : Pc → Bool
  | .writeStore | .writeDone => true
  | _ => false

/-- What the guards of a thread hold: the read guards outside a write guard count, those inside do
not. -/
def holdOf (guards : List Guard) : Hold :=
  match guards.count .write with
  | 0 => .reads guards.length
  | d + 1 => .writes d

/-- What a thread holds of the lock. -/
def Local.hold (l : Local T) : Hold := if l.pc.acquired then .writes 0 else holdOf l.guards

/-- The guards of a thread at each position, as long as the ids are right: a thread that waits is
not in its write section, and one that acquires the lock or has just released it has no guards. -/
def Pc.Fits (guards : List Guard) : Pc → Prop
  | .readLoad | .readGuard _ _ | .readReload _ | .writeWait | .writeCas _ => .write ∉ guards
  | .readCas n _ => .write ∉ guards ∧ 0 ≤ n
  | .writeNested => .write ∈ guards
  | .writeStore | .writeDone | .writeClear => guards = []
  | .readUnlockCheck => ∃ rest, guards = .read :: rest
  | .readUnlockSub => ∃ rest, guards = .read :: rest ∧ .write ∉ rest
  | .body | .readCheck | .writeCheck => True

/-- The thread is not between the exchange and the return of its outermost `WriteLock`, and not
about to clear the id. -/
def Pc.settled : Pc → Bool
  | .writeStore | .writeDone | .writeClear => false
  | _ => true

/-- The state of a thread, as long as the ids are right: its outermost guard is a write guard if any
guard is, and it is in its write section exactly if it finds its id. -/
structure Local.Good (m : Mem T) (l : Local T) : Prop where
  bottom : l.Writing → l.guards.getLast? = some .write
  fits : l.pc.Fits l.guards
  owner : l.Writing → m.writeThreadId = some l.threadId
  known : m.writeThreadId = some l.threadId → l.Writing ∨ l.pc = .writeDone ∨ l.pc = .writeClear

/-! ### What one access can do -/

/-- What one access of a thread can do. -/
inductive Move (m : Mem T) (l : Local T) : Mem T → Local T → Prop
  /-- The function goes on, to a position that the guards fit if the id is right. -/
  | go (m' : Mem T) (pc pc' : Pc) (hpc : l.pc = pc) (hnum : m'.lockNum = m.lockNum)
      (hid : m'.writeThreadId = m.writeThreadId) (hfrom : pc.settled = true)
      (hto : pc'.settled = true)
      (hfits : (l.Writing ↔ m.writeThreadId = some l.threadId) → pc.Fits l.guards →
        pc'.Fits l.guards) : Move m l m' (l.goto pc')
  | readSkip (hpc : l.pc = .readCheck) (hid : m.writeThreadId = some l.threadId) :
      Move m l m (l.enter .read)
  | readLock (r : ℕ) (hpc : l.pc = .readCas m.lockNum r) :
      Move m l { m with lockNum := int32 (m.lockNum + 1) } (l.enter .read)
  | nest (hpc : l.pc = .writeNested) :
      Move m l { m with lockNum := int32 (m.lockNum - 1) } (l.enter .write)
  | acquire (r : ℕ) (hpc : l.pc = .writeCas r) (hfree : m.lockNum = rwLockFree) :
      Move m l { m with lockNum := writeExclusive } (l.goto .writeStore)
  | store (hpc : l.pc = .writeStore) :
      Move m l { m with writeThreadId := some l.threadId } (l.goto .writeDone)
  | enter (waitNum : ℕ) (hpc : l.pc = .writeDone) :
      Move m l { m with writeLockWaitNum := waitNum } (l.enter .write)
  | unlockWrite (rest : List Guard) (hpc : l.pc = .body) (hguards : l.guards = .write :: rest) :
      Move m l { m with lockNum := int32 (m.lockNum + 1) }
        (l.leave (if m.lockNum = writeExclusive then .writeClear else .body))
  | readUnlockSkip (hpc : l.pc = .readUnlockCheck) (hid : m.writeThreadId = some l.threadId) :
      Move m l m (l.leave .body)
  | readUnlock (hpc : l.pc = .readUnlockSub) :
      Move m l { m with lockNum := int32 (m.lockNum - 1) } (l.leave .body)
  | clear (hpc : l.pc = .writeClear) : Move m l { m with writeThreadId := none } (l.goto .body)

variable {writeFirst : Bool} {m m' : Mem T} {l l' : Local T} {a : Act}

theorem move_prog [DecidableEq T] (h : prog writeFirst m l a = some (m', l')) :
    Move m l m' l' := by
  revert h
  fun_cases prog writeFirst m l a <;> rintro ⟨⟩
  case case2 _ hpc hid => exact .readSkip hpc hid
  case case3 _ hpc hid => exact .go m _ _ hpc rfl rfl rfl rfl fun hiff _ => mt hiff.mp hid
  case case6 n r _ hpc hfree =>
    exact .go m _ _ hpc rfl rfl rfl rfl fun _ hfits =>
      ⟨hfits, not_lt.mp fun hlt => hfree (.inl hlt)⟩
  case case8 n r spurious hpc hcas =>
    obtain ⟨rfl, -⟩ := hcas
    exact .readLock r hpc
  case case9 hpc _ => exact .go m _ _ hpc rfl rfl rfl rfl fun _ hfits => hfits.1
  case case11 _ hpc hid => exact .go m _ _ hpc rfl rfl rfl rfl fun hiff _ => hiff.mpr hid
  case case12 _ hpc hid => exact .go m _ _ hpc rfl rfl rfl rfl fun hiff _ => mt hiff.mp hid
  case case13 hpc => exact .nest hpc
  case case15 r _ hpc hcas => exact .acquire r hpc hcas.1
  case case17 hpc => exact .store hpc
  case case18 hpc => exact .enter _ hpc
  case case20 hpc rest hguards =>
    exact .go m _ _ hpc rfl rfl rfl rfl fun _ _ => ⟨rest, hguards⟩
  case case21 hpc rest hguards hlast =>
    have hmove := Move.unlockWrite (m := m) rest hpc hguards
    rwa [if_pos hlast] at hmove
  case case22 hpc rest hguards hlast =>
    have hmove := Move.unlockWrite (m := m) rest hpc hguards
    rwa [if_neg hlast] at hmove
  case case23 _ hpc hid => exact .readUnlockSkip hpc hid
  case case24 _ hpc hid =>
    refine .go m _ _ hpc rfl rfl rfl rfl fun hiff hfits => ?_
    obtain ⟨rest, hguards⟩ := hfits
    exact ⟨rest, hguards, fun hmem => hid (hiff.mp (by simp [Local.Writing, hguards, hmem]))⟩
  case case25 hpc => exact .readUnlock hpc
  case case26 hpc => exact .clear hpc
  case case1 hpc => exact .go m _ _ hpc rfl rfl rfl rfl fun _ _ => True.intro
  case case10 hpc => exact .go m _ _ hpc rfl rfl rfl rfl fun _ _ => True.intro
  case case4 hpc | case7 hpc | case14 hpc =>
    exact .go _ _ _ hpc rfl rfl rfl rfl fun _ hfits => hfits
  case case5 hpc _ | case16 hpc _ => exact .go _ _ _ hpc rfl rfl rfl rfl fun _ hfits => hfits

theorem threadId_move (hmove : Move m l m' l') : l'.threadId = l.threadId := by
  cases hmove <;> rfl

/-- Only a thread that has taken or released `lock_num_` writes the id. -/
theorem writeThreadId_move (hmove : Move m l m' l') :
    m'.writeThreadId = m.writeThreadId ∨
      l.pc = .writeStore ∧ m'.writeThreadId = some l.threadId ∨
      l.pc = .writeClear ∧ m'.writeThreadId = none := by
  cases hmove with
  | go m' pc pc' hpc hnum hid => exact .inl hid
  | store hpc => exact .inr (.inl ⟨hpc, rfl⟩)
  | clear hpc => exact .inr (.inr ⟨hpc, rfl⟩)
  | _ => exact .inl rfl

/-! ### The code refines the nested lock -/

section Hold

variable {guards : List Guard}

theorem holdOf_of_not_mem (h : Guard.write ∉ guards) : holdOf guards = .reads guards.length := by
  rw [holdOf, count_eq_zero_of_not_mem h]

theorem holdOf_cons_write : holdOf (.write :: guards) = .writes (guards.count .write) := by
  rw [holdOf, count_cons_self]

theorem holdOf_cons_read (h : Guard.write ∈ guards) : holdOf (.read :: guards) = holdOf guards := by
  obtain ⟨d, hd⟩ : ∃ d, guards.count .write = d + 1 :=
    Nat.exists_eq_succ_of_ne_zero (count_pos_iff.mpr h).ne'
  have hcons : (Guard.read :: guards).count .write = d + 1 := by
    rw [count_cons_of_ne (by decide), hd]
  rw [holdOf, holdOf, hcons, hd]

theorem holdOf_of_mem (h : Guard.write ∈ guards) :
    ∃ d, guards.count .write = d + 1 ∧ holdOf guards = .writes d := by
  obtain ⟨d, hd⟩ : ∃ d, guards.count .write = d + 1 :=
    Nat.exists_eq_succ_of_ne_zero (count_pos_iff.mpr h).ne'
  exact ⟨d, hd, by rw [holdOf, hd]⟩

theorem eq_nil_of_holdOf (h : holdOf guards = .reads 0) : guards = [] := by
  by_cases hmem : Guard.write ∈ guards
  · obtain ⟨d, -, hd⟩ := holdOf_of_mem hmem
    rw [hd] at h
    cases h
  · rw [holdOf_of_not_mem hmem] at h
    exact eq_nil_of_length_eq_zero (Hold.reads.inj h)

theorem eq_nil_of_bottom (hbottom : (Guard.write :: guards).getLast? = some .write)
    (h : Guard.write ∉ guards) : guards = [] := by
  cases guards with
  | nil => rfl
  | cons g rest =>
    rw [getLast?_cons_cons] at hbottom
    exact absurd (mem_of_getLast? hbottom) h

end Hold

theorem hold_of_settled (h : l.pc.acquired = false) : l.hold = holdOf l.guards := by
  rw [Local.hold, h, if_neg Bool.false_ne_true]

variable {rest : List Guard} {g : Guard}

theorem guards_leave (hguards : l.guards = g :: rest) (pc : Pc) : (l.leave pc).guards = rest := by
  rw [Local.leave, hguards, tail_cons]

theorem hold_leave {pc : Pc} (hguards : l.guards = g :: rest)
    (hpc : pc.acquired = false) : (l.leave pc).hold = holdOf rest := by
  rw [hold_of_settled (l := l.leave pc) hpc, guards_leave hguards]

theorem acquired_eq_false {pc : Pc} (h : pc.settled = true) : pc.acquired = false := by
  cases pc <;> first | rfl | cases h

theorem Local.Good.writing_iff (hl : l.Good m) (h : l.pc.settled = true) :
    l.Writing ↔ m.writeThreadId = some l.threadId := by
  refine ⟨hl.owner, fun hid => ?_⟩
  rcases hl.known hid with hw | hpc | hpc
  · exact hw
  · rw [hpc] at h
    cases h
  · rw [hpc] at h
    cases h

theorem bottom_cons {guards : List Guard} (hmem : Guard.write ∈ guards)
    (hbottom : Guard.write ∈ guards → guards.getLast? = some .write) :
    (g :: guards).getLast? = some .write := by
  cases guards with
  | nil => cases hmem
  | cons g' rest => rw [getLast?_cons_cons, hbottom hmem]

theorem bottom_tail (hmem : Guard.write ∈ rest)
    (hbottom : (g :: rest).getLast? = some .write) : rest.getLast? = some .write := by
  cases rest with
  | nil => cases hmem
  | cons g' rest => rwa [getLast?_cons_cons] at hbottom

theorem Local.good_of_writing (hw : l.Writing) (hbottom : l.guards.getLast? = some .write)
    (hfits : l.pc.Fits l.guards) (hid : m.writeThreadId = some l.threadId) : l.Good m :=
  ⟨fun _ => hbottom, hfits, fun _ => hid, fun _ => .inl hw⟩

theorem Local.good_of_not_writing (hw : ¬l.Writing) (hfits : l.pc.Fits l.guards)
    (hid : m.writeThreadId ≠ some l.threadId) : l.Good m :=
  ⟨fun h => absurd h hw, hfits, fun h => absurd h hw, fun h => absurd h hid⟩

theorem Local.Good.leave (hl : l.Good m)
    (hguards : l.guards = g :: rest) (hmem : Guard.write ∈ rest)
    (hid : m'.writeThreadId = m.writeThreadId) : (l.leave .body).Good m' := by
  have hw : l.Writing := by simp [Local.Writing, hguards, hmem]
  refine good_of_writing ?_ ?_ True.intro (hid.trans (hl.owner hw))
  · rwa [Local.Writing, guards_leave hguards]
  · rw [guards_leave hguards]
    exact bottom_tail hmem (hguards ▸ hl.bottom hw)

variable [DecidableEq T] {hold : T → Hold}

/-- The test in `WriteUnlock` tells the last write guard of a thread, below which there is nothing,
from the others. -/
theorem last_or_nested {t : T} (hl : l.Good m)
    (hs : Sound m.lockNum hold) (ht : hold t = l.hold) (hpc : l.pc = .body)
    (hguards : l.guards = .write :: rest) :
    m.lockNum = writeExclusive ∧ rest = [] ∨
      m.lockNum ≠ writeExclusive ∧ Guard.write ∈ rest := by
  have hhold : l.hold = .writes (rest.count .write) := by
    rw [hold_of_settled (by rw [hpc]; rfl), hguards, holdOf_cons_write]
  obtain ⟨hnum, -, -⟩ := hs.of_writes (ht.trans hhold)
  by_cases hmem : Guard.write ∈ rest
  · have hpos := count_pos_iff.mpr hmem
    exact .inr ⟨fun hlast => by rw [hnum, writeExclusive] at hlast; omega, hmem⟩
  · have hbottom := hl.bottom (by simp [Local.Writing, hguards])
    rw [hguards] at hbottom
    rw [count_eq_zero_of_not_mem hmem] at hnum
    exact .inl ⟨hnum, eq_nil_of_bottom hbottom hmem⟩

/-- **The code refines the nested lock**, as long as the ids are right and the nesting has room in
the word of the counter. -/
theorem op_move {t : T} (hmove : Move m l m' l') (hl : l.Good m)
    (hs : Sound m.lockNum hold) (ht : hold t = l.hold)
    (hdepth : l.pc = .writeNested → l.depth < 2 ^ 31) :
    Op m.lockNum l.hold m'.lockNum l'.hold := by
  have hfits := hl.fits
  cases hmove with
  | go m' pc pc' hpc hnum hid hfrom hto hfits =>
    have hhold : l.hold = holdOf l.guards := hold_of_settled (hpc ▸ acquired_eq_false hfrom)
    have hhold' : (l.goto pc').hold = holdOf l.guards := hold_of_settled (acquired_eq_false hto)
    rw [hhold, hhold', hnum]
    exact .keep ..
  | readSkip hpc hid =>
    have hw : l.Writing := (hl.writing_iff (by rw [hpc]; rfl)).mpr hid
    have hhold : l.hold = holdOf l.guards := hold_of_settled (by rw [hpc]; rfl)
    have hhold' : (l.enter .read).hold = holdOf l.guards := holdOf_cons_read hw
    rw [hhold, hhold']
    exact .keep ..
  | readLock r hpc =>
    rw [hpc] at hfits
    obtain ⟨hnot, hnonneg⟩ := hfits
    have hhold : l.hold = .reads l.guards.length :=
      (hold_of_settled (by rw [hpc]; rfl)).trans (holdOf_of_not_mem hnot)
    have hnot' : Guard.write ∉ Guard.read :: l.guards := by simp [hnot]
    have hhold' : (l.enter .read).hold = .reads (l.guards.length + 1) := holdOf_of_not_mem hnot'
    rw [hhold, hhold']
    exact .lockRead _ _ hnonneg
  | nest hpc =>
    rw [hpc] at hfits
    obtain ⟨d, hd, hhold⟩ := holdOf_of_mem hfits
    have hhold' : (l.enter .write).hold = .writes (d + 1) := holdOf_cons_write.trans (by rw [hd])
    have hlt : l.guards.count .write < 2 ^ 31 := hdepth hpc
    rw [hold_of_settled (by rw [hpc]; rfl), hhold, hhold']
    exact .nest _ _ (by omega)
  | acquire r hpc hfree =>
    rw [hfree] at hs ⊢
    rw [← ht, hs.eq_reads_zero t]
    exact .lockWrite
  | store hpc =>
    have hhold : l.hold = .writes 0 := by rw [Local.hold, hpc]; rfl
    rw [hhold]
    exact .keep ..
  | enter waitNum hpc =>
    rw [hpc] at hfits
    have hhold : l.hold = .writes 0 := by rw [Local.hold, hpc]; rfl
    have hhold' : (l.enter .write).hold = .writes 0 :=
      holdOf_cons_write.trans (by rw [show l.guards = [] from hfits, count_nil])
    rw [hhold, hhold']
    exact .keep ..
  | unlockWrite rest hpc hguards =>
    have hhold : l.hold = .writes (rest.count .write) := by
      rw [hold_of_settled (by rw [hpc]; rfl), hguards, holdOf_cons_write]
    rw [hhold]
    rcases last_or_nested hl hs ht hpc hguards with ⟨hlast, rfl⟩ | ⟨hlast, hmem⟩
    · rw [if_pos hlast, hold_leave hguards rfl]
      exact .unlockWrite _
    · obtain ⟨d, hd, hrest⟩ := holdOf_of_mem hmem
      rw [if_neg hlast, hold_leave hguards rfl, hrest, hd]
      exact .unnest _ _
  | readUnlockSkip hpc hid =>
    have hw : l.Writing := (hl.writing_iff (by rw [hpc]; rfl)).mpr hid
    rw [hpc] at hfits
    obtain ⟨rest, hguards⟩ := hfits
    have hmem : Guard.write ∈ rest := by simpa [Local.Writing, hguards] using hw
    rw [hold_of_settled (by rw [hpc]; rfl), hold_leave hguards rfl, hguards, holdOf_cons_read hmem]
    exact .keep ..
  | readUnlock hpc =>
    rw [hpc] at hfits
    obtain ⟨rest, hguards, hnot⟩ := hfits
    have hnot' : Guard.write ∉ Guard.read :: rest := by simp [hnot]
    rw [hold_of_settled (by rw [hpc]; rfl), hold_leave hguards rfl, hguards,
      holdOf_of_not_mem hnot, holdOf_of_not_mem hnot']
    exact .unlockRead _ _
  | clear hpc =>
    have hhold : l.hold = holdOf l.guards := hold_of_settled (by rw [hpc]; rfl)
    rw [hhold]
    exact .keep ..

/-! ### The guards and the id -/

/-- **The guards and the id of the thread that moves** go together again afterwards, if the thread
returns from its outermost `WriteLock` with its id still in place. -/
theorem good_move {t : T} (hmove : Move m l m' l') (hl : l.Good m)
    (hs : Sound m.lockNum hold) (ht : hold t = l.hold)
    (hdone : l.pc = .writeDone → m.writeThreadId = some l.threadId) : l'.Good m' := by
  have hfits := hl.fits
  cases hmove with
  | go m' pc pc' hpc hnum hid hfrom hto hfits' =>
    have hiff := hl.writing_iff (hpc ▸ hfrom)
    refine ⟨hl.bottom, hfits' hiff (hpc ▸ hfits), fun hw => hid ▸ hl.owner hw, fun hid' => ?_⟩
    exact .inl (hiff.mpr (hid ▸ hid'))
  | readSkip hpc hid =>
    have hw : l.Writing := (hl.writing_iff (by rw [hpc]; rfl)).mpr hid
    exact Local.good_of_writing (mem_cons_of_mem _ hw) (bottom_cons hw hl.bottom) True.intro
      hid
  | readLock r hpc =>
    have hiff := hl.writing_iff (by rw [hpc]; rfl)
    rw [hpc] at hfits
    have hnot : ¬(l.enter .read).Writing := by simpa [Local.enter, Local.Writing] using hfits.1
    exact Local.good_of_not_writing hnot True.intro fun hid => hfits.1 (hiff.mpr hid)
  | nest hpc =>
    rw [hpc] at hfits
    exact Local.good_of_writing mem_cons_self (bottom_cons hfits hl.bottom) True.intro
      (hl.owner hfits)
  | acquire r hpc hfree =>
    have hiff := hl.writing_iff (by rw [hpc]; rfl)
    have hzero : l.hold = .reads 0 := by
      rw [hfree] at hs
      rw [← ht, hs.eq_reads_zero]
    have hnil : l.guards = [] :=
      eq_nil_of_holdOf ((hold_of_settled (by rw [hpc]; rfl)).symm.trans hzero)
    rw [hpc] at hfits
    exact Local.good_of_not_writing hfits hnil fun hid => hfits (hiff.mpr hid)
  | store hpc =>
    rw [hpc] at hfits
    exact ⟨hl.bottom, hfits, fun _ => rfl, fun _ => .inr (.inl rfl)⟩
  | enter waitNum hpc =>
    rw [hpc] at hfits
    have hnil : l.guards = [] := hfits
    refine Local.good_of_writing mem_cons_self ?_ True.intro (hdone hpc)
    rw [Local.enter, hnil]
    rfl
  | unlockWrite rest hpc hguards =>
    rcases last_or_nested hl hs ht hpc hguards with ⟨hlast, rfl⟩ | ⟨hlast, hmem⟩
    · rw [if_pos hlast]
      have hnil : (l.leave .writeClear).guards = [] := guards_leave hguards _
      have hnot : ¬(l.leave .writeClear).Writing := by simp [Local.Writing, hnil]
      exact ⟨fun h => absurd h hnot, hnil, fun h => absurd h hnot, fun _ => .inr (.inr rfl)⟩
    · rw [if_neg hlast]
      exact hl.leave hguards hmem rfl
  | readUnlockSkip hpc hid =>
    have hw : l.Writing := (hl.writing_iff (by rw [hpc]; rfl)).mpr hid
    rw [hpc] at hfits
    obtain ⟨rest, hguards⟩ := hfits
    exact hl.leave hguards (by simpa [Local.Writing, hguards] using hw) rfl
  | readUnlock hpc =>
    have hiff := hl.writing_iff (by rw [hpc]; rfl)
    rw [hpc] at hfits
    obtain ⟨rest, hguards, hnot⟩ := hfits
    have hnot₀ : ¬l.Writing := by simpa [Local.Writing, hguards] using hnot
    have hnot' : ¬(l.leave .body).Writing := by rwa [Local.Writing, guards_leave hguards]
    exact Local.good_of_not_writing hnot' True.intro fun hid => hnot₀ (hiff.mpr hid)
  | clear hpc =>
    rw [hpc] at hfits
    have hnil : l.guards = [] := hfits
    have hnot : ¬l.Writing := by simp [Local.Writing, hnil]
    exact Local.good_of_not_writing hnot True.intro fun hid => by cases hid

end Cyber.ReentrantRWLock
