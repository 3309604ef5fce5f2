import Notebook.ShmTest.Block

/-!
# The block lock of `SHM_TEST`, one atomic operation at a time

The functions of `Block` (`shm_src/block.cpp`) and of the set of process ids (`lockless.h`) are
taken apart into their loads, stores and exchanges, so that a process can die between any two of
them: before it has recorded its id, in the middle of a release, or in `AnyAlive`, when it has
removed the record of another process and not yet undone its lock.

When every process that has ever used a block is dead, a newcomer that fails to take the lock calls
`AnyAlive` and tries again. Nobody interferes with it, so its steps compute the functions of
`ShmTest.Block`.

## Main definitions

* `prog` — the operations, one at a time.
* `Acquires` — the newcomer runs alone through its attempt to take the lock.
* `History` — what a history leaves behind in the block.

## Main results

* `runs_anyAlive` — the steps of `AnyAlive` compute `Mem.anyAlive`.
* `recovers_iff_recorded` — when a newcomer recovers the lock.
-/

open Interleaving Function List Option

namespace ShmTest

/-- `MAX_TRY_LOCK_TIMES` -/
def maxTryLockTimes : ℕ := 5

/-- The number of processes that are recorded. -/
def Mem.records (m : Mem) : ℕ := m.pidSet.countP (· ≠ 0)

/-- The values of the counter at which a try-lock succeeds. -/
def Mode.Free : Mode → ℤ → Prop
  | .write, lockNum => lockNum = 0
  | .read, lockNum => 0 ≤ lockNum

namespace Atomic

/-! ### The program of a thread -/

/-- Where a thread is, by the atomic operation that it makes next. The flag `retry` tells the second
attempt to take the lock from the first. The loop of `AnyAlive` is at the slot `i` and has so far
found somebody `alive` or not; `mode` is the lock that the calling function wants. -/
inductive Pc
  | idle
  | casWrite (retry : Bool)
  | loadLockNum (retry : Bool) (tryTimes : ℕ)
  | casRead (retry : Bool) (tryTimes : ℕ) (lockNum : ℤ)
  | loadPid (mode : Mode) (i : ℕ) (alive : Bool)
  | procDead (mode : Mode) (i : ℕ) (alive : Bool) (pid : ℕ)
  | removeLoad (mode : Mode) (i : ℕ) (alive : Bool) (pid idx : ℕ)
  | removeCas (mode : Mode) (i : ℕ) (alive : Bool) (pid idx : ℕ)
  | undoRead (mode : Mode) (i : ℕ) (alive : Bool)
  | undoWrite (mode : Mode) (i : ℕ) (alive : Bool)
  | undoTest (lock : Mode) (mode : Mode) (i : ℕ) (alive : Bool)
  | undoApply (lock : Mode) (mode : Mode) (i : ℕ) (alive : Bool)
  | insertLoad (mode : Mode) (idx : ℕ)
  | insertCas (mode : Mode) (idx : ℕ)
  | holding (mode : Mode)
  | releaseTest (mode : Mode)
  | releaseApply (mode : Mode)
deriving DecidableEq, Repr

/-- What a thread does next: call a function, or make the next atomic operation of the one it is in,
where `spurious` makes a `compare_exchange_weak` fail. -/
inductive Act
  | acquire (mode : Mode)
  | next (spurious : Bool)
  | release
deriving DecidableEq, Repr

/-- The first operation of a try-lock. -/
def tryLock (retry : Bool) : Mode → Pc
  | .write => .casWrite retry
  | .read => .loadLockNum retry 0

/-- A try-lock has failed: `AnyAlive` follows the first attempt, and the call fails, or goes on to
another block, after the second. -/
def tryFailed (mode : Mode) (retry : Bool) : Pc := if retry then .idle else .loadPid mode 0 false

/-- The test at the start of `ReleaseReadLock` and of `ReleaseWriteLock`. -/
def releasable : Mode → ℤ → Bool
  | .write, lockNum => lockNum < 0
  | .read, lockNum => lockNum > 0

/-- The `fetch_add` of `ReleaseWriteLock` and the `fetch_sub` of `ReleaseReadLock`. -/
def released : Mode → ℤ → ℤ
  | .write, lockNum => int32 (lockNum + 1)
  | .read, lockNum => int32 (lockNum - 1)

/-- One atomic operation of a thread of the process `self`. The end of a loop over the slots is a
step of its own. -/
def prog (self : ℕ) (m : Mem) : Pc → Act → Option (Mem × Pc)
  | .idle, .acquire mode => some (m, tryLock false mode)
  | .casWrite retry, .next spurious =>
    if m.lockNum = rwLockFree ∧ ¬spurious then
      some ({ m with lockNum := writeExclusive }, .insertLoad .write 0)
    else some (m, tryFailed .write retry)
  | .loadLockNum retry tryTimes, .next _ =>
    some (m, if rwLockFree > m.lockNum then tryFailed .read retry
      else .casRead retry tryTimes m.lockNum)
  | .casRead retry tryTimes lockNum, .next spurious =>
    if m.lockNum = lockNum ∧ ¬spurious then
      some ({ m with lockNum := int32 (lockNum + 1) }, .insertLoad .read 0)
    else some (m, if maxTryLockTimes = tryTimes + 1 then tryFailed .read retry
      else .loadLockNum retry (tryTimes + 1))
  | .loadPid mode i alive, .next _ =>
    if i < m.pidSet.length then
      let pid := m.pidSet.getD i 0
      some (m, if pid = 0 then .loadPid mode (i + 1) alive
        else .procDead mode i (alive || pid == self) pid)
    else some (m, if alive then .idle else tryLock true mode)
  | .procDead mode i alive pid, .next _ =>
    some (m, if m.procDead pid then .removeLoad mode i alive pid 0 else .loadPid mode (i + 1) true)
  | .removeLoad mode i alive pid idx, .next _ =>
    if idx < m.pidSet.length then
      some (m, if m.pidSet.getD idx 0 = pid then .removeCas mode i alive pid idx
        else .removeLoad mode i alive pid (idx + 1))
    -- `Remove` returns `false` and is called again
    else some (m, .removeLoad mode i alive pid 0)
  | .removeCas mode i alive pid idx, .next _ =>
    if m.pidSet.getD idx 0 = pid then
      some ({ m with pidSet := m.pidSet.set idx 0 }, .undoRead mode i alive)
    else some (m, .removeLoad mode i alive pid 0)
  | .undoRead mode i alive, .next _ =>
    some (m, if m.lockNum > 0 then .undoTest .read mode i alive else .undoWrite mode i alive)
  | .undoWrite mode i alive, .next _ =>
    some (m, if m.lockNum < 0 then .undoTest .write mode i alive
      else .loadPid mode (i + 1) alive)
  | .undoTest lock mode i alive, .next _ =>
    some (m, if releasable lock m.lockNum then .undoApply lock mode i alive
      else .loadPid mode (i + 1) alive)
  | .undoApply lock mode i alive, .next _ =>
    some ({ m with lockNum := released lock m.lockNum }, .loadPid mode (i + 1) alive)
  | .insertLoad mode idx, .next _ =>
    if idx < m.pidSet.length then
      let probedElem := m.pidSet.getD idx 0
      some (m, if probedElem ≠ self then
          if probedElem ≠ 0 then .insertLoad mode (idx + 1) else .insertCas mode idx
        else .holding mode)
    -- the call returns `false` with the lock taken
    else some (m, .idle)
  | .insertCas mode idx, .next _ =>
    if m.pidSet.getD idx 0 = 0 then
      some ({ m with pidSet := m.pidSet.set idx self }, .holding mode)
    else some (m, .insertLoad mode (idx + 1))
  | .holding mode, .release => some (m, .releaseTest mode)
  | .releaseTest mode, .next _ =>
    some (m, if releasable mode m.lockNum then .releaseApply mode else .idle)
  | .releaseApply mode, .next _ => some ({ m with lockNum := released mode m.lockNum }, .idle)
  | _, _ => none

/-- An operation of a thread, or the death of a process. -/
inductive Event (T : Type*)
  | act (t : T) (a : Act)
  | die (pid : ℕ)

/-- A block with the threads that use it. -/
abbrev State (T : Type*) : Type _ := Threads Mem T Pc

/-- A new block. -/
def init (T : Type*) : State T :=
  ⟨⟨0, List.replicate maxProcessNum 0, fun _ => false⟩, fun _ => .idle⟩

variable {T : Type*} [DecidableEq T] (pid : T → ℕ)

/-- One event, where `pid t` is the process of the thread `t`. The threads of a process that has
died do nothing. -/
def step (s : State T) : Event T → Option (State T)
  | .act t a => if s.mem.dead (pid t) then none else Threads.step (prog (pid t)) s (t, a)
  | .die p => some { s with mem := { s.mem with dead := update s.mem.dead p true } }

/-- The thread `t` runs alone through the attempt to take the lock: the try-lock, and, if it fails,
`AnyAlive` and the second try-lock if that finds nobody alive. No exchange fails spuriously. The
attempt takes the lock when the thread arrives at the call of `Insert`. -/
def Acquires (s : State T) (t : T) (mode : Mode) : Prop :=
  ∃ n s', exec (step pid) s
      (.act t (.acquire mode) :: List.replicate n (.act t (.next false))) = some s' ∧
    s'.pc t = .insertLoad mode 0

/-! ### What one step does -/

section Steps

variable {self : ℕ} {m m' : Mem} {l l' : Pc} {a : Act}

/-- The counter has a value of its type. -/
def InRange (n : ℤ) : Prop := -2 ^ 31 ≤ n ∧ n < 2 ^ 31

theorem inRange_int32 (z : ℤ) : InRange (int32 z) := by
  unfold InRange int32
  omega

theorem inRange_released (lock : Mode) (n : ℤ) : InRange (released lock n) := by
  cases lock <;> exact inRange_int32 _

/-- What one operation does to the memory: nobody dies by it, the counter keeps its range, and the
only process it can record is its own. -/
theorem prog_mem (h : prog self m l a = some (m', l')) :
    m'.dead = m.dead ∧ (InRange m.lockNum → InRange m'.lockNum) ∧
      ∀ p ∈ m'.pidSet, p ∈ m.pidSet ∨ p = 0 ∨ p = self := by
  revert h
  fun_cases prog self m l a <;> rintro ⟨⟩
  case case2 =>
    exact ⟨rfl, fun _ => by simp [InRange, writeExclusive], fun p hp => .inl hp⟩
  case case5 => exact ⟨rfl, fun _ => inRange_int32 _, fun p hp => .inl hp⟩
  case case12 =>
    refine ⟨rfl, id, fun p hp => ?_⟩
    rcases mem_or_eq_of_mem_set hp with hp | rfl
    · exact .inl hp
    · exact .inr (.inl rfl)
  case case17 | case24 => exact ⟨rfl, fun _ => inRange_released _ _, fun p hp => .inl hp⟩
  case case20 =>
    refine ⟨rfl, id, fun p hp => ?_⟩
    rcases mem_or_eq_of_mem_set hp with hp | rfl
    · exact .inl hp
    · exact .inr (.inr rfl)
  all_goals exact ⟨rfl, id, fun p hp => .inl hp⟩

end Steps

/-! ### A thread that runs alone -/

section Alone

variable {self : ℕ} {m : Mem} {mode : Mode} {i : ℕ} {alive : Bool}

/-- One operation of a thread that runs alone, before it has taken the lock. -/
def Alone (self : ℕ) (mode : Mode) (x y : Mem × Pc) : Prop :=
  x.2 ≠ .insertLoad mode 0 ∧ prog self x.1 x.2 (.next false) = some y

/-- Some number of such operations. -/
abbrev Runs (self : ℕ) (mode : Mode) : Mem × Pc → Mem × Pc → Prop :=
  Relation.ReflTransGen (Alone self mode)

theorem runs_of_prog {x y z : Mem × Pc} (hx : x.2 ≠ .insertLoad mode 0)
    (h : prog self x.1 x.2 (.next false) = some y) (hyz : Runs self mode y z) :
    Runs self mode x z :=
  .head ⟨hx, h⟩ hyz

variable (self mode i alive) in
theorem runs_remove {pid : ℕ} {after : List ℕ} (rest seen : List ℕ) (hrest : pid ∉ rest)
    (hset : m.pidSet = seen ++ (rest ++ pid :: after)) :
    Runs self mode (m, .removeLoad mode i alive pid seen.length)
      ({ m with pidSet := seen ++ (rest ++ 0 :: after) }, .undoRead mode i alive) := by
  induction rest generalizing seen with
  | nil =>
    have hlt : seen.length < m.pidSet.length := by simp [hset]
    have hget : m.pidSet.getD seen.length 0 = pid := by simp [hset]
    have hnew : m.pidSet.set seen.length 0 = seen ++ 0 :: after := by simp [hset]
    refine runs_of_prog (by simp) (y := (m, .removeCas mode i alive pid seen.length)) ?_ ?_
    · simp only [prog, if_pos hlt, if_pos hget]
    · refine runs_of_prog (by simp)
        (y := ({ m with pidSet := seen ++ 0 :: after }, .undoRead mode i alive))
        ?_ .refl
      simp only [prog, if_pos hget, hnew]
  | cons p rest ih =>
    obtain ⟨hp, hrest⟩ : pid ≠ p ∧ pid ∉ rest := by simpa using hrest
    have hlt : seen.length < m.pidSet.length := by simp [hset]
    have hget : m.pidSet.getD seen.length 0 ≠ pid := by simpa [hset] using hp.symm
    have hrec := ih (seen ++ [p]) hrest (by simp [hset])
    simp only [length_append, length_singleton, append_assoc,
      singleton_append] at hrec
    refine runs_of_prog (by simp) ?_ hrec
    simp only [prog, if_pos hlt, if_neg hget]

variable (self mode i alive) in
/-- The loads and exchanges that undo one lock. -/
theorem runs_undo (hrange : InRange m.lockNum) :
    Runs self mode (m, .undoRead mode i alive) (m.undoLock, .loadPid mode (i + 1) alive) := by
  obtain ⟨hlow, hhigh⟩ := hrange
  rcases lt_trichotomy m.lockNum 0 with hneg | hzero | hpos
  · have hundo : m.undoLock = { m with lockNum := released .write m.lockNum } := by
      have hword : int32 (m.lockNum + 1) = m.lockNum + 1 := int32_eq_self (by omega) (by omega)
      simp only [Mem.undoLock, Mem.releaseWriteLock, released, hword, if_pos hneg,
        if_neg hneg.not_gt]
    rw [hundo]
    refine runs_of_prog (by simp) (y := (m, .undoWrite mode i alive)) (by
      simp only [prog, if_neg hneg.not_gt]) ?_
    refine runs_of_prog (by simp) (y := (m, .undoTest .write mode i alive)) (by
      simp only [prog, if_pos hneg]) ?_
    refine runs_of_prog (by simp) (y := (m, .undoApply .write mode i alive)) (by
      simp [prog, releasable, hneg]) ?_
    exact .single ⟨by simp, rfl⟩
  · have hundo : m.undoLock = m := by simp [Mem.undoLock, hzero]
    rw [hundo]
    refine runs_of_prog (by simp) (y := (m, .undoWrite mode i alive)) (by simp [prog, hzero]) ?_
    exact .single ⟨by simp, by simp [prog, hzero]⟩
  · have hundo : m.undoLock = { m with lockNum := released .read m.lockNum } := by
      have hword : int32 (m.lockNum - 1) = m.lockNum - 1 := int32_eq_self (by omega) (by omega)
      simp only [Mem.undoLock, Mem.releaseReadLock, released, hword, if_pos hpos]
    rw [hundo]
    refine runs_of_prog (by simp) (y := (m, .undoTest .read mode i alive)) (by
      simp only [prog, if_pos hpos]) ?_
    refine runs_of_prog (by simp) (y := (m, .undoApply .read mode i alive)) (by
      simp [prog, releasable, hpos]) ?_
    exact .single ⟨by simp, rfl⟩

theorem InRange.towardsZero {n : ℤ} (h : InRange n) (d : ℕ) : InRange (towardsZero n d) := by
  unfold InRange ShmTest.towardsZero at *
  split <;> omega

variable (self mode alive) in
/-- One round of `AnyAlive` on the record of a dead process. `Remove` finds the slot that the loop
is at, since the slots passed do not hold this process. -/
theorem runs_deadRecord {p : ℕ} {before after : List ℕ} (hset : m.pidSet = before ++ p :: after)
    (hnot : p ∉ before) (hdead : m.procDead p = true) (hrange : InRange m.lockNum) :
    Runs self mode (m, .procDead mode before.length alive p)
      ({ m with lockNum := towardsZero m.lockNum 1, pidSet := before ++ 0 :: after },
        .loadPid mode (before.length + 1) alive) := by
  have hremove := runs_remove self mode before.length alive before [] hnot hset
  have hundo := runs_undo self mode before.length alive
    (m := { m with pidSet := before ++ 0 :: after }) hrange
  rw [Mem.undoLock_eq] at hundo
  refine runs_of_prog (by simp) (y := (m, .removeLoad mode before.length alive p 0)) ?_
    (hremove.trans hundo)
  simp only [prog, if_pos hdead]

/-- The loop of `AnyAlive` from the slot after `before` on. The slots passed hold no dead process
any more. -/
theorem runs_anyAliveLoop (after before : List ℕ) (m : Mem) (alive : Bool)
    (hset : m.pidSet = before ++ after) (hbefore : ∀ p ∈ before, m.procDead p = false)
    (hrange : InRange m.lockNum) :
    let r := Mem.anyAliveLoop self after.length before.length m alive
    Runs self mode (m, .loadPid mode before.length alive)
      (r.2, if r.1 then .idle else tryLock true mode) := by
  induction after generalizing before m alive with
  | nil =>
    refine .single ⟨by simp, ?_⟩
    have hend : ¬before.length < m.pidSet.length := by simp [hset]
    simp only [prog, if_neg hend, Mem.anyAliveLoop, length_nil]
  | cons p after ih =>
    have hlt : before.length < m.pidSet.length := by simp [hset]
    have hget : m.pidSet.getD before.length 0 = p := by simp [hset]
    have hset' : m.pidSet = (before ++ [p]) ++ after := by simp [hset]
    have hlength : ∀ q, (before ++ [q]).length = before.length + 1 := by simp
    have hpassed : ∀ q, m.procDead q = false → ∀ q' ∈ before ++ [q], m.procDead q' = false :=
      fun q hq => forall_mem_append.mpr ⟨hbefore, forall_mem_singleton.mpr hq⟩
    simp only [length_cons, Mem.anyAliveLoop, hget]
    by_cases hp : p = 0
    · have hrec := ih (before ++ [p]) m alive hset' (hpassed p (by simp [Mem.procDead, hp])) hrange
      rw [hlength] at hrec
      rw [if_pos hp]
      refine runs_of_prog (by simp) ?_ hrec
      simp only [prog, if_pos hlt, hget, if_pos hp]
    · rw [if_neg hp]
      refine runs_of_prog (by simp)
        (y := (m, .procDead mode before.length (alive || p == self) p)) ?_ ?_
      · simp only [prog, if_pos hlt, hget, if_neg hp]
      by_cases hdead : m.procDead p = true
      · have hnot : p ∉ before := fun hmem => by simp [hbefore p hmem] at hdead
        have hrec := ih (before ++ [0]) { m with
          lockNum := towardsZero m.lockNum 1, pidSet := before ++ 0 :: after } (alive || p == self)
          (by simp) (hpassed 0 (by simp [Mem.procDead])) (hrange.towardsZero 1)
        rw [hlength] at hrec
        rw [if_pos hdead, Mem.undoLock_eq, hset, LocklessSet.remove_append_cons hnot]
        exact (runs_deadRecord self mode _ hset hnot hdead hrange).trans hrec
      · have hrec :=
          ih (before ++ [p]) m true hset' (hpassed p (Bool.eq_false_iff.mpr hdead)) hrange
        rw [hlength] at hrec
        rw [if_neg hdead]
        refine runs_of_prog (by simp) ?_ hrec
        simp only [prog, if_neg hdead]

variable (self mode) in
/-- **The steps of `AnyAlive` compute `Mem.anyAlive`.** -/
theorem runs_anyAlive (hrange : InRange m.lockNum) :
    Runs self mode (m, .loadPid mode 0 false) ((m.anyAlive self).2,
      if (m.anyAlive self).1 then .idle else tryLock true mode) :=
  runs_anyAliveLoop m.pidSet [] m false rfl (by simp) hrange

/-- The newcomer is alive, and every process that is recorded is dead. -/
structure Abandoned (newcomer : ℕ) (m : Mem) : Prop where
  range : InRange m.lockNum
  alive : m.dead newcomer = false
  dead : ∀ p ∈ m.pidSet, p = 0 ∨ m.dead p = true

namespace Abandoned

variable (h : Abandoned self m)

include h

theorem anyAlive_eq_false : (m.anyAlive self).1 = false := by
  rw [Mem.anyAlive_eq, List.any_eq_false]
  intro p hp
  rcases h.dead p hp with rfl | hdead
  · simp
  · have hne : p ≠ self := by
      rintro rfl
      simp [h.alive] at hdead
    simp [Mem.procDead, hdead, hne]

theorem deadRecords_eq : m.deadRecords = m.records := by
  refine countP_congr fun p hp => ?_
  rcases h.dead p hp with rfl | hdead
  · simp [Mem.procDead]
  · simp [Mem.procDead, hdead]

theorem anyAlive_lockNum : (m.anyAlive self).2.lockNum = towardsZero m.lockNum m.records := by
  rw [Mem.anyAlive_lockNum, h.deadRecords_eq]

theorem runs_retry :
    Runs self mode (m, .loadPid mode 0 false) ((m.anyAlive self).2, tryLock true mode) := by
  have hruns := runs_anyAlive self mode h.range
  rwa [h.anyAlive_eq_false] at hruns

end Abandoned

variable (self) in
theorem runs_tryLock_of_free (retry : Bool) (h : mode.Free m.lockNum) :
    ∃ m', Runs self mode (m, tryLock retry mode) (m', .insertLoad mode 0) := by
  cases mode with
  | write =>
    have hfree : m.lockNum = rwLockFree := h
    exact ⟨_, .single ⟨by simp [tryLock], by simp only [tryLock, prog, hfree]; rfl⟩⟩
  | read =>
    have hfree : ¬rwLockFree > m.lockNum := not_lt.mpr h
    refine ⟨_, runs_of_prog (by simp [tryLock]) (y := (m, .casRead retry 0 m.lockNum)) ?_
      (.single ⟨by simp, by simp [prog]; rfl⟩)⟩
    simp only [tryLock, prog, if_neg hfree]

variable (self) in
theorem runs_tryLock_of_not_free (retry : Bool) (h : ¬mode.Free m.lockNum) :
    Runs self mode (m, tryLock retry mode) (m, tryFailed mode retry) := by
  refine .single ⟨by cases mode <;> simp [tryLock], ?_⟩
  cases mode with
  | write =>
    have hbusy : m.lockNum ≠ rwLockFree := h
    simp [tryLock, prog, hbusy]
  | read =>
    have hbusy : rwLockFree > m.lockNum := not_le.mp h
    simp only [tryLock, prog, if_pos hbusy]

/-- Where a thread arrives that runs alone through the attempt to take the lock: at the call of
`Insert`, or back at `idle`. -/
theorem runs_attempt (h : Abandoned self m) (mode : Mode) :
    ∃ y, Runs self mode (m, tryLock false mode) y ∧
      (y.2 = .insertLoad mode 0 ∧ (mode.Free m.lockNum ∨
          mode.Free (towardsZero m.lockNum m.records)) ∨
        y.2 = .idle ∧ ¬(mode.Free m.lockNum ∨
          mode.Free (towardsZero m.lockNum m.records))) := by
  by_cases hfirst : mode.Free m.lockNum
  · obtain ⟨m', hruns⟩ := runs_tryLock_of_free self false hfirst
    exact ⟨_, hruns, .inl ⟨rfl, .inl hfirst⟩⟩
  · have hretry := (runs_tryLock_of_not_free self false hfirst).trans
      h.runs_retry
    by_cases hsecond : mode.Free (towardsZero m.lockNum m.records)
    · obtain ⟨m', hruns⟩ := runs_tryLock_of_free self true
        (h.anyAlive_lockNum ▸ hsecond)
      exact ⟨_, hretry.trans hruns, .inl ⟨rfl, .inr hsecond⟩⟩
    · have hruns := runs_tryLock_of_not_free self true
        (h.anyAlive_lockNum ▸ hsecond)
      exact ⟨_, hretry.trans hruns, .inr ⟨rfl, by simp [hfirst, hsecond]⟩⟩

end Alone

/-! ### The newcomer in the system -/

variable {pid} {s : State T}

theorem reflTransGen_step {t : T} {mode : Mode} {x y : Mem × Pc}
    (hruns : Runs (pid t) mode x y) (hlive : x.1.dead (pid t) = false) :
    Relation.ReflTransGen
      (fun s s' : State T => ¬s.pc t = .insertLoad mode 0 ∧
        step pid s (.act t (.next false)) = some s')
      ⟨x.1, update s.pc t x.2⟩ ⟨y.1, update s.pc t y.2⟩ := by
  induction hruns using Relation.ReflTransGen.head_induction_on with
  | refl => exact .refl
  | @head x z hstep _ ih =>
    obtain ⟨hx, hprog⟩ := hstep
    have hlive' : z.1.dead (pid t) = false := by rw [(prog_mem hprog).1, hlive]
    refine .head ⟨by simpa using hx, ?_⟩ (ih hlive')
    simp [step, hlive, Threads.step, hprog]

theorem acquires_iff {t : T} (h : Abandoned (pid t) s.mem) (hidle : s.pc t = .idle)
    (mode : Mode) : Acquires pid s t mode ↔
      mode.Free s.mem.lockNum ∨ mode.Free (towardsZero s.mem.lockNum s.mem.records) := by
  have hcall : step pid s (.act t (.acquire mode)) =
      some ⟨s.mem, update s.pc t (tryLock false mode)⟩ := by
    simp [step, h.alive, Threads.step, hidle, prog]
  obtain ⟨y, hruns, hy⟩ := runs_attempt h mode
  have hiff := exists_exec_replicate_iff (reflTransGen_step (s := s) hruns h.alive) fun hnot => by
    rcases hy with ⟨hy, -⟩ | ⟨hy, -⟩
    · simp [hy] at hnot
    · simp [step, Threads.step, hy, prog]
  rw [Acquires]
  simp only [exec_cons, hcall, bind_some]
  rw [hiff]
  rcases hy with ⟨hy, hfree⟩ | ⟨hy, hfree⟩
  · exact iff_of_true (by simp [hy]) hfree
  · exact iff_of_false (by simp [hy]) hfree

/-! ### Histories -/

/-- What a history leaves behind: the counter keeps the range of its type, every process that is
recorded has used the block, and a thread that has done nothing is idle. -/
structure History (pid : T → ℕ) (es : List (Event T)) (s : State T) : Prop where
  range : InRange s.mem.lockNum
  recorded : ∀ p ∈ s.mem.pidSet, p = 0 ∨ ∃ t a, .act t a ∈ es ∧ pid t = p
  idle : ∀ t, (∀ a, .act t a ∉ es) → s.pc t = .idle

variable {es : List (Event T)}

theorem History.step {s s' : State T} {e : Event T} (h : History pid es s)
    (hstep : step pid s e = some s') : History pid (es ++ [e]) s' := by
  cases e with
  | die p =>
    obtain rfl := some.inj hstep
    refine ⟨h.range, fun p hp => ?_, fun t ht => h.idle t fun a ha => ht a (by simp [ha])⟩
    rcases h.recorded p hp with h0 | ⟨t, a, ha, hpid⟩
    · exact .inl h0
    · exact .inr ⟨t, a, by simp [ha], hpid⟩
  | act t a =>
    simp only [Atomic.step] at hstep
    split at hstep
    · simp at hstep
    · obtain ⟨m, l, hp, rfl⟩ := Threads.step_eq_some.mp hstep
      obtain ⟨-, hrange, hrec⟩ := prog_mem hp
      refine ⟨hrange h.range, fun p hp => ?_, fun u hu => ?_⟩
      · rcases hrec p hp with hp | h0 | hself
        · rcases h.recorded p hp with h0 | ⟨u, b, hb, hpid⟩
          · exact .inl h0
          · exact .inr ⟨u, b, by simp [hb], hpid⟩
        · exact .inl h0
        · exact .inr ⟨t, a, by simp, hself.symm⟩
      · have hne : u ≠ t := by
          rintro rfl
          exact hu a (by simp)
        simp only [update_of_ne hne]
        exact h.idle u fun b hb => hu b (by simp [hb])

theorem history_of_exec (h : exec (step pid) (init T) es = some s) : History pid es s := by
  induction es using List.reverseRecOn generalizing s with
  | nil =>
    obtain rfl := some.inj h
    refine ⟨inRange_int32 0, fun p hp => .inl ?_, fun t _ => rfl⟩
    exact eq_of_mem_replicate hp
  | append_singleton es e ih =>
    obtain ⟨s₁, h₁, h₂⟩ := exec_concat_eq_some.mp h
    exact (ih h₁).step h₂

omit [DecidableEq T] in
/-- The block that a newcomer finds after everybody who has used it is dead. -/
theorem History.abandoned (h : History pid es s) {t : T}
    (hdead : ∀ u a, .act u a ∈ es → s.mem.dead (pid u) = true)
    (hlive : s.mem.dead (pid t) = false) : Abandoned (pid t) s.mem where
  range := h.range
  alive := hlive
  dead p hp := by
    rcases h.recorded p hp with h0 | ⟨u, a, ha, rfl⟩
    · exact .inl h0
    · exact .inr (hdead u a ha)

/-- **When a newcomer recovers the lock.** After any history of a block, by any number of processes
with any number of threads, in which every process that has used the block has died, a newcomer
finds `AnyAlive` false. Its attempt to take the write lock succeeds exactly when there are at least
as many records in `m_pidSet` as the counter says; its attempt to take a read lock succeeds also
when the counter is not negative. -/
theorem recovers_iff_recorded (es : List (Event T)) (s : State T)
    (h : exec (step pid) (init T) es = some s)
    (hdead : ∀ u a, .act u a ∈ es → s.mem.dead (pid u) = true) (t : T)
    (hlive : s.mem.dead (pid t) = false) :
    (s.mem.anyAlive (pid t)).1 = false ∧
    (Acquires pid s t .write ↔ s.mem.lockNum.natAbs ≤ s.mem.records) ∧
    (Acquires pid s t .read ↔ 0 ≤ s.mem.lockNum ∨ s.mem.lockNum.natAbs ≤ s.mem.records) := by
  have hist := history_of_exec h
  have habandoned := hist.abandoned hdead hlive
  have hidle : s.pc t = .idle := hist.idle t fun a ha => by simp [hdead t a ha] at hlive
  refine ⟨habandoned.anyAlive_eq_false, ?_, ?_⟩
  · rw [acquires_iff habandoned hidle]
    simp only [Mode.Free, towardsZero]
    split <;> omega
  · rw [acquires_iff habandoned hidle]
    simp only [Mode.Free, towardsZero]
    split <;> omega

theorem recovers_iff_recorded_of_reader :
    ∃ s, exec (step fun t : ℕ => t + 1) (init ℕ)
        (.act 0 (.acquire .read) :: List.replicate 4 (.act 0 (.next false)) ++ [.die 1]) = some s ∧
      s.mem.lockNum = 1 ∧ Acquires (fun t => t + 1) s 1 .write := by
  refine exists_exec_mono (P := fun s => s.mem.lockNum = 1 ∧ s.mem.records = 1 ∧
    s.mem.dead 1 = true ∧ s.mem.dead 2 = false) (by decide +kernel) ?_
  rintro s hs ⟨hnum, hrec, hone, htwo⟩
  refine ⟨hnum, (recovers_iff_recorded _ s hs ?_ 1 htwo).2.1.mpr ?_⟩
  · intro u a hu
    have hact : u = 0 ∧ a = .acquire .read ∨ u = 0 ∧ a = .next false := by simpa using hu
    rcases hact with ⟨rfl, -⟩ | ⟨rfl, -⟩ <;> exact hone
  · simp [hnum, hrec]

/-- **A lock that nobody recovers.** Process `1` dies after `TryLockForWrite` has taken the lock and
before `Insert` has recorded it. Process `2` finds no record that `AnyAlive` could undo, and cannot
take the lock. -/
theorem locked_by_unrecorded :
    ∃ s, exec (step fun t : ℕ => t + 1) (init ℕ)
        [.act 0 (.acquire .write), .act 0 (.next false), .die 1] = some s ∧
      s.mem.dead 1 = true ∧ s.mem.dead 2 = false ∧
      ¬Acquires (fun t => t + 1) s 1 .write ∧ ¬Acquires (fun t => t + 1) s 1 .read := by
  refine exists_exec_mono (P := fun s => s.mem.lockNum = -1 ∧ s.mem.records = 0 ∧
    s.mem.dead 1 = true ∧ s.mem.dead 2 = false) (by decide +kernel) ?_
  rintro s hs ⟨hnum, hrec, hone, htwo⟩
  have hist := history_of_exec hs
  have habandoned : Abandoned 2 s.mem := by
    refine hist.abandoned (t := 1) (fun u a hu => ?_) htwo
    have hact : u = 0 ∧ a = .acquire .write ∨ u = 0 ∧ a = .next false := by simpa using hu
    rcases hact with ⟨rfl, -⟩ | ⟨rfl, -⟩ <;> exact hone
  have hidle : s.pc 1 = .idle := hist.idle 1 (by simp)
  refine ⟨hone, htwo, ?_, ?_⟩
  all_goals
    rw [acquires_iff habandoned hidle, hnum, hrec]
    simp [Mode.Free, towardsZero]

end Atomic

end ShmTest
