import Notebook.Interleaving.CountedLock

/-!
# The block lock of `SHM_TEST` and the death of processes

A `Block` of `SHM_TEST` (`shm_src/block.cpp`) carries a read-write lock in the counter `m_lockNum`,
with the meaning of `Interleaving.CountedLock`, and in `m_pidSet` the ids of processes that took
it. A process that fails to take the lock calls `AnyAlive`, which forgets every recorded process
that has died and undoes one lock for each of them.

The calls of `AcquireBlockToWrite`, `AcquireBlockToRead` and of the two release functions
(`shm_src/alloc_memory_base.cpp`) are modelled on one block; a process can die between any two
steps. Its threads are told apart, so that a process can hold several locks.

A process stays recorded when it releases a lock. `AnyAlive` can therefore undo the lock of a
process that is alive, for the record of one that has died after its release.

## Main definitions

* `Mem.anyAlive`, `prog` — `AnyAlive`, and the steps of a thread.
* `Covers` — what the counter says about the live holders.
* `Accounted` — `AnyAlive` finds no more dead records than there are locks that nobody alive holds.

## Main results

* `Mem.anyAlive_eq` — `AnyAlive` undoes one lock for every record of a dead process.
* `covers_step` — every accounted step keeps the count.
* `writer_excludes` — the lock excludes in accounted runs.
-/

open Interleaving CountedLock Function List

namespace ShmTest

/-! ### The set of process ids -/

namespace LocklessSet

/-- `LocklessSet::Insert` on the slots of the set, in which `0` is an empty slot: the first slot
that is empty or holds the element already; `none` when there is no such slot. -/
def insert (elem : ℕ) : List ℕ → Option (List ℕ)
  | [] => none
  | probedElem :: slots =>
    if probedElem ≠ elem then
      if probedElem ≠ 0 then (insert elem slots).map (probedElem :: ·)
      else some (elem :: slots)
    else some (probedElem :: slots)

/-- `LocklessSet::Remove`: the first slot that holds the element is emptied. -/
def remove (elem : ℕ) : List ℕ → List ℕ
  | [] => []
  | probedElem :: slots =>
    if probedElem = elem then 0 :: slots else probedElem :: remove elem slots

theorem remove_append_cons {elem : ℕ} {before : List ℕ} (h : elem ∉ before) (after : List ℕ) :
    remove elem (before ++ elem :: after) = before ++ 0 :: after := by
  induction before with
  | nil => simp [remove]
  | cons p before ih =>
    obtain ⟨hp, hbefore⟩ : elem ≠ p ∧ elem ∉ before := by simpa using h
    rw [cons_append, remove, if_neg (Ne.symm hp), ih hbefore, cons_append]

end LocklessSet

/-! ### The block -/

/-- `RW_LOCK_FREE` -/
def rwLockFree : ℤ := 0

/-- `WRITE_EXCLUSIVE` -/
def writeExclusive : ℤ := -1

/-- `MAX_PROCESS_NUM` -/
def maxProcessNum : ℕ := 64

/-- The two kinds of lock. -/
inductive Mode
  | write
  | read
deriving DecidableEq, Repr

/-- The fields of a block that take part in locking, and the processes that have died. -/
structure Mem where
  lockNum : ℤ
  pidSet : List ℕ
  dead : ℕ → Bool

variable (currentPid : ℕ)

namespace Mem

variable (m : Mem)

/-- `ReleaseReadLock` -/
def releaseReadLock : Mem :=
  if m.lockNum > 0 then { m with lockNum := m.lockNum - 1 } else m

/-- `ReleaseWriteLock` -/
def releaseWriteLock : Mem :=
  if m.lockNum < 0 then { m with lockNum := m.lockNum + 1 } else m

/-- `ProcDead` -/
def procDead (pid : ℕ) : Bool := pid ≠ 0 ∧ m.dead pid

/-- `AnyAlive` undoes one lock. -/
def undoLock : Mem :=
  if m.lockNum > 0 then m.releaseReadLock
  else if m.lockNum < 0 then m.releaseWriteLock
  else m

/-- The loop of `AnyAlive` over `n` slots from the slot `i` on. -/
def anyAliveLoop (currentPid : ℕ) : ℕ → ℕ → Mem → Bool → Bool × Mem
  | 0, _, m, alive => (alive, m)
  | n + 1, i, m, alive =>
    let pid := m.pidSet.getD i 0
    if pid = 0 then anyAliveLoop currentPid n (i + 1) m alive
    else if m.procDead pid then
      anyAliveLoop currentPid n (i + 1)
        { m with pidSet := LocklessSet.remove pid m.pidSet }.undoLock
        (alive || pid == currentPid)
    else anyAliveLoop currentPid n (i + 1) m true

/-- `AnyAlive`, called by the process `currentPid`. -/
def anyAlive : Bool × Mem :=
  anyAliveLoop currentPid m.pidSet.length 0 m false

/-- The number of recorded processes that have died. -/
def deadRecords : ℕ := m.pidSet.countP m.procDead

end Mem

/-- Where a thread is in `AcquireBlockToWrite` or `AcquireBlockToRead`: about to call `AnyAlive`
after a failed attempt, to try again after it, or to record its process after a successful one;
or it holds the lock. A thread that goes on to another block, or whose call has failed, is
`idle`. -/
inductive Pc
  | idle
  | writeCheck
  | writeRetry
  | writeInsert
  | writing
  | readCheck
  | readRetry
  | readInsert
  | reading
deriving DecidableEq, Repr

/-- The operations on the block. The exchanges of a try-lock can fail spuriously; `TryLockForRead`
fails in this way after `MAX_TRY_LOCK_TIMES` such failures. -/
inductive Act
  | tryLockForWrite (spurious : Bool)
  | tryLockForRead (spurious : Bool)
  | anyAlive
  | insert
  | release
deriving DecidableEq, Repr

/-- One operation of a thread of the process `self`. -/
def prog (self : ℕ) (m : Mem) : Pc → Act → Option (Mem × Pc)
  | .idle, .tryLockForWrite spurious =>
    if m.lockNum = rwLockFree ∧ ¬spurious then
      some ({ m with lockNum := writeExclusive }, .writeInsert)
    else some (m, .writeCheck)
  | .writeCheck, .anyAlive =>
    let r := m.anyAlive self
    some (r.2, if r.1 then .idle else .writeRetry)
  | .writeRetry, .tryLockForWrite spurious =>
    if m.lockNum = rwLockFree ∧ ¬spurious then
      some ({ m with lockNum := writeExclusive }, .writeInsert)
    else some (m, .idle)
  | .writeInsert, .insert =>
    match LocklessSet.insert self m.pidSet with
    | some pidSet => some ({ m with pidSet }, .writing)
    | none => some (m, .idle)
  | .writing, .release => some (m.releaseWriteLock, .idle)
  | .idle, .tryLockForRead spurious =>
    if rwLockFree ≤ m.lockNum ∧ ¬spurious then
      some ({ m with lockNum := int32 (m.lockNum + 1) }, .readInsert)
    else some (m, .readCheck)
  | .readCheck, .anyAlive =>
    let r := m.anyAlive self
    some (r.2, if r.1 then .idle else .readRetry)
  | .readRetry, .tryLockForRead spurious =>
    if rwLockFree ≤ m.lockNum ∧ ¬spurious then
      some ({ m with lockNum := int32 (m.lockNum + 1) }, .readInsert)
    else some (m, .idle)
  | .readInsert, .insert =>
    match LocklessSet.insert self m.pidSet with
    | some pidSet => some ({ m with pidSet }, .reading)
    | none => some (m, .idle)
  | .reading, .release => some (m.releaseReadLock, .idle)
  | _, _ => none

/-- An operation of a thread, or the death of a process. -/
inductive Event (T : Type*)
  | act (t : T) (a : Act)
  | die (pid : ℕ)

variable {T : Type*} [DecidableEq T] (pid : T → ℕ)

/-- A block with the threads that use it; `pid t` is the process of the thread `t`. -/
abbrev State (T : Type*) : Type _ := Threads Mem T Pc

/-- A new block. -/
def init (T : Type*) : State T :=
  ⟨⟨0, List.replicate maxProcessNum 0, fun _ => false⟩, fun _ => .idle⟩

/-- One event. The threads of a process that has died do nothing. -/
def step (s : State T) : Event T → Option (State T)
  | .act t a => if s.mem.dead (pid t) then none else Threads.step (prog (pid t)) s (t, a)
  | .die p => some { s with mem := { s.mem with dead := update s.mem.dead p true } }

/-- What the operations of a thread have taken. -/
def Pc.role : Pc → Role
  | .writeInsert | .writing => .writer
  | .readInsert | .reading => .reader
  | _ => .free

/-- What a thread holds, if its process is alive. -/
def liveRole (s : State T) (t : T) : Role :=
  if s.mem.dead (pid t) then .free else (s.pc t).role

/-! ### What `AnyAlive` does to the counter -/

/-- The number `n` moved towards `0` by `d`. -/
def towardsZero (n : ℤ) (d : ℕ) : ℤ := if 0 ≤ n then max 0 (n - d) else min 0 (n + d)

theorem towardsZero_zero (n : ℤ) : towardsZero n 0 = n := by
  unfold towardsZero
  split <;> simp <;> omega

theorem towardsZero_one_add (n : ℤ) (d : ℕ) :
    towardsZero (towardsZero n 1) d = towardsZero n (d + 1) := by
  unfold towardsZero
  split_ifs <;> omega

namespace Mem

variable {m : Mem}

theorem releaseReadLock_eq : m.releaseReadLock =
    { m with lockNum := if m.lockNum > 0 then m.lockNum - 1 else m.lockNum } := by
  unfold releaseReadLock
  split <;> rfl

theorem releaseWriteLock_eq : m.releaseWriteLock =
    { m with lockNum := if m.lockNum < 0 then m.lockNum + 1 else m.lockNum } := by
  unfold releaseWriteLock
  split <;> rfl

theorem undoLock_eq : m.undoLock = { m with lockNum := towardsZero m.lockNum 1 } := by
  unfold undoLock releaseReadLock releaseWriteLock towardsZero
  obtain ⟨n, slots, dead⟩ := m
  simp only
  split_ifs <;> simp only [Mem.mk.injEq, and_true] <;> omega

/-- The loop empties the slots of the dead processes one after the other, so that each of them
undoes one lock. A record of a live process is reported, and so is one of the caller. -/
theorem anyAliveLoop_eq (after before : List ℕ) (m : Mem) (alive : Bool)
    (hset : m.pidSet = before ++ after) (hbefore : ∀ p ∈ before, m.procDead p = false) :
    anyAliveLoop currentPid after.length before.length m alive =
      (alive || after.any fun p => p != 0 && (!m.procDead p || p == currentPid),
        { m with
          lockNum := towardsZero m.lockNum (after.countP m.procDead)
          pidSet := before ++ after.map fun p => if m.procDead p then 0 else p }) := by
  induction after generalizing before m alive with
  | nil =>
    obtain ⟨n, slots, dead⟩ := m
    obtain rfl : slots = before ++ [] := hset
    simp [anyAliveLoop, towardsZero_zero]
  | cons p after ih =>
    have hget : m.pidSet.getD before.length 0 = p := by simp [hset]
    have hset' : m.pidSet = (before ++ [p]) ++ after := by simp [hset]
    have hlength : ∀ q, before.length + 1 = (before ++ [q]).length := by simp
    have hpassed : ∀ q, m.procDead q = false → ∀ q' ∈ before ++ [q], m.procDead q' = false :=
      fun q hq => forall_mem_append.mpr ⟨hbefore, forall_mem_singleton.mpr hq⟩
    simp only [length_cons, anyAliveLoop, hget]
    by_cases hdead : m.procDead p = true
    · have hp : p ≠ 0 := by
        rintro rfl
        simp [procDead] at hdead
      have hnot : p ∉ before := fun hmem => by simp [hbefore p hmem] at hdead
      rw [if_neg hp, if_pos hdead, undoLock_eq, hset, LocklessSet.remove_append_cons hnot,
        hlength 0]
      refine (ih (before ++ [0]) ⟨towardsZero m.lockNum 1, before ++ 0 :: after, m.dead⟩
        (alive || p == currentPid) (by simp) (hpassed 0 (by simp [procDead]))).trans ?_
      have hproc : procDead ⟨towardsZero m.lockNum 1, before ++ 0 :: after, m.dead⟩ = m.procDead :=
        rfl
      simp [hproc, towardsZero_one_add, hdead, bne_iff_ne.mpr hp, Bool.or_assoc]
    · rw [hlength p, ih (before ++ [p]) m alive hset' (hpassed p (Bool.eq_false_iff.mpr hdead)),
        ih (before ++ [p]) m true hset' (hpassed p (Bool.eq_false_iff.mpr hdead)),
        countP_cons_of_neg hdead]
      by_cases hp : p = 0
      · simp [hp, procDead]
      · simp [hp, hdead]

/-- **`AnyAlive` undoes one lock for every record of a dead process**, empties their slots, and
returns `true` for a record of a live process or of the caller. -/
theorem anyAlive_eq (m : Mem) : m.anyAlive currentPid =
    (m.pidSet.any fun p => p != 0 && (!m.procDead p || p == currentPid),
      { m with
        lockNum := towardsZero m.lockNum m.deadRecords
        pidSet := m.pidSet.map fun p => if m.procDead p then 0 else p }) :=
  anyAliveLoop_eq currentPid m.pidSet [] m false rfl (by simp)

theorem anyAlive_lockNum (m : Mem) :
    (m.anyAlive currentPid).2.lockNum = towardsZero m.lockNum m.deadRecords := by
  rw [anyAlive_eq]

end Mem

/-! ### Exclusion -/

/-- What the counter says about the live holders: one live writer alone, or no live writer and no
more live readers than the counter says. -/
inductive Covers (n : ℤ) (role : T → Role) : Prop
  | shared (k : ℕ) (hn : k = 0 ∨ (k : ℤ) ≤ n) (hr : InPhase (· = .reader) role k)
      (hw : InPhase (· = .writer) role 0) : Covers n role
  | exclusive (hn : n = -1) (hr : InPhase (· = .reader) role 0)
      (hw : InPhase (· = .writer) role 1) : Covers n role

/-- The condition on a step: `AnyAlive` finds no more records of dead processes than there are
locks that no live process holds, and the number of readers does not overflow. -/
def Accounted (s : State T) : Event T → Prop
  | .act _ .anyAlive => s.mem.deadRecords = 0 ∨
    InPhase (· = .writer) (liveRole pid s) 0 ∧
      ∀ k : ℕ, InPhase (· = .reader) (liveRole pid s) k →
        k = 0 ∨ (k : ℤ) + s.mem.deadRecords ≤ s.mem.lockNum
  | .act _ (.tryLockForRead _) => s.mem.lockNum < 2 ^ 31 - 1
  | _ => True

variable {pid} {n n' : ℤ} {role : T → Role} {t : T}

omit [DecidableEq T] in
theorem Covers.excludes (h : Covers n role) (ht : role t = .writer) {u : T} (hu : u ≠ t) :
    role u = .free := by
  cases h with
  | shared k hn hr hw => exact absurd ht (inPhase_zero_iff.mp hw t)
  | exclusive hn hr hw =>
    cases hru : role u with
    | free => rfl
    | reader => exact absurd hru (inPhase_zero_iff.mp hr u)
    | writer => exact absurd (hw.eq_of_one hru ht) hu

omit [DecidableEq T] in
/-- The death of a process makes its threads give up what they hold, as far as the live ones are
concerned. -/
theorem Covers.of_free {role' : T → Role} (h : Covers n role)
    (hrole : ∀ t, role' t = role t ∨ role' t = .free) : Covers n role' := by
  have hsub : ∀ r, r ≠ Role.free → ∀ t, role' t = r → role t = r := by
    intro r hr t ht
    rcases hrole t with heq | heq
    · rw [← heq, ht]
    · exact absurd (ht.symm.trans heq) hr
  cases h with
  | shared k hn hr hw =>
    obtain ⟨k', hk', hr'⟩ := hr.of_imp (hsub .reader (by decide))
    obtain ⟨j, hj, hw'⟩ := hw.of_imp (hsub .writer (by decide))
    obtain rfl : j = 0 := by omega
    exact .shared k' (by omega) hr' hw'
  | exclusive hn hr hw =>
    obtain ⟨k', hk', hr'⟩ := hr.of_imp (hsub .reader (by decide))
    obtain ⟨j, hj, hw'⟩ := hw.of_imp (hsub .writer (by decide))
    obtain rfl : k' = 0 := by omega
    rcases Nat.le_one_iff_eq_zero_or_eq_one.mp hj with rfl | rfl
    · exact .shared 0 (.inl rfl) hr' hw'
    · exact .exclusive hn hr' hw'

/-- What the operations of a live thread other than `AnyAlive` do to the counter and to what the
thread holds. A thread whose process cannot be recorded gives up, with its lock left in the
counter. -/
inductive Op : ℤ → Role → ℤ → Role → Prop
  | keep (n : ℤ) (r : Role) : Op n r n r
  | lockWrite : Op 0 .free (-1) .writer
  | lockRead (n : ℤ) (h : 0 ≤ n) : Op n .free (n + 1) .reader
  | unlockWrite (n : ℤ) : Op n .writer (if n < 0 then n + 1 else n) .free
  | unlockRead (n : ℤ) : Op n .reader (if n > 0 then n - 1 else n) .free
  | leave (n : ℤ) (r : Role) : Op n r n .free

/-- **The operations of live threads keep the count.** -/
theorem Op.covers {r' : Role} (op : Op n (role t) n' r') (h : Covers n role) :
    Covers n' (update role t r') := by
  generalize hr₀ : role t = r₀ at op
  cases op with
  | keep => rwa [← hr₀, update_eq_self]
  | lockWrite =>
    cases h with
    | shared k hn hr hw =>
      obtain rfl : k = 0 := by omega
      exact .exclusive rfl (hr.stay (by simp [hr₀])) (hw.enter (by simp [hr₀]) rfl)
    | exclusive hn hr hw => omega
  | lockRead n h0 =>
    cases h with
    | shared k hn hr hw =>
      exact .shared (k + 1) (by push_cast; omega) (hr.enter (by simp [hr₀]) rfl)
        (hw.stay (by simp [hr₀]))
    | exclusive hn hr hw => omega
  | unlockWrite n =>
    cases h with
    | shared k hn hr hw => exact absurd hr₀ (inPhase_zero_iff.mp hw t)
    | exclusive hn hr hw =>
      exact .shared 0 (.inl rfl) (hr.stay (by simp [hr₀])) (hw.leave hr₀ (by decide))
  | unlockRead n =>
    cases h with
    | shared k hn hr hw =>
      obtain ⟨j, rfl⟩ : ∃ j, k = j + 1 := Nat.exists_eq_succ_of_ne_zero (hr.pos hr₀).ne'
      refine .shared j ?_ (hr.leave hr₀ (by decide)) (hw.stay (by simp [hr₀]))
      split <;> omega
    | exclusive hn hr hw => exact absurd hr₀ (inPhase_zero_iff.mp hr t)
  | leave n r =>
    refine h.of_free fun u => ?_
    by_cases hu : u = t
    · subst hu
      exact .inr (update_self ..)
    · exact .inl (update_of_ne hu ..)

omit [DecidableEq T] in
/-- `AnyAlive` keeps the count when the records that it finds are accounted for. -/
theorem Covers.undo (h : Covers n role) {d : ℕ}
    (hd : d = 0 ∨ InPhase (· = .writer) role 0 ∧
      ∀ k : ℕ, InPhase (· = .reader) role k → k = 0 ∨ (k : ℤ) + d ≤ n) :
    Covers (towardsZero n d) role := by
  rcases hd with rfl | ⟨hnone, hd⟩
  · rwa [towardsZero_zero]
  · cases h with
    | shared k hn hr hw =>
      refine .shared k ?_ hr hw
      have := hd k hr
      unfold towardsZero
      split <;> omega
    | exclusive hn hr hw =>
      obtain ⟨u, hu⟩ := hw.exists_of_pos one_pos
      exact absurd hu (inPhase_zero_iff.mp hnone u)

theorem prog_cases {self : ℕ} {m m' : Mem} {l l' : Pc} {a : Act}
    (h : prog self m l a = some (m', l'))
    (hlt : ∀ b, a = .tryLockForRead b → m.lockNum < 2 ^ 31 - 1) :
    m'.dead = m.dead ∧ (Op m.lockNum l.role m'.lockNum l'.role ∨
      a = .anyAlive ∧ m'.lockNum = towardsZero m.lockNum m.deadRecords ∧
        l.role = .free ∧ l'.role = .free) := by
  revert h
  fun_cases prog self m l a <;> rintro ⟨⟩
  case case1 hfree | case4 hfree =>
    rw [hfree.1]
    exact ⟨rfl, .inl .lockWrite⟩
  case case3 | case11 =>
    refine ⟨congrArg (·.2.dead) (m.anyAlive_eq self), .inr ⟨rfl, m.anyAlive_lockNum self, rfl, ?_⟩⟩
    split <;> rfl
  case case7 | case15 => exact ⟨rfl, .inl (.leave _ _)⟩
  case case8 =>
    rw [Mem.releaseWriteLock_eq]
    exact ⟨rfl, .inl (.unlockWrite _)⟩
  case case9 hfree | case12 hfree =>
    have hwrap : int32 (m.lockNum + 1) = m.lockNum + 1 := by
      have := hlt _ rfl
      have : 0 ≤ m.lockNum := hfree.1
      exact int32_eq_self (by omega) (by omega)
    rw [hwrap]
    exact ⟨rfl, .inl (.lockRead _ hfree.1)⟩
  case case16 =>
    rw [Mem.releaseReadLock_eq]
    exact ⟨rfl, .inl (.unlockRead _)⟩
  all_goals exact ⟨rfl, .inl (.keep _ _)⟩

theorem liveRole_act {s s' : State T} (hlive : s.mem.dead (pid t) = false) {l : Pc}
    (hdead : s'.mem.dead = s.mem.dead) (hpc : s'.pc = update s.pc t l) :
    liveRole pid s' = update (liveRole pid s) t l.role := by
  funext u
  by_cases hu : u = t
  · subst hu
    simp [liveRole, hdead, hpc, hlive]
  · simp [liveRole, hdead, hpc, hu]

/-- **Every step that is accounted for keeps the count.** -/
theorem covers_step {s s' : State T} {e : Event T}
    (h : Covers s.mem.lockNum (liveRole pid s)) (he : Accounted pid s e)
    (hstep : step pid s e = some s') : Covers s'.mem.lockNum (liveRole pid s') := by
  cases e with
  | die p =>
    obtain rfl := Option.some.inj hstep
    refine h.of_free fun u => ?_
    by_cases hu : pid u = p
    · exact .inr (by simp [liveRole, hu])
    · exact .inl (by simp [liveRole, hu])
  | act t a =>
    simp only [step] at hstep
    split at hstep
    · simp at hstep
    · rename_i hlive
      have hlive : s.mem.dead (pid t) = false := Bool.eq_false_iff.mpr hlive
      obtain ⟨m, l, hp, rfl⟩ := Threads.step_eq_some.mp hstep
      have hrole : liveRole pid s t = (s.pc t).role := by simp [liveRole, hlive]
      obtain ⟨hdead, hcases⟩ := prog_cases hp fun b hb => by
        subst hb
        exact he
      rw [liveRole_act hlive hdead rfl]
      rcases hcases with hop | ⟨rfl, hundo, hfree, hfree'⟩
      · rw [← hrole] at hop
        exact hop.covers h
      · rw [hfree', ← hfree, ← hrole, update_eq_self]
        simp only [hundo]
        exact h.undo he

omit [DecidableEq T] in
theorem covers_init : Covers (init T).mem.lockNum (liveRole pid (init T)) :=
  .shared 0 (.inl rfl) (inPhase_zero_iff.mpr fun u => by simp [init, liveRole, Pc.role])
    (inPhase_zero_iff.mpr fun u => by simp [init, liveRole, Pc.role])

/-- **Exclusion.** In every run in which `AnyAlive` never finds more records of dead processes
than there are locks that no live process holds (and the number of readers does not overflow), no
live process holds the write lock while another thread of a live process holds the read or the
write lock. -/
theorem writer_excludes (es : List (Event T)) (s : State T)
    (h : exec (step pid) (init T) es = some s)
    (hacc : AllSteps (step pid) (Accounted pid) (init T) es) (t u : T) (hne : u ≠ t)
    (ht : liveRole pid s t = .writer) : liveRole pid s u = .free := by
  have hcovers : Covers s.mem.lockNum (liveRole pid s) := by
    refine exec_invariant_of_allSteps (fun s => Covers s.mem.lockNum (liveRole pid s))
      (fun _ _ _ hs he hstep => covers_step hs he hstep) ?_ hacc h
    exact covers_init
  exact hcovers.excludes ht hne

theorem writer_excludes_after_recovery :
    ∃ s, exec (step fun t : Fin 2 => t.val + 1) (init (Fin 2))
        [.act 0 (.tryLockForWrite false), .act 0 .insert, .die 1,
          .act 1 (.tryLockForWrite false), .act 1 .anyAlive, .act 1 (.tryLockForWrite false)] =
        some s ∧
      liveRole (fun t : Fin 2 => t.val + 1) s 1 = .writer ∧
      liveRole (fun t : Fin 2 => t.val + 1) s 0 = .free := by
  refine exists_exec_mono (P := fun s => liveRole (fun t : Fin 2 => t.val + 1) s 1 = .writer)
    (by decide +kernel) fun s hs hrole => ⟨hrole, writer_excludes _ s hs ?_ 1 0 (by decide) hrole⟩
  refine (allSteps_cons rfl).mpr ⟨trivial, (allSteps_cons rfl).mpr ⟨trivial,
    (allSteps_cons rfl).mpr ⟨trivial, (allSteps_cons rfl).mpr ⟨trivial,
      (allSteps_cons rfl).mpr ⟨.inr ⟨inPhase_zero_iff.mpr fun t => ?_, fun k hk => .inl ?_⟩,
        (allSteps_cons rfl).mpr ⟨trivial, trivial⟩⟩⟩⟩⟩⟩
  · revert t
    decide
  · by_contra hpos
    obtain ⟨t, ht⟩ := hk.exists_of_pos (pos_of_ne_zero hpos)
    revert t
    decide

/-- **Two live writers.** Process `1` reads and releases, and dies; its record stays. Process `2`
takes the write lock. Process `3` fails to take it and calls `AnyAlive`, which undoes the lock of
process `2` for the record of process `1`; its next attempt succeeds. -/
theorem two_writers :
    ∃ s, exec (step fun t : Fin 3 => t.val + 1) (init (Fin 3))
        [.act 0 (.tryLockForRead false), .act 0 .insert, .act 0 .release, .die 1,
          .act 1 (.tryLockForWrite false), .act 1 .insert, .act 2 (.tryLockForWrite false),
          .act 2 .anyAlive, .act 2 (.tryLockForWrite false), .act 2 .insert] = some s ∧
      liveRole (fun t : Fin 3 => t.val + 1) s 1 = .writer ∧
      liveRole (fun t : Fin 3 => t.val + 1) s 2 = .writer :=
  ⟨_, rfl, rfl, rfl⟩

end ShmTest
