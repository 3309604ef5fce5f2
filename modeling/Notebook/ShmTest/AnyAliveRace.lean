import Notebook.ShmTest.BlockSteps

/-!
# Two processes that remove one dead process

For a recorded process that has died, `AnyAlive` (`shm_src/block.cpp`) calls `Remove` until it
returns `true`. When two processes have read the same record, one of them removes it; `Remove` then
returns `false` to the other for ever, unless the id is inserted again.

The processes run the program of `ShmTest.Atomic`, one atomic operation at a time, from any state in
which nobody is in the loop. The records may be arbitrary.
-/

open Interleaving List Option Threads

namespace ShmTest

namespace Atomic

/-- The process in whose `while (!m_pidSet.Remove(pid))` a thread is. -/
def removing : Pc → Option ℕ
  | .removeLoad _ _ _ pid _ => some pid
  | .removeCas _ _ _ pid _ => some pid
  | _ => none

variable {T : Type*} [DecidableEq T] (pid : T → ℕ)

/-- A live thread is in the loop that removes a dead process, and no slot holds this process. -/
def Stuck (s : State T) : Prop :=
  ∃ t p, s.mem.dead (pid t) = false ∧ removing (s.pc t) = some p ∧ s.mem.dead p = true ∧
    p ∉ s.mem.pidSet

/-- A thread enters the loop while the process is still recorded, and the exchange that takes the
last record of a process finds no other live thread in the loop for this process. -/
def RecordKept (s : State T) : Event T → Prop
  | .act t _ =>
    match s.pc t with
    | .procDead _ _ _ p => s.mem.procDead p = true → p ∈ s.mem.pidSet
    | .removeCas _ _ _ p idx =>
      s.mem.pidSet.getD idx 0 = p → p ∈ s.mem.pidSet.set idx 0 ∨
        ∀ u ≠ t, s.mem.dead (pid u) = false → removing (s.pc u) ≠ some p
    | _ => True
  | .die _ => True

/-! ### What one operation does to the records -/

theorem removing_tryLock (retry : Bool) (mode : Mode) : removing (tryLock retry mode) = none := by
  cases mode <;> rfl

theorem removing_tryFailed (mode : Mode) (retry : Bool) :
    removing (tryFailed mode retry) = none := by
  cases retry <;> rfl

theorem mem_set_of_getD_ne {p idx : ℕ} {slots : List ℕ} {x : ℕ} (hp : p ∈ slots)
    (hne : slots.getD idx 0 ≠ p) : p ∈ slots.set idx x := by
  obtain ⟨k, hk, rfl⟩ := mem_iff_getElem.mp hp
  have hkidx : idx ≠ k := by
    rintro rfl
    exact hne (by simp [getD_eq_getElem?_getD, hk])
  refine mem_iff_getElem.mpr ⟨k, by simpa using hk, ?_⟩
  rw [getElem_set_of_ne hkidx]

theorem getD_ne_of_notMem {p idx : ℕ} {slots : List ℕ} (hp : p ∉ slots) (h0 : p ≠ 0) :
    slots.getD idx 0 ≠ p := by
  rw [getD_eq_getElem?_getD]
  cases h : slots[idx]? with
  | none => exact Ne.symm h0
  | some x =>
    rintro rfl
    exact hp (mem_of_getElem? h)

section Steps

variable {self : ℕ} {m m' : Mem} {l l' : Pc} {a : Act} {p : ℕ}

section

variable (h : prog self m l a = some (m', l'))

include h

/-- **What an operation does to the slots.** It leaves them as they are, empties one that holds the
process it removes, or fills a free one. -/
theorem prog_pidSet : m'.pidSet = m.pidSet ∨
      (∃ mode i alive p idx, l = .removeCas mode i alive p idx ∧ m.pidSet.getD idx 0 = p ∧
        m'.pidSet = m.pidSet.set idx 0 ∧ removing l' = none) ∨
      ∃ mode idx, l = .insertCas mode idx ∧ m.pidSet.getD idx 0 = 0 ∧
        m'.pidSet = m.pidSet.set idx self ∧ removing l' = none := by
  revert h
  fun_cases prog self m l a <;> rintro ⟨⟩
  case case12 => exact .inr (.inl ⟨_, _, _, _, _, rfl, rfl, rfl, rfl⟩)
  case case20 hslot => exact .inr (.inr ⟨_, _, rfl, hslot, rfl, rfl⟩)
  all_goals exact .inl rfl

/-- **How a thread comes to be in the loop.** It was there before, or it has found its process dead;
the slots do not change by that. -/
theorem prog_removing (hremoving : removing l' = some p) : m'.pidSet = m.pidSet ∧
      (removing l = some p ∨
        (∃ mode i alive, l = .procDead mode i alive p) ∧ m.procDead p = true) := by
  revert h hremoving
  fun_cases prog self m l a <;> rintro ⟨⟩ hremoving
  case case9 =>
    split_ifs at hremoving with hdead
    · obtain rfl := some.inj hremoving
      exact ⟨rfl, .inr ⟨⟨_, _, _, rfl⟩, hdead⟩⟩
    · cases hremoving
  case case10 =>
    split_ifs at hremoving <;> exact ⟨rfl, .inl hremoving⟩
  case case11 | case13 => exact ⟨rfl, .inl hremoving⟩
  -- all other operations lead out of the loop or stay outside
  case case1 => simp only [removing_tryLock, reduceCtorEq] at hremoving
  case case3 => simp only [removing_tryFailed, reduceCtorEq] at hremoving
  case case4 | case6 | case7 | case8 | case14 | case15 | case16 | case18 | case23 =>
    split_ifs at hremoving <;>
      first
        | cases hremoving
        | simp only [removing_tryLock, removing_tryFailed, reduceCtorEq] at hremoving
  all_goals cases hremoving

/-- A process that is not recorded stays so when it does not insert itself. -/
theorem prog_notMem (hp : p ∉ m.pidSet) (h0 : p ≠ 0)
    (hself : ∀ mode idx, l = .insertCas mode idx → self ≠ p) : p ∉ m'.pidSet := by
  intro hmem
  rcases prog_pidSet h with heq | ⟨-, -, -, -, idx, -, -, heq, -⟩ | ⟨mode, idx, hl, -, heq, -⟩
  · exact hp (heq ▸ hmem)
  · rcases mem_or_eq_of_mem_set (heq ▸ hmem) with hmem | rfl
    · exact hp hmem
    · exact h0 rfl
  · rcases mem_or_eq_of_mem_set (heq ▸ hmem) with hmem | rfl
    · exact hp hmem
    · exact hself mode idx hl rfl

theorem prog_mem_pidSet (hp : p ∈ m.pidSet) (h0 : p ≠ 0)
    (hcas : ∀ mode i alive idx, l = .removeCas mode i alive p idx → m.pidSet.getD idx 0 = p →
      p ∈ m.pidSet.set idx 0) : p ∈ m'.pidSet := by
  rcases prog_pidSet h with heq | ⟨mode, i, alive, q, idx, hl, hslot, heq, -⟩ |
    ⟨mode, idx, -, hslot, heq, -⟩
  · exact heq ▸ hp
  · rw [heq]
    by_cases hq : q = p
    · subst hq
      exact hcas mode i alive idx hl hslot
    · exact mem_set_of_getD_ne hp (hslot ▸ hq)
  · rw [heq]
    exact mem_set_of_getD_ne hp (by rw [hslot]; exact Ne.symm h0)

end

theorem prog_of_procDead {mode : Mode} {i p : ℕ} {alive : Bool}
    (h : prog self m (.procDead mode i alive p) a = some (m', l')) (hdead : m.procDead p = true) :
    m' = m ∧ l' = .removeLoad mode i alive p 0 := by
  cases a with
  | next spurious =>
    simp only [prog, if_pos hdead, some.injEq, Prod.mk.injEq] at h
    exact ⟨h.1.symm, h.2.symm⟩
  | acquire | release => cases h

theorem prog_of_removeCas {mode : Mode} {i p idx : ℕ} {alive : Bool}
    (h : prog self m (.removeCas mode i alive p idx) a = some (m', l'))
    (hslot : m.pidSet.getD idx 0 = p) : m'.pidSet = m.pidSet.set idx 0 := by
  cases a with
  | next spurious =>
    simp only [prog, if_pos hslot, some.injEq, Prod.mk.injEq] at h
    rw [← h.1]
  | acquire | release => cases h

/-- `Remove` does not find a process that is not recorded, and is called again. -/
theorem prog_removing_of_notMem (h : prog self m l a = some (m', l'))
    (hremoving : removing l = some p) (hp : p ∉ m.pidSet) (h0 : p ≠ 0) :
    removing l' = some p := by
  have hslot (idx : ℕ) : m.pidSet.getD idx 0 ≠ p := getD_ne_of_notMem hp h0
  cases l with
  | removeLoad mode i alive q idx =>
    obtain rfl := some.inj hremoving
    cases a with
    | next spurious =>
      rw [prog] at h
      split_ifs at h <;> obtain ⟨-, rfl⟩ := Prod.mk.inj (some.inj h) <;> rfl
    | acquire | release => cases h
  | removeCas mode i alive q idx =>
    obtain rfl := some.inj hremoving
    cases a with
    | next spurious =>
      rw [prog, if_neg (hslot idx)] at h
      obtain ⟨-, rfl⟩ := Prod.mk.inj (some.inj h)
      rfl
    | acquire | release => cases h
  | _ => cases hremoving

end Steps

/-! ### Runs -/

section Runs

variable {pid} {s s' : State T} {t : T} {a : Act} {p : ℕ}

theorem step_act (h : step pid s (.act t a) = some s') :
    s.mem.dead (pid t) = false ∧ prog (pid t) s.mem (s.pc t) a = some (s'.mem, s'.pc t) ∧
      ∀ u ≠ t, s'.pc u = s.pc u := by
  rw [step] at h
  split_ifs at h with hdead
  exact ⟨Bool.eq_false_iff.mpr hdead, prog_of_step h, fun u => pc_of_ne h⟩

theorem procDead_eq_true {m : Mem} : m.procDead p = true ↔ p ≠ 0 ∧ m.dead p = true := by
  simp [Mem.procDead]

/-- The processes that are removed have died. -/
def RemovesDead (s : State T) : Prop :=
  ∀ t p, removing (s.pc t) = some p → s.mem.procDead p = true

variable {e : Event T}

theorem RemovesDead.step (hs : RemovesDead s) (h : step pid s e = some s') : RemovesDead s' := by
  intro u p hremoving
  cases e with
  | die q =>
    obtain rfl := some.inj h
    obtain ⟨h0, hdead⟩ := procDead_eq_true.mp (hs u p hremoving)
    refine procDead_eq_true.mpr ⟨h0, ?_⟩
    by_cases hq : p = q <;> simp [hq, hdead]
  | act t a =>
    obtain ⟨-, hprog, hothers⟩ := step_act h
    have hdead : s'.mem.procDead p = s.mem.procDead p := by
      simp only [Mem.procDead, (prog_mem hprog).1]
    rw [hdead]
    by_cases hu : u = t
    · subst hu
      rcases (prog_removing hprog hremoving).2 with hbefore | ⟨-, hdead⟩
      · exact hs u p hbefore
      · exact hdead
    · exact hs u p (by rwa [← hothers u hu])

/-- A step that keeps the records leaves nobody removing a process without one. -/
theorem not_stuck_step (hs : RemovesDead s) (hstuck : ¬Stuck pid s)
    (hkept : RecordKept pid s e) (h : step pid s e = some s') : ¬Stuck pid s' := by
  rintro ⟨u, p, hlive, hremoving, hdead, hnot⟩
  cases e with
  | die q =>
    obtain rfl := some.inj h
    have hlive' : s.mem.dead (pid u) = false := by
      by_contra hdead'
      by_cases hq : pid u = q <;> simp_all
    exact hstuck ⟨u, p, hlive', hremoving, (procDead_eq_true.mp (hs u p hremoving)).2, hnot⟩
  | act t a =>
    obtain ⟨hlivet, hprog, hothers⟩ := step_act h
    have hdeads : s'.mem.dead = s.mem.dead := (prog_mem hprog).1
    rw [hdeads] at hlive hdead
    by_cases hu : u = t
    · subst hu
      obtain ⟨hslots, hbefore | ⟨⟨mode, i, alive, hpc⟩, hproc⟩⟩ := prog_removing hprog hremoving
      · exact hstuck ⟨u, p, hlive, hbefore, hdead, hslots ▸ hnot⟩
      · rw [RecordKept, hpc] at hkept
        exact hnot (hslots ▸ hkept hproc)
    -- another thread was in the loop before, so its record was there before
    · rw [hothers u hu] at hremoving
      have h0 : p ≠ 0 := (procDead_eq_true.mp (hs u p hremoving)).1
      have hmem : p ∈ s.mem.pidSet := by
        by_contra hmem
        exact hstuck ⟨u, p, hlive, hremoving, hdead, hmem⟩
      refine hnot (prog_mem_pidSet hprog hmem h0 fun mode i alive idx hpc hslot => ?_)
      rw [RecordKept, hpc] at hkept
      exact (hkept hslot).resolve_right fun hnone => hnone u hu hlive hremoving

/-- A step that loses a record leaves a thread removing it. -/
theorem stuck_of_not_recordKept (hs : RemovesDead s) (hkept : ¬RecordKept pid s e)
    (h : step pid s e = some s') : Stuck pid s' := by
  cases e with
  | die q => exact absurd trivial hkept
  | act t a =>
    obtain ⟨hlivet, hprog, hothers⟩ := step_act h
    have hdeads : s'.mem.dead = s.mem.dead := (prog_mem hprog).1
    rw [RecordKept] at hkept
    split at hkept
    · rename_i mode i alive p hpc
      obtain ⟨hproc, hnot⟩ := Classical.not_imp.mp hkept
      obtain ⟨hmem, hpc'⟩ := prog_of_procDead (hpc ▸ hprog) hproc
      refine ⟨t, p, by rwa [hdeads], ?_, ?_, hmem ▸ hnot⟩
      · rw [hpc']
        rfl
      · rw [hdeads]
        exact (procDead_eq_true.mp hproc).2
    · rename_i mode i alive p idx hpc
      obtain ⟨hslot, hnot⟩ := Classical.not_imp.mp hkept
      obtain ⟨hgone, hother⟩ := not_or.mp hnot
      push Not at hother
      obtain ⟨u, hu, hlive, hremoving⟩ := hother
      refine ⟨u, p, by rwa [hdeads], by rwa [hothers u hu], ?_, ?_⟩
      · rw [hdeads]
        exact (procDead_eq_true.mp (hs u p hremoving)).2
      · rwa [prog_of_removeCas (hpc ▸ hprog) hslot]
    · exact absurd trivial hkept

/-- **When the clean-up can finish.** From a state in which nobody is in the loop, no thread is left
in the loop for a process without a record exactly when, at every step of the run, the record is
kept: a thread enters the loop while the process is still recorded, and the last record of a process
is taken only when no other live thread is in the loop for this process. -/
theorem not_stuck_iff {es : List (Event T)} (hs : ∀ t, removing (s.pc t) = none)
    (h : exec (step pid) s es = some s') :
    (∀ es', es' <+: es → ∀ s₁, exec (step pid) s es' = some s₁ → ¬Stuck pid s₁) ↔
      AllSteps (step pid) (RecordKept pid) s es := by
  refine forall_prefix_iff_allSteps (fun s => RemovesDead s ∧ ¬Stuck pid s) (fun _ hI => hI.2)
    ?_ ?_ ⟨?_, ?_⟩ h
  · rintro s e s' ⟨hdead, hstuck⟩ hkept hstep
    exact ⟨hdead.step hstep, not_stuck_step hdead hstuck hkept hstep⟩
  · rintro s e s' ⟨hdead, -⟩ hkept hstep
    exact not_not.mpr (stuck_of_not_recordKept hdead hkept hstep)
  · intro t p hremoving
    rw [hs t] at hremoving
    cases hremoving
  · rintro ⟨t, p, -, hremoving, -⟩
    rw [hs t] at hremoving
    cases hremoving

/-- **The loop does not end.** A thread that removes a dead process without a record is still
removing it after every run: the process is dead and does not insert itself again. -/
theorem removing_forever {es : List (Event T)} (hs : RemovesDead s)
    (hremoving : removing (s.pc t) = some p) (hnot : p ∉ s.mem.pidSet)
    (h : exec (step pid) s es = some s') :
    removing (s'.pc t) = some p ∧ p ∉ s'.mem.pidSet := by
  refine (exec_invariant (fun s => RemovesDead s ∧ removing (s.pc t) = some p ∧
    p ∉ s.mem.pidSet) ?_ ⟨hs, hremoving, hnot⟩ h).2
  rintro s e s' ⟨hdead, hremoving, hnot⟩ hstep
  refine ⟨hdead.step hstep, ?_⟩
  cases e with
  | die q =>
    obtain rfl := some.inj hstep
    exact ⟨hremoving, hnot⟩
  | act u a =>
    obtain ⟨hlive, hprog, hothers⟩ := step_act hstep
    obtain ⟨h0, hdied⟩ := procDead_eq_true.mp (hdead t p hremoving)
    have hself : pid u ≠ p := by
      rintro rfl
      simp [hdied] at hlive
    refine ⟨?_, prog_notMem hprog hnot h0 fun _ _ _ heq => absurd heq hself⟩
    by_cases ht : t = u
    · subst ht
      exact prog_removing_of_notMem hprog hremoving hnot h0
    · rwa [hothers t ht]

end Runs

/-! ### Two threads at one record -/

/-- A block on which the dead process `7` is recorded, and two processes, `1` and `2`, that have
failed to take the lock. -/
def deadRecord : State Bool :=
  ⟨⟨-1, [7, 0], fun p => p = 7⟩, fun _ => .loadPid .write 0 false⟩

/-- The processes of the two threads. -/
def processOf (t : Bool) : ℕ := if t then 2 else 1

/-- Both threads read the record and find the process dead, and the first removes it. -/
def removedOnce : List (Event Bool) :=
  [.act false (.next false), .act true (.next false), .act false (.next false),
    .act true (.next false), .act false (.next false), .act false (.next false)]

instance (s : State Bool) : Decidable (Stuck processOf s) :=
  decidable_of_iff (∃ t, ∃ p ∈ removing (s.pc t), s.mem.dead (processOf t) = false ∧
      s.mem.dead p = true ∧ p ∉ s.mem.pidSet) <| by
    simp only [Stuck, mem_def]
    exact exists_congr fun t => exists_congr fun p => by tauto

/-- The second thread is left in the loop. -/
theorem stuck_removedOnce :
    ∃ s, exec (step processOf) deadRecord removedOnce = some s ∧ Stuck processOf s := by
  decide +kernel

instance (s : State Bool) : Decidable (RemovesDead s) :=
  inferInstanceAs (Decidable (∀ t, ∀ p ∈ removing (s.pc t), s.mem.procDead p = true))

/-- The second thread goes through the slots again. -/
theorem removing_forever_removedOnce : ∃ s s', exec (step processOf) deadRecord removedOnce =
      some s ∧ exec (step processOf) s (List.replicate 9 (.act true (.next false))) = some s' ∧
    removing (s'.pc true) = some 7 := by
  obtain ⟨s, hs, ⟨hdead, hremoving, hnot⟩, hsome⟩ : ∃ s,
      exec (step processOf) deadRecord removedOnce = some s ∧
      (RemovesDead s ∧ removing (s.pc true) = some 7 ∧ 7 ∉ s.mem.pidSet) ∧
      (exec (step processOf) s (List.replicate 9 (.act true (.next false)))).isSome := by
    decide +kernel
  obtain ⟨s', hs'⟩ := isSome_iff_exists.mp hsome
  exact ⟨s, s', hs, hs', (removing_forever hdead hremoving hnot hs').1⟩

/-- The first thread is through `AnyAlive` before the second starts. -/
def oneAfterTheOther : List (Event Bool) :=
  List.replicate 10 (.act false (.next false)) ++ List.replicate 3 (.act true (.next false))

instance (s : State Bool) : DecidablePred (RecordKept processOf s)
  | .act t a => by
    simp only [RecordKept]
    split <;> infer_instance
  | .die _ => .isTrue trivial

/-- The theorem applies to that run. -/
theorem not_stuck_iff_oneAfterTheOther :
    (∃ s, exec (step processOf) deadRecord oneAfterTheOther = some s ∧
      s.pc true = .casWrite true) ∧
    ∀ es', es' <+: oneAfterTheOther → ∀ s₁, exec (step processOf) deadRecord es' = some s₁ →
      ¬Stuck processOf s₁ := by
  have hrun : ∃ s, exec (step processOf) deadRecord oneAfterTheOther = some s ∧
      s.pc true = .casWrite true := by decide +kernel
  refine ⟨hrun, ?_⟩
  obtain ⟨s, hexec, -⟩ := hrun
  exact (not_stuck_iff (fun _ => rfl) hexec).mpr (by decide +kernel)

end Atomic

end ShmTest
