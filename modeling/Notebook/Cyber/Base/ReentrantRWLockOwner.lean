import Notebook.Cyber.Base.ReentrantRWLock

/-!
# The owner of the reentrant read-write lock

A thread between the return of its outermost `WriteLock` and the start of the matching `WriteUnlock`
is in its write section. Unless `write_thread_id_` is its own id, its nested calls wait for the lock
that it holds itself.

The id goes wrong when a thread that has released `lock_num_` clears `write_thread_id_` after the
next writer has stored its own id there.
-/

open Interleaving NestedLock Function List Threads

namespace Cyber.ReentrantRWLock

variable {T : Type*} [DecidableEq T] {writeFirst : Bool} {m m' : Mem T} {l l' : Local T} {a : Act}

/-- What the threads in their write section rely on: such a thread finds its id, the counter is
minus the depth of its guards, it does not wait, and no other thread holds the lock. -/
def Owned (s : State T) : Prop :=
  ∀ t, (s.pc t).Writing →
    s.mem.writeThreadId = some t ∧ s.mem.lockNum = -((s.pc t).depth : ℤ) ∧
      (s.pc t).pc.waits = false ∧
      ∀ u, u ≠ t → (s.pc u).guards = [] ∧ (s.pc u).pc.acquired = false

/-- A step does not disturb a write section: the id is cleared while no other thread is in its write
section, a thread returns from its outermost `WriteLock` with its id in place, and the nesting stays
within the word of the counter. -/
def Timely (s : State T) (e : T × Act) : Prop :=
  ((s.pc e.1).pc = .writeClear → ∀ u, u ≠ e.1 → ¬(s.pc u).Writing) ∧
    ((s.pc e.1).pc = .writeDone → s.mem.writeThreadId = some e.1) ∧
    ((s.pc e.1).pc = .writeNested → (s.pc e.1).depth < 2 ^ 31)

instance [Fintype T] (s : State T) : Decidable (Owned s) :=
  inferInstanceAs (Decidable (∀ _, _ → _))

instance [Fintype T] (s : State T) (e : T × Act) : Decidable (Timely s e) :=
  inferInstanceAs (Decidable ((_ → ∀ _, _ → ¬_) ∧ (_ → _) ∧ (_ → _)))

/-- The invariant of the lock, as long as the ids are right. -/
structure Inv (s : State T) : Prop where
  threadId : ∀ t, (s.pc t).threadId = t
  good : ∀ t, (s.pc t).Good s.mem
  sound : Sound s.mem.lockNum (Local.hold ∘ s.pc)

theorem inv_init : Inv (init T) where
  threadId _ := rfl
  good _ :=
    ⟨(absurd · not_mem_nil), trivial, (absurd · not_mem_nil),
      (absurd · (Option.some_ne_none _).symm)⟩
  sound := sound_free

theorem Pc.Fits.waits_eq_false {pc : Pc} {guards : List Guard} (h : pc.Fits guards)
    (hmem : Guard.write ∈ guards) : pc.waits = false := by
  cases pc with
  | readLoad | readGuard | readReload | writeWait | writeCas => exact absurd hmem h
  | readCas => exact absurd hmem h.1
  | _ => rfl

theorem Pc.Fits.acquired_eq_false {pc : Pc} {guards : List Guard} (h : pc.Fits guards)
    (hmem : Guard.write ∈ guards) : pc.acquired = false := by
  cases pc with
  | writeStore | writeDone =>
    obtain rfl : guards = [] := h
    cases hmem
  | _ => rfl

variable {s s' : State T}

theorem Inv.hold_of_writing (h : Inv s) {t : T} (hw : (s.pc t).Writing) :
    ∃ d, (s.pc t).depth = d + 1 ∧ (s.pc t).hold = .writes d := by
  obtain ⟨d, hd, hhold⟩ := holdOf_of_mem hw
  exact ⟨d, hd, (hold_of_settled ((h.good t).fits.acquired_eq_false hw)).trans hhold⟩

omit [DecidableEq T] in
theorem eq_nil_of_hold (h : l.hold = .reads 0) : l.guards = [] ∧ l.pc.acquired = false := by
  rw [Local.hold] at h
  split at h
  · cases h
  · rename_i hacq
    exact ⟨eq_nil_of_holdOf h, Bool.eq_false_iff.mpr hacq⟩

theorem Inv.owned (h : Inv s) : Owned s := by
  intro t hw
  obtain ⟨d, hd, hhold⟩ := h.hold_of_writing hw
  obtain ⟨hnum, -, hothers⟩ := h.sound.of_writes (t := t) hhold
  refine ⟨?_, ?_, (h.good t).fits.waits_eq_false hw, fun u hu => eq_nil_of_hold (hothers u hu)⟩
  · rw [(h.good t).owner hw, h.threadId]
  · rw [hnum, hd]
    push_cast
    rfl

theorem Inv.good_of_ne (h : Inv s) {t u : T} (hu : u ≠ t) (hmove : Move s.mem (s.pc t) m' l')
    (hclear : (s.pc t).pc = .writeClear → ¬(s.pc u).Writing) : (s.pc u).Good m' := by
  have hgood := h.good u
  refine ⟨hgood.bottom, hgood.fits, fun hw => ?_, fun hid => ?_⟩
  · rcases writeThreadId_move hmove with hid | ⟨hpc, -⟩ | ⟨hpc, -⟩
    · rw [hid, hgood.owner hw]
    · -- the thread that stores its id holds the lock
      have hhold : (s.pc t).hold = .writes 0 := by rw [Local.hold, hpc]; rfl
      obtain ⟨-, -, hothers⟩ := h.sound.of_writes (t := t) hhold
      obtain ⟨hnil, -⟩ := eq_nil_of_hold (hothers u hu)
      rw [Local.Writing, hnil] at hw
      cases hw
    · exact absurd hw (hclear hpc)
  · rcases writeThreadId_move hmove with hid' | ⟨-, hid'⟩ | ⟨-, hid'⟩
    · exact hgood.known (hid' ▸ hid)
    · rw [hid', h.threadId, h.threadId] at hid
      exact absurd (Option.some.inj hid).symm hu
    · rw [hid'] at hid
      cases hid

theorem Inv.step (h : Inv s) {e : T × Act} (hC : Timely s e)
    (hstep : step writeFirst s e = some s') : Inv s' := by
  obtain ⟨t, a⟩ := e
  obtain ⟨hclear, hdone, hdepth⟩ := hC
  have hmove := move_prog (prog_of_step hstep)
  refine ⟨fun u => ?_, ?_, ?_⟩
  · by_cases hu : u = t
    · subst hu
      rw [threadId_move hmove, h.threadId]
    · rw [pc_of_ne hstep hu, h.threadId]
  · refine forall_guard_step (G := fun m l => l.Good m) hstep (fun m l hp => ?_)
      fun u hu => h.good_of_ne hu hmove fun hpc => hclear hpc u hu
    exact good_move (t := t) (move_prog hp) (h.good t) h.sound rfl
      fun hpc => (hdone hpc).trans (by rw [h.threadId])
  · have hop := op_move (t := t) hmove (h.good t) h.sound rfl hdepth
    obtain ⟨m, l, -, rfl⟩ := step_eq_some.mp hstep
    rw [comp_update]
    simp only [update_self] at hop
    exact Op.sound (t := t) hop h.sound

omit [DecidableEq T] in
theorem move_of_writeClear (hmove : Move m l m' l') (hpc : l.pc = .writeClear) :
    m'.writeThreadId = none := by
  cases hmove <;> simp_all [Pc.settled]

omit [DecidableEq T] in
theorem move_of_writeDone (hmove : Move m l m' l') (hpc : l.pc = .writeDone) :
    m'.writeThreadId = m.writeThreadId ∧ l'.Writing := by
  cases hmove <;> simp_all [Pc.settled, Local.enter, Local.Writing]

theorem prog_of_writeNested (h : prog writeFirst m l a = some (m', l'))
    (hpc : l.pc = .writeNested) :
    m'.lockNum = int32 (m.lockNum - 1) ∧ l' = l.enter .write := by
  obtain ⟨threadId, guards, pc⟩ := l
  cases hpc
  cases a with
  | step spurious =>
    cases h
    exact ⟨rfl, rfl⟩
  | _ => cases h

/-- A step that is not timely leaves a thread in its write section without its id, or with a counter
that has wrapped around. -/
theorem Inv.not_owned (h : Inv s) {e : T × Act} (hC : ¬Timely s e)
    (hstep : ReentrantRWLock.step writeFirst s e = some s') : ¬Owned s' := by
  obtain ⟨t, a⟩ := e
  have hp := prog_of_step hstep
  have hmove := move_prog hp
  intro howned
  refine hC ⟨fun hpc u hu hw => ?_, fun hpc => ?_, fun hpc => ?_⟩
  · obtain ⟨hid, -⟩ := howned u (by rwa [pc_of_ne hstep hu])
    rw [move_of_writeClear hmove hpc] at hid
    cases hid
  · obtain ⟨hid, hw⟩ := move_of_writeDone hmove hpc
    rw [← hid]
    exact (howned t hw).1
  · obtain ⟨hnum, hl⟩ := prog_of_writeNested hp hpc
    have hw : (s.pc t).Writing := by
      have hfits := (h.good t).fits
      rwa [hpc] at hfits
    obtain ⟨d, hd, hhold⟩ := h.hold_of_writing hw
    obtain ⟨hnum₀, hle, -⟩ := h.sound.of_writes (t := t) hhold
    obtain ⟨-, hdepth, -⟩ := howned t (by rw [hl]; exact mem_cons_self)
    have hcount : (s'.pc t).depth = d + 2 := by
      rw [hl, Local.depth, Local.enter, count_cons_self]
      exact congrArg (· + 1) hd
    rw [hnum, hnum₀, hcount] at hdepth
    unfold int32 at hdepth
    push_cast at hdepth
    simp only [hd]
    omega

/-- **The owner of the lock.** In every run, the threads in their write section find their id, the
counter at minus the depth of their guards, and nobody else holding the lock, and their nested locks
do not wait, exactly if every step is timely. -/
theorem owned_iff_timely (writeFirst : Bool) (es : List (T × Act)) (s : State T)
    (h : exec (step writeFirst) (init T) es = some s) :
    (∀ bs, bs <+: es → ∀ s', exec (step writeFirst) (init T) bs = some s' → Owned s') ↔
      AllSteps (step writeFirst) Timely (init T) es :=
  forall_prefix_iff_allSteps Inv (fun _ hs => hs.owned) (fun _ _ _ hs hC hstep => hs.step hC hstep)
    (fun _ _ _ hs hC hstep => hs.not_owned hC hstep) inv_init h

/-- Thread `0` makes a write guard and destroys it, up to the release of `lock_num_`. -/
def writeAndRelease : List (Fin 2 × Act) :=
  (0, .writeLock) :: (List.replicate 5 (0, .step false)).concat (0, .unlock)

/-- Thread `1` makes a write guard, after which thread `0` makes its last access, or before. Then
thread `1` makes another guard inside the first one, or tries to. -/
def writeNested (late : Bool) : List (Fin 2 × Act) :=
  let guard : List (Fin 2 × Act) := (1, .writeLock) :: List.replicate 5 (1, .step false)
  let nested : List (Fin 2 × Act) := (1, .writeLock) :: List.replicate 2 (1, .step false)
  let clear : Fin 2 × Act := (0, .step false)
  if late then guard ++ clear :: nested else clear :: (guard ++ nested)

theorem owned_of_timely_nested :
    ∃ s : State (Fin 2), (s.pc 1).depth = 2 ∧ Owned s := by
  obtain ⟨s, hs, hd⟩ : ∃ s, exec (step true) (init (Fin 2)) (writeAndRelease ++ writeNested false) =
      some s ∧ (s.pc 1).depth = 2 := by decide +kernel
  exact ⟨s, hd, (owned_iff_timely true _ s hs).mpr (by decide +kernel) _ (prefix_refl _) s hs⟩

/-- **A late clear.** Thread `0` clears the id that thread `1` has stored; the nested `WriteLock` of
thread `1` then waits for the guard around it. -/
theorem late_clear_blocks :
    ∃ s, exec (step true) (init (Fin 2)) (writeAndRelease ++ writeNested true) = some s ∧
      (s.pc 1).Writing ∧ s.mem.writeThreadId = none ∧ (s.pc 1).pc.waits = true ∧ ¬Owned s := by
  decide +kernel

end Cyber.ReentrantRWLock
