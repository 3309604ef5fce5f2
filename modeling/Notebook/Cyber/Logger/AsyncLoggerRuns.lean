import Notebook.Cyber.Logger.AsyncLogger

/-!
# The messages of an asynchronous logger

A message whose `Write` has found the logger running is to be written to a log file once. The
buffers keep the order of the appends: what was written, what is being flushed and what is waiting
is, in this order, what was appended. A message is lost in two ways. Its `Write` may throw before
the append. And it may be appended after the last flush of `Stop`, since `Write` looks at the state
before it takes the lock and the last flush does not wait for calls on their way.
-/

open Interleaving Function List

namespace Cyber.Logger

variable {T : Type*}

/-- `Stop` and all calls to `Write` have returned. -/
def Completed (s : AsyncLogger T) : Prop := s.stop = .returned ∧ ∀ t, s.pc t = .idle

/-- Every message that was accepted has been appended and written, once and in the order of the
appends, and the buffers are empty. -/
structure WritesAll (s : AsyncLogger T) : Prop where
  order : s.written.map Msg.request = s.appended.map Prod.snd
  appended : s.accepted.Perm s.appended
  active : s.active = []
  flushing : s.flushing = []

/-- The message of a `Write` that has not been appended yet. -/
def Pc.pending : Pc → Option Request
  | .lock r | .append r => some r
  | _ => none

/-- A `Write` does not throw, and none is on its way to the buffer when the last flush finds it
empty. -/
def Pc.NoLoss (s : AsyncLogger T) : Pc → Prop
  | .append r => r.level.isSome
  | .flush => s.active = [] → ∀ u, (s.pc u).pending = none
  | _ => True

/-- The step of a thread loses no message. -/
def NoLoss (s : AsyncLogger T) : Event T → Prop
  | .go t => (s.pc t).NoLoss s
  | _ => True

/-! ### `Stop` -/

/-- The last flush has ended. -/
def Flushed (s : AsyncLogger T) : Prop := (∃ t, s.stop = .flushed t) ∨ s.stop = .returned

/-- How far `Stop` has come at each place of the thread that makes the call. -/
def Pc.StopInv (stop : StopPhase T) (flusher : FlusherPc) (t : T) : Pc → Prop
  | .join => stop = .called t
  | .flush => stop = .called t ∧ flusher = .done
  | .check | .aborted => stop = .flushed t
  | _ => True

/-- The call to `Stop` and the flush thread. -/
structure StopInv (s : AsyncLogger T) : Prop where
  stopped : s.stop ≠ .notCalled → s.state = .stopped
  flusher_done : Flushed s → s.flusher = .done
  pcs : ∀ t, (s.pc t).StopInv s.stop s.flusher t

theorem stopInv_init : StopInv (init : AsyncLogger T) where
  stopped h := absurd rfl h
  flusher_done := by simp [Flushed, init]
  pcs _ := trivial

section

variable {s s' : AsyncLogger T} {e : Event T} {pc : Pc} {t : T}

theorem Pc.StopInv.of_free {stop : StopPhase T} {flusher : FlusherPc}
    (h : pc.StopInv stop flusher t) (hcalled : stop ≠ .called t) (hflushed : stop ≠ .flushed t)
    (stop' : StopPhase T) (flusher' : FlusherPc) : pc.StopInv stop' flusher' t := by
  cases pc with
  | join => exact absurd h hcalled
  | flush => exact absurd h.1 hcalled
  | check | aborted => exact absurd h hflushed
  | _ => trivial

theorem StopInv.of_flusher (hs : StopInv s) (hnot : s.flusher ≠ .done) (hstop : s'.stop = s.stop)
    (hstate : s'.state = s.state) (hpc : s'.pc = s.pc) : StopInv s' := by
  refine ⟨hstop ▸ hstate ▸ hs.stopped, fun hflushed => ?_, fun t => ?_⟩
  · simp only [Flushed, hstop] at hflushed
    exact absurd (hs.flusher_done hflushed) hnot
  · have ht := hs.pcs t
    rw [hpc, hstop]
    cases hl : s.pc t with
    | flush =>
      rw [hl] at ht
      exact absurd ht.2 hnot
    | _ => rwa [hl] at ht

theorem StopInv.not_flushed_of_flusher (hs : StopInv s) (h : s.flusher ≠ .done) : ¬Flushed s :=
  fun hflushed => h (hs.flusher_done hflushed)

theorem StopInv.not_flushed_of_running (hs : StopInv s) (h : s.state = .running) : ¬Flushed s := by
  intro hflushed
  have hstopped : s.state = .stopped := hs.stopped (by
    rcases hflushed with ⟨u, hu⟩ | hu <;> simp [hu])
  simp [h] at hstopped

theorem StopInv.not_flushed_of_flush (hs : StopInv s) (h : s.pc t = .flush) : ¬Flushed s := by
  have hcalled := hs.pcs t
  rw [h] at hcalled
  simp [Flushed, hcalled.1]

variable [DecidableEq T]

theorem StopInv.of_pc (hs : StopInv s) (hstop : s'.stop = s.stop)
    (hstate : s'.state = s.state) (hflusher : s'.flusher = s.flusher)
    (hpc : s'.pc = update s.pc t pc) (hinv : pc.StopInv s.stop s.flusher t) :
    StopInv s' := by
  refine ⟨hstop ▸ hstate ▸ hs.stopped, ?_, fun u => ?_⟩
  · simpa only [Flushed, hstop, hflusher] using hs.flusher_done
  · rw [hpc, hstop, hflusher]
    exact (forall_update_iff s.pc fun u pc => pc.StopInv s.stop s.flusher u).mpr
      ⟨hinv, fun u _ => hs.pcs u⟩ u

theorem StopInv.of_stop (hs : StopInv s)
    (howner : ∀ u, u ≠ t → s.stop ≠ .called u ∧ s.stop ≠ .flushed u)
    (hpc : s'.pc = update s.pc t pc) (hinv : pc.StopInv s'.stop s'.flusher t)
    (hstopped : s'.state = .stopped) (hdone : Flushed s' → s'.flusher = .done) : StopInv s' := by
  refine ⟨fun _ => hstopped, hdone, ?_⟩
  rw [hpc]
  refine (forall_update_iff s.pc fun u pc => pc.StopInv s'.stop s'.flusher u).mpr
    ⟨hinv, fun u hu => ?_⟩
  exact (hs.pcs u).of_free (howner u hu).1 (howner u hu).2 _ _

theorem StopInv.step (hs : StopInv s) (h : Moves s e s') : StopInv s' := by
  have hpcs := hs.pcs
  cases h with
  | refuse | spin | flusherSpin => exact hs
  | writeStop t | accept t | stop t | lock t | append t | throw t | unlock t =>
    exact hs.of_pc rfl rfl rfl rfl trivial
  | store t hpc hstop =>
    refine hs.of_stop (fun u _ => by simp [hstop]) rfl rfl rfl fun hflushed => ?_
    simp [Flushed] at hflushed
  | join t hpc hdone =>
    have hcalled := hpcs t
    rw [hpc] at hcalled
    exact hs.of_pc rfl rfl rfl rfl ⟨hcalled, hdone⟩
  | flushed t hpc =>
    obtain ⟨hcalled, hdone⟩ : s.stop = .called t ∧ s.flusher = .done := by
      have := hpcs t
      rwa [hpc] at this
    exact hs.of_stop (fun u hu => by simp [hcalled, Ne.symm hu]) rfl rfl
      (hs.stopped (by simp [hcalled])) fun _ => hdone
  | flushOne t msg rest hpc hactive => exact ⟨hs.stopped, hs.flusher_done, hs.pcs⟩
  | returned t hpc =>
    have hflushed : s.stop = .flushed t := by
      have := hpcs t
      rwa [hpc] at this
    exact hs.of_stop (fun u hu => by simp [hflushed, Ne.symm hu]) rfl trivial
      (hs.stopped (by simp [hflushed])) fun _ => hs.flusher_done (.inl ⟨t, hflushed⟩)
  | abort t hpc =>
    have hflushed := hpcs t
    rw [hpc] at hflushed
    exact hs.of_pc rfl rfl rfl rfl hflushed
  | flusherLoop hpc | flusherLock hpc | flusherSwap hpc | flusherUnlock hpc | flusherEnd hpc =>
    exact hs.of_flusher (by simp [hpc]) rfl rfl rfl
  | flusherOne msg rest hpc => exact hs.of_flusher (by simp [hpc]) rfl rfl rfl

/-! ### The buffers -/

omit [DecidableEq T] in
/-- The messages that were appended are those that were written, are being flushed and are waiting,
in this order. Between two flushes the flushing buffer is empty. -/
structure BufferInv (s : AsyncLogger T) : Prop where
  order : (s.written ++ s.flushing ++ s.active).map Msg.request = s.appended.map Prod.snd
  flushing : s.flusher ≠ .unlock → s.flusher ≠ .flush → s.flushing = []

/-- The swaps and the flushes keep the order of the appends. -/
theorem BufferInv.step (hs : BufferInv s) (hstop : StopInv s) (h : Moves s e s') :
    BufferInv s' := by
  have horder := hs.order
  cases h with
  | append t r level hpc hlevel =>
    have hnew : (s.written ++ s.flushing ++ (s.active ++ [(⟨r.ts, r.message, level⟩ : Msg)])).map
        Msg.request = (s.appended ++ [(t, r)]).map Prod.snd := by
      rw [← append_assoc, map_append, horder, map_append]
      rfl
    exact ⟨hnew, hs.flushing⟩
  | flushOne t msg rest hpc hactive =>
    -- the flush thread has ended, so the front of the active buffer is the next message
    have hdone : s.flusher = .done := by
      have := hstop.pcs t
      rw [hpc] at this
      exact this.2
    have hnil : s.flushing = [] := hs.flushing (by simp [hdone]) (by simp [hdone])
    refine ⟨?_, hs.flushing⟩
    rw [hnil, hactive] at horder
    simpa [hnil] using horder
  | flusherLoop hpc => exact ⟨horder, fun _ _ => hs.flushing (by simp [hpc]) (by simp [hpc])⟩
  | flusherLock hpc => exact ⟨horder, fun _ _ => hs.flushing (by simp [hpc]) (by simp [hpc])⟩
  | flusherSwap hpc =>
    have hnil : s.flushing = [] := hs.flushing (by simp [hpc]) (by simp [hpc])
    refine ⟨?_, fun hunlock => absurd rfl hunlock⟩
    simpa [hnil] using horder
  | flusherUnlock hpc => exact ⟨horder, fun _ hflush => absurd rfl hflush⟩
  | flusherEnd hpc hflushing => exact ⟨horder, fun _ _ => hflushing⟩
  | flusherOne msg rest hpc hflushing =>
    refine ⟨?_, fun _ hflush => absurd hpc hflush⟩
    rw [hflushing] at horder
    simpa using horder
  | _ => exact ⟨horder, hs.flushing⟩

/-! ### The accepted messages -/

/-- A message that was accepted has been appended, or its `Write` has thrown or is on its way. -/
def CountInv (s : AsyncLogger T) : Prop :=
  ∀ t r, s.accepted.count (t, r) = s.appended.count (t, r) + s.thrown.count (t, r) +
    if (s.pc t).pending = some r then 1 else 0

theorem pending_update {f : T → Pc} (h : pc.pending = (f t).pending) (u : T) :
    (update f t pc u).pending = (f u).pending :=
  (forall_update_iff f fun u pc => pc.pending = (f u).pending).mpr
    ⟨h, fun _ _ => rfl⟩ u

theorem CountInv.of_pc (hs : CountInv s) (haccepted : s'.accepted = s.accepted)
    (happended : s'.appended = s.appended) (hthrown : s'.thrown = s.thrown)
    (hpc : s'.pc = update s.pc t pc) (hpending : pc.pending = (s.pc t).pending) :
    CountInv s' := by
  intro u r
  rw [haccepted, happended, hthrown, hpc, hs u r, pending_update hpending]

/-- A thread leaves with its message, which has been appended or has been thrown. -/
theorem CountInv.of_leave {r : Request} (hs : CountInv s) (haccepted : s'.accepted = s.accepted)
    (hmoved : ∀ x, s'.appended.count x + s'.thrown.count x =
      s.appended.count x + s.thrown.count x + [(t, r)].count x)
    (hpc : s'.pc = update s.pc t pc) (hbefore : (s.pc t).pending = some r)
    (hafter : pc.pending = none) : CountInv s' := by
  intro u r'
  rw [haccepted, hmoved, hpc, hs u r']
  by_cases hu : u = t
  · subst hu
    simp [hbefore, hafter, count_singleton]
  · simp [hu, Ne.symm hu]

theorem CountInv.step (hs : CountInv s) (h : Moves s e s') : CountInv s' := by
  cases h with
  | accept t args r hpc =>
    intro u r'
    have hu := hs u r'
    by_cases hut : u = t
    · subst hut
      simp only [hpc, Pc.pending, reduceCtorEq, if_false] at hu
      simp [AsyncLogger.setPc, hu, Pc.pending, count_singleton]
    · simpa [AsyncLogger.setPc, hut, Ne.symm hut, count_singleton] using hu
  | append t r level hpc =>
    refine hs.of_leave rfl (fun x => ?_) rfl (by rw [hpc]; rfl) rfl
    simp only [AsyncLogger.setPc, count_append]
    omega
  | throw t r hpc =>
    refine hs.of_leave rfl (fun x => ?_) rfl (by rw [hpc]; rfl) rfl
    simp only [AsyncLogger.setPc, count_append]
    omega
  | writeStop t args hpc | stop t hpc | lock t r hpc | unlock t hpc | store t hpc | join t hpc
  | flushed t hpc | returned t hpc | abort t hpc =>
    exact hs.of_pc rfl rfl rfl rfl (by simp [hpc, Pc.pending])
  | _ => exact hs

/-! ### Messages that are lost -/

/-- No `Write` has thrown, and after the last flush no message is in the buffer or on its way. -/
def Clean (s : AsyncLogger T) : Prop :=
  s.thrown = [] ∧ (Flushed s → s.active = [] ∧ ∀ u, (s.pc u).pending = none)

omit [DecidableEq T] in
theorem clean_iff_of_not_flushed (h : ¬Flushed s) : Clean s ↔ s.thrown = [] :=
  and_iff_left fun hflushed => absurd hflushed h

theorem clean_step_of_pc (hloss : NoLoss s e)
    (hpending : pc.pending = (s.pc t).pending) (hthrown : s'.thrown = s.thrown)
    (hactive : s'.active = s.active) (hflushed : Flushed s' ↔ Flushed s)
    (hpc : s'.pc = update s.pc t pc) : Clean s' ↔ Clean s ∧ NoLoss s e := by
  rw [and_iff_left hloss]
  simp only [Clean, hthrown, hactive, hflushed, hpc, pending_update hpending]

omit [DecidableEq T] in
theorem clean_step_of_not_flushed (hloss : NoLoss s e) (hnot : ¬Flushed s)
    (hstop : s'.stop = s.stop) (hthrown : s'.thrown = s.thrown) :
    Clean s' ↔ Clean s ∧ NoLoss s e := by
  have hnot' : ¬Flushed s' := by rwa [Flushed, hstop]
  rw [and_iff_left hloss, clean_iff_of_not_flushed hnot, clean_iff_of_not_flushed hnot', hthrown]

/-- A step leads to a clean state exactly if it starts from one and loses no message. -/
theorem clean_step_iff (hstop : StopInv s) (h : Moves s e s') :
    Clean s' ↔ Clean s ∧ NoLoss s e := by
  cases h with
  | refuse t args => exact (and_iff_left trivial).symm
  | spin t r hpc => exact (and_iff_left (by simp [NoLoss, Pc.NoLoss, hpc])).symm
  | flusherSpin => exact (and_iff_left trivial).symm
  | writeStop t args hpc | stop t hpc =>
    exact clean_step_of_pc trivial (by rw [hpc]; rfl) rfl rfl Iff.rfl rfl
  | lock t r hpc | unlock t hpc | join t hpc | abort t hpc =>
    exact clean_step_of_pc (by simp [NoLoss, Pc.NoLoss, hpc]) (by rw [hpc]; rfl) rfl rfl Iff.rfl rfl
  | returned t hpc =>
    have hflushed := hstop.pcs t
    rw [hpc] at hflushed
    exact clean_step_of_pc (by simp [NoLoss, Pc.NoLoss, hpc]) (by rw [hpc]; rfl) rfl rfl
      (iff_of_true (.inr rfl) (.inl ⟨t, hflushed⟩)) rfl
  | accept t args r hpc hstate =>
    exact clean_step_of_not_flushed trivial (hstop.not_flushed_of_running hstate) rfl rfl
  | append t r level hpc hlevel =>
    by_cases hflushed : Flushed s
    · -- the message comes after the last flush
      refine iff_of_false (fun h => ?_) fun h => ?_
      · exact absurd (h.2 hflushed).1 (by simp)
      · have hnone := (h.1.2 hflushed).2 t
        simp [hpc, Pc.pending] at hnone
    · exact clean_step_of_not_flushed (by simp [NoLoss, Pc.NoLoss, hpc, hlevel]) hflushed rfl rfl
  | throw t r hpc hlevel =>
    refine iff_of_false (fun h => ?_) fun h => ?_
    · exact absurd h.1 (by simp)
    · have hknown := h.2
      simp [NoLoss, Pc.NoLoss, hpc, hlevel] at hknown
  | store t hpc hnotCalled =>
    have hnot : ¬Flushed s := by simp [Flushed, hnotCalled]
    rw [clean_iff_of_not_flushed hnot, clean_iff_of_not_flushed (by simp [Flushed]),
      and_iff_left (by simp [NoLoss, Pc.NoLoss, hpc])]
    rfl
  | flushed t hpc hactive =>
    have hnone : ∀ u, (update s.pc t .check u).pending = (s.pc u).pending :=
      pending_update (by rw [hpc]; rfl)
    rw [clean_iff_of_not_flushed (hstop.not_flushed_of_flush hpc)]
    simp only [NoLoss, Pc.NoLoss, hpc, hactive, true_imp_iff]
    constructor
    · exact fun h => ⟨h.1, fun u => (hnone u).symm.trans ((h.2 (.inl ⟨t, rfl⟩)).2 u)⟩
    · exact fun h => ⟨h.1, fun _ => ⟨hactive, fun u => (hnone u).trans (h.2 u)⟩⟩
  | flushOne t msg rest hpc hactive =>
    exact clean_step_of_not_flushed (by simp [NoLoss, Pc.NoLoss, hpc, hactive])
      (hstop.not_flushed_of_flush hpc) rfl rfl
  | flusherLoop hpc | flusherLock hpc | flusherSwap hpc | flusherUnlock hpc | flusherEnd hpc =>
    exact clean_step_of_not_flushed trivial (hstop.not_flushed_of_flusher (by simp [hpc])) rfl rfl
  | flusherOne msg rest hpc =>
    exact clean_step_of_not_flushed trivial (hstop.not_flushed_of_flusher (by simp [hpc])) rfl rfl

/-! ### Completed runs -/

/-- The invariants together. -/
structure Inv (s : AsyncLogger T) : Prop where
  stop : StopInv s
  buffer : BufferInv s
  count : CountInv s

theorem inv_init : Inv (init : AsyncLogger T) :=
  ⟨stopInv_init, ⟨rfl, fun _ _ => rfl⟩, fun _ _ => rfl⟩

theorem Inv.step (hs : Inv s) (h : step s e = some s') : Inv s' :=
  have hmove := moves_of_step h
  ⟨hs.stop.step hmove, hs.buffer.step hs.stop hmove, hs.count.step hmove⟩

/-- A completed run is clean exactly if it has written all accepted messages. -/
theorem Inv.clean_iff (hs : Inv s) (hdone : Completed s) : Clean s ↔ WritesAll s := by
  obtain ⟨hreturned, hidle⟩ := hdone
  have hflushing : s.flushing = [] := by
    have hflusher : s.flusher = .done := hs.stop.flusher_done (.inr hreturned)
    exact hs.buffer.flushing (by simp [hflusher]) (by simp [hflusher])
  have hcount : s.accepted.Perm (s.appended ++ s.thrown) := by
    refine perm_iff_count.mpr fun x => ?_
    rw [count_append, hs.count x.1 x.2, hidle x.1]
    rfl
  have horder := hs.buffer.order
  rw [hflushing, append_nil] at horder
  constructor
  · rintro ⟨hthrown, hactive⟩
    have hnil := (hactive (.inr hreturned)).1
    rw [hthrown, append_nil] at hcount
    rw [hnil, append_nil] at horder
    exact ⟨horder, hcount, hnil, hflushing⟩
  · intro hall
    refine ⟨?_, fun _ => ⟨hall.active, fun u => by rw [hidle u]; rfl⟩⟩
    have hlength := (hall.appended.symm.trans hcount).length_eq
    rw [length_append] at hlength
    exact length_eq_zero_iff.mp (by omega)

/-- **Every accepted message is written.** When `Stop` and all calls to `Write` have returned, every
message whose `Write` found the logger running has been written once, in the order of the appends,
and the buffers are empty, exactly if no `Write` has thrown and none was on its way to the buffer
when the last flush ended. -/
theorem writesAll_iff {es : List (Event T)} (h : exec step init es = some s)
    (hdone : Completed s) : WritesAll s ↔ AllSteps step NoLoss init es := by
  have hs : Inv s := exec_invariant Inv (fun _ _ _ hs h => hs.step h) inv_init h
  rw [← hs.clean_iff hdone, and_allSteps_iff Inv (fun _ _ _ hs h => hs.step h)
    (fun _ _ _ hs h => clean_step_iff hs.stop (moves_of_step h)) inv_init h]
  exact and_iff_right ⟨rfl, by simp [Flushed, init]⟩

end

section Decidable

variable (s : AsyncLogger T)

instance [Fintype T] [DecidableEq T] : Decidable (Completed s) :=
  inferInstanceAs (Decidable (s.stop = .returned ∧ ∀ t, s.pc t = .idle))

instance [Fintype T] : (pc : Pc) → Decidable (pc.NoLoss s)
  | .append r => inferInstanceAs (Decidable (r.level.isSome = true))
  | .flush => inferInstanceAs (Decidable (s.active = [] → ∀ u, (s.pc u).pending = none))
  | .idle | .lock _ | .unlock | .stop | .join | .check | .aborted => .isTrue trivial

instance [Fintype T] : (e : Event T) → Decidable (NoLoss s e)
  | .go t => inferInstanceAs (Decidable ((s.pc t).NoLoss s))
  | .write .. | .stop _ | .flusher => .isTrue trivial

end Decidable

/-- Two writers. The flush thread writes the first message while the second one is appended, which
the last flush of `Stop` writes. -/
theorem writesAll_of_two_writers : ∃ s : AsyncLogger (Fin 3), exec step init
    [.write 0 ⟨false, 5, some "I a".toList⟩, .flusher, .go 0, .go 0, .flusher, .go 0,
      .write 1 ⟨false, 6, some "W b".toList⟩, .flusher, .go 1, .flusher, .flusher, .go 1, .stop 2,
      .go 2, .go 1, .flusher, .flusher, .flusher, .go 1, .go 2, .go 2, .go 2, .go 2] = some s ∧
    s.written = [⟨5, "I a".toList, 0⟩, ⟨6, "W b".toList, 1⟩] ∧ WritesAll s :=
  exists_exec_mono (P := fun s => Completed s ∧
      s.written = [⟨5, "I a".toList, 0⟩, ⟨6, "W b".toList, 1⟩]) (by decide +kernel)
    fun _ hs hP => ⟨hP.2, (writesAll_iff hs hP.1).mpr (by decide +kernel)⟩

/-- A message whose `Write` finds the logger running, but takes the lock only after `Stop` has
returned: it stays in the buffer. -/
theorem not_written_after_stop : ∃ s : AsyncLogger Bool, exec step init
    [.write false ⟨false, 5, some "I a".toList⟩, .stop true, .go true, .flusher, .go true,
      .go true, .go true, .go false, .go false, .go false] = some s ∧
    Completed s ∧ s.accepted = [(false, ⟨5, "I a".toList⟩)] ∧ s.written = [] ∧
    s.active = [⟨5, "I a".toList, 0⟩] := by
  decide +kernel

end Cyber.Logger
