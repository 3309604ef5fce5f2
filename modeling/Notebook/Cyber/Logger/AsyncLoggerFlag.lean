import Notebook.Cyber.Logger.AsyncLogger

/-!
# The spin lock of an asynchronous logger

The spin lock of an `AsyncLogger` is a bare `flag_`: a `Write` and the flush thread set it with
`test_and_set` and clear it afterwards. Between the two, `Write` evaluates `log_level_map.at` for
the first character of the message. If this throws, the call ends and the flag stays set, so that
later calls and the flush thread never get past their `test_and_set`.
-/

open Interleaving

namespace Cyber.Logger

variable {T : Type*}

/-- A thread in `Write` is between setting and clearing the flag. -/
def Pc.Holding : Pc → Prop
  | .append _ | .unlock => True
  | _ => False

/-- The flush thread is between setting and clearing the flag. -/
def FlusherPc.Holding : FlusherPc → Prop
  | .swap | .unlock => True
  | _ => False

/-- A thread, or the flush thread as `none`, holds the flag. -/
def Holds (s : AsyncLogger T) : Option T → Prop
  | none => s.flusher.Holding
  | some t => (s.pc t).Holding

/-- The flag is set only while a thread holds it. -/
def FlagHeld (s : AsyncLogger T) : Prop := s.flag = true → ∃ h, Holds s h

/-- A thread is in `Write`. -/
def Pc.Writing : Pc → Prop
  | .lock _ | .append _ | .unlock => True
  | _ => False

/-- The flush thread waits for the flag or holds it. -/
def FlusherPc.Swapping : FlusherPc → Prop
  | .lock | .swap | .unlock => True
  | _ => False

/-- Neither a `Write` nor a swap is executing. -/
def Quiet (s : AsyncLogger T) : Prop := (∀ t, ¬(s.pc t).Writing) ∧ ¬s.flusher.Swapping

/-- The first character of the message that is appended is a level. -/
def Pc.LevelKnown : Pc → Prop
  | .append r => r.level.isSome
  | _ => True

/-- The step of a thread does not throw. -/
def LevelKnown (s : AsyncLogger T) : Event T → Prop
  | .go t => (s.pc t).LevelKnown
  | _ => True

instance : (pc : Pc) → Decidable pc.LevelKnown
  | .append r => inferInstanceAs (Decidable (r.level.isSome = true))
  | .idle | .lock _ | .unlock | .stop | .join | .flush | .check | .aborted => .isTrue trivial

instance : (pc : Pc) → Decidable pc.Writing
  | .lock _ | .append _ | .unlock => .isTrue trivial
  | .idle | .stop | .join | .flush | .check | .aborted => .isFalse not_false

instance : (pc : FlusherPc) → Decidable pc.Swapping
  | .lock | .swap | .unlock => .isTrue trivial
  | .loop | .flush | .done => .isFalse not_false

instance [Fintype T] (s : AsyncLogger T) : Decidable (Quiet s) :=
  inferInstanceAs (Decidable ((∀ t, ¬(s.pc t).Writing) ∧ ¬s.flusher.Swapping))

instance (s : AsyncLogger T) : (e : Event T) → Decidable (LevelKnown s e)
  | .go t => inferInstanceAs (Decidable (s.pc t).LevelKnown)
  | .write .. | .stop _ | .flusher => .isTrue trivial

/-- The flag is set exactly while one thread holds it. -/
structure FlagInv (s : AsyncLogger T) : Prop where
  held : FlagHeld s
  flag : ∀ h, Holds s h → s.flag = true
  unique : ∀ h h', Holds s h → Holds s h' → h = h'

theorem flagInv_init : FlagInv (init : AsyncLogger T) where
  held := by simp [FlagHeld, init]
  flag h hh := by cases h <;> exact hh.elim
  unique h h' hh := by cases h <;> exact hh.elim

variable {s s' : AsyncLogger T}

/-- The flag is set, and no thread holds it. -/
structure Stuck (s : AsyncLogger T) : Prop where
  flag : s.flag = true
  free : ∀ h, ¬Holds s h

theorem Pc.Holding.writing : {pc : Pc} → pc.Holding → pc.Writing
  | .append _, _ | .unlock, _ => trivial

theorem FlusherPc.Holding.swapping : {pc : FlusherPc} → pc.Holding → pc.Swapping
  | .swap, _ | .unlock, _ => trivial

theorem Quiet.not_holds (hs : Quiet s) : (h : Option T) → ¬Holds s h
  | none => fun hh => hs.2 (FlusherPc.Holding.swapping hh)
  | some t => fun hh => hs.1 t (Pc.Holding.writing hh)

theorem Quiet.flagHeld_iff_flag (hs : Quiet s) : FlagHeld s ↔ s.flag = false := by
  rw [FlagHeld, Bool.eq_false_iff]
  exact forall_congr' fun _ => iff_of_false (fun ⟨h, hh⟩ => hs.not_holds h hh) not_false

/-- After a step of `h₀`, which holds the flag if `b`, the other threads hold it as before. -/
def MovedBy (s s' : AsyncLogger T) (h₀ : Option T) (b : Prop) : Prop :=
  ∀ h, Holds s' h ↔ (h = h₀ ∧ b) ∨ (h ≠ h₀ ∧ Holds s h)

variable {h₀ : Option T} {b : Prop}

theorem FlagInv.of_stay (hs : FlagInv s) (hmoved : MovedBy s s' h₀ b) (hb : b ↔ Holds s h₀)
    (hflag : s'.flag = s.flag) : FlagInv s' := by
  have hholds : ∀ h, Holds s' h ↔ Holds s h := by
    intro h
    rw [hmoved h, hb]
    by_cases hh : h = h₀ <;> simp [hh]
  refine ⟨fun h => ?_, fun h hh => ?_, fun h h' hh hh' => ?_⟩
  · obtain ⟨h, hh⟩ := hs.held (hflag ▸ h)
    exact ⟨h, (hholds h).mpr hh⟩
  · exact hflag.trans (hs.flag h ((hholds h).mp hh))
  · exact hs.unique h h' ((hholds h).mp hh) ((hholds h').mp hh')

theorem FlagInv.of_lock (hs : FlagInv s) (hfree : s.flag = false) (hmoved : MovedBy s s' h₀ b)
    (hb : b) (hflag : s'.flag = true) : FlagInv s' := by
  have hnone : ∀ h, ¬Holds s h := fun h hh => by simp [hs.flag h hh] at hfree
  have hholds : ∀ h, Holds s' h ↔ h = h₀ := fun h => by simp [hmoved h, hb, hnone h]
  refine ⟨fun _ => ⟨h₀, (hholds h₀).mpr rfl⟩, fun _ _ => hflag, fun h h' hh hh' => ?_⟩
  exact ((hholds h).mp hh).trans ((hholds h').mp hh').symm

theorem FlagInv.not_holds (hs : FlagInv s) (hh₀ : Holds s h₀) (hmoved : MovedBy s s' h₀ b)
    (hb : ¬b) (h : Option T) : ¬Holds s' h := by
  rw [hmoved h]
  rintro (⟨-, hb'⟩ | ⟨hne, hh⟩)
  · exact hb hb'
  · exact hne (hs.unique h h₀ hh hh₀)

theorem FlagInv.of_unlock (hs : FlagInv s) (hh₀ : Holds s h₀) (hmoved : MovedBy s s' h₀ b)
    (hb : ¬b) (hflag : s'.flag = false) : FlagInv s' := by
  have hnone := hs.not_holds hh₀ hmoved hb
  refine ⟨fun htrue => ?_, fun h hh => absurd hh (hnone h), fun h _ hh => absurd hh (hnone h)⟩
  simp [hflag] at htrue

theorem movedBy_flusher (hpc : s'.pc = s.pc) : MovedBy s s' none s'.flusher.Holding := by
  intro h
  cases h <;> simp [Holds, hpc]

theorem not_flagHeld_iff : ¬FlagHeld s ↔ Stuck s := by
  rw [FlagHeld, Classical.not_imp, not_exists]
  exact ⟨fun h => ⟨h.1, h.2⟩, fun h => ⟨h.flag, h.free⟩⟩

theorem Stuck.of_moved (hs : Stuck s) (hmoved : MovedBy s s' h₀ b) (hb : ¬b)
    (hflag : s'.flag = s.flag) : Stuck s' := by
  refine ⟨hflag.trans hs.flag, fun h hh => ?_⟩
  rcases (hmoved h).mp hh with ⟨-, hb'⟩ | ⟨-, hh⟩
  · exact hb hb'
  · exact hs.free h hh

variable [DecidableEq T] {e : Event T}

theorem movedBy_pc {t : T} {pc : Pc} (hflusher : s'.flusher = s.flusher)
    (hpc : s'.pc = Function.update s.pc t pc) : MovedBy s s' (some t) pc.Holding := by
  intro h
  cases h with
  | none => simp [Holds, hflusher]
  | some u =>
    by_cases hu : u = t
    · subst hu
      simp [Holds, hpc]
    · simp [Holds, hpc, hu]

theorem FlagInv.step (hs : FlagInv s) (hknown : LevelKnown s e) (h : Moves s e s') :
    FlagInv s' := by
  cases h with
  | refuse | spin | flusherSpin => exact hs
  | writeStop t args hpc | accept t args r hpc | stop t hpc | store t hpc | join t hpc
  | flushed t hpc | returned t hpc | abort t hpc | append t r level hpc =>
    exact hs.of_stay (movedBy_pc rfl rfl) (by rw [Holds, hpc]; exact Iff.rfl) rfl
  | lock t r hpc hflag => exact hs.of_lock hflag (movedBy_pc rfl rfl) trivial rfl
  | throw t r hpc hlevel => simp [LevelKnown, Pc.LevelKnown, hpc, hlevel] at hknown
  | unlock t hpc =>
    exact hs.of_unlock (by rw [Holds, hpc]; trivial) (movedBy_pc rfl rfl) not_false rfl
  | flushOne | flusherOne =>
    exact hs.of_stay (movedBy_flusher rfl) Iff.rfl rfl
  | flusherLoop hpc =>
    refine hs.of_stay (movedBy_flusher rfl) ?_ rfl
    rw [Holds, hpc]
    dsimp only
    split_ifs <;> exact Iff.rfl
  | flusherLock hpc hflag => exact hs.of_lock hflag (movedBy_flusher rfl) trivial rfl
  | flusherSwap hpc | flusherEnd hpc =>
    exact hs.of_stay (movedBy_flusher rfl) (by rw [Holds, hpc]; exact Iff.rfl) rfl
  | flusherUnlock hpc =>
    exact hs.of_unlock (by rw [Holds, hpc]; trivial) (movedBy_flusher rfl) not_false rfl

/-- A step for which the level is unknown is the lookup of a `Write` that throws. -/
theorem exists_throw (hknown : ¬LevelKnown s e) (h : step s e = some s') :
    ∃ t r, s.pc t = .append r ∧
      s' = { s.setPc t .idle with thrown := s.thrown ++ [(t, r)] } := by
  cases e with
  | go t =>
    cases hpc : s.pc t with
    | append r =>
      have hlevel : r.level = none := by
        simpa [LevelKnown, Pc.LevelKnown, hpc] using hknown
      refine ⟨t, r, hpc, ?_⟩
      simpa [step, AsyncLogger.go, hpc, hlevel] using h.symm
    | _ => simp [LevelKnown, Pc.LevelKnown, hpc] at hknown
  | _ => exact absurd trivial hknown

theorem FlagInv.stuck_of_throw (hs : FlagInv s) (hknown : ¬LevelKnown s e)
    (h : Cyber.Logger.step s e = some s') : Stuck s' := by
  obtain ⟨t, r, hpc, rfl⟩ := exists_throw hknown h
  have hholds : Holds s (some t) := by
    rw [Holds, hpc]
    trivial
  exact ⟨hs.flag _ hholds, hs.not_holds hholds (movedBy_pc rfl rfl) not_false⟩

/-- A flag that nobody holds is never cleared. -/
theorem Stuck.step (hs : Stuck s) (h : Moves s e s') : Stuck s' := by
  cases h with
  | refuse | spin | flusherSpin => exact hs
  | writeStop | accept | stop | store | join | flushed | returned | abort =>
    exact hs.of_moved (movedBy_pc rfl rfl) not_false rfl
  | lock t r hpc hflag | flusherLock hpc hflag => simp [hs.flag] at hflag
  | append t r level hpc hlevel => exact absurd (by rw [Holds, hpc]; trivial) (hs.free (some t))
  | throw t r hpc hlevel => exact absurd (by rw [Holds, hpc]; trivial) (hs.free (some t))
  | unlock t hpc => exact absurd (by rw [Holds, hpc]; trivial) (hs.free (some t))
  | flushOne | flusherOne => exact hs.of_moved (movedBy_flusher rfl) (hs.free none) rfl
  | flusherLoop hpc =>
    refine hs.of_moved (movedBy_flusher rfl) ?_ rfl
    dsimp only
    split_ifs <;> exact not_false
  | flusherSwap hpc | flusherUnlock hpc =>
    exact absurd (by rw [Holds, hpc]; trivial) (hs.free none)
  | flusherEnd => exact hs.of_moved (movedBy_flusher rfl) not_false rfl

/-- A step leaves the flag to somebody exactly if it was so before and the step does not throw. -/
theorem flagHeld_step_iff (hs : FlagInv s ∨ Stuck s) (h : step s e = some s') :
    FlagHeld s' ↔ FlagHeld s ∧ LevelKnown s e := by
  rcases hs with hs | hs
  · by_cases hknown : LevelKnown s e
    · exact iff_of_true (hs.step hknown (moves_of_step h)).held ⟨hs.held, hknown⟩
    · exact iff_of_false (not_flagHeld_iff.mpr (hs.stuck_of_throw hknown h)) (hknown ·.2)
  · exact iff_of_false (not_flagHeld_iff.mpr (hs.step (moves_of_step h)))
      (not_flagHeld_iff.mpr hs ·.1)

theorem flagInv_or_stuck_step (hs : FlagInv s ∨ Stuck s) (h : step s e = some s') :
    FlagInv s' ∨ Stuck s' := by
  rcases hs with hs | hs
  · by_cases hknown : LevelKnown s e
    · exact .inl (hs.step hknown (moves_of_step h))
    · exact .inr (hs.stuck_of_throw hknown h)
  · exact .inr (hs.step (moves_of_step h))

/-- **The flag is released.** After a run the flag is set only while a thread is between setting and
clearing it, exactly if the message of every `Write` that looks its level up begins with a level. In
particular the flag is clear when neither a `Write` nor a swap is executing exactly if no `Write`
has thrown. -/
theorem flagHeld_iff {es : List (Event T)} (h : exec step init es = some s) :
    (FlagHeld s ↔ AllSteps step LevelKnown init es) ∧
    (Quiet s → (s.flag = false ↔ AllSteps step LevelKnown init es)) := by
  have hall : FlagHeld s ↔ AllSteps step LevelKnown init es := by
    rw [and_allSteps_iff (fun s => FlagInv s ∨ Stuck s)
      (fun _ _ _ hs h => flagInv_or_stuck_step hs h) (fun _ _ _ hs h => flagHeld_step_iff hs h)
      (.inl flagInv_init) h]
    exact and_iff_right flagInv_init.held
  refine ⟨hall, fun hquiet => ?_⟩
  rw [← hall, hquiet.flagHeld_iff_flag]

/-- A `Write` and a swap after each other. -/
theorem flag_clear_after_write : ∃ s : AsyncLogger Bool, exec step init
    [.write false ⟨false, 5, some "I a".toList⟩, .flusher, .go false, .flusher, .go false,
      .go false, .flusher, .flusher, .flusher] = some s ∧
    s.flushing = [⟨5, "I a".toList, 0⟩] ∧ s.flag = false :=
  exists_exec_mono (P := fun s => Quiet s ∧ s.flushing = [⟨5, "I a".toList, 0⟩])
    (by decide +kernel) fun _ hs ⟨hquiet, hflushing⟩ =>
      ⟨hflushing, ((flagHeld_iff hs).2 hquiet).mpr (by decide +kernel)⟩

/-- A `Write` of a message that does not begin with a level: it ends and leaves the flag set. -/
theorem flag_set_after_throw : ∃ s : AsyncLogger Bool, exec step init
    [.write false ⟨false, 5, some "x".toList⟩, .go false, .go false] = some s ∧
    s.thrown = [(false, ⟨5, "x".toList⟩)] ∧ Quiet s ∧ s.flag = true := by
  decide +kernel

end Cyber.Logger
