import Notebook.Hela.PcTaskProgress

/-!
# One continuation at a time

After each handler of a pc task, either its result has been posted once and nothing is left to come,
or exactly one timer or request will bring it on. `WriteDataToChunk` breaks the rule: without a
connection to the target it sets up a retry, or ends the task, and then sends its message over the
connection that it did not get.
-/

open Interleaving

namespace Hela

namespace DoHelaPcTask

variable {job : PcJob} {h h' : DoHelaPcTask} {e : Event × Env}

/-- The result has been posted once and nothing is outstanding, or it has not been posted and there
is exactly one armed timer or outstanding request. -/
def OneContinuation (h : DoHelaPcTask) : Prop :=
  (h.agenda.posted.length = 1 ∧ h.agenda.timers = [] ∧ h.agenda.requests = []) ∨
    (h.agenda.posted = [] ∧ h.agenda.timers.length + h.agenda.requests.length = 1)
deriving Decidable

theorem oneContinuation_of_next {write : Bool} {next : Continuation}
    (hagenda : h.agenda.Next write next) : h.OneContinuation := by
  refine .inr ⟨hagenda.posted, ?_⟩
  cases next with
  | retry | pending =>
    obtain ⟨id, htimers⟩ := hagenda.1.timers
    rw [htimers, hagenda.1.requests]
    rfl
  | request r =>
    have htimers : h.agenda.timers = [] := hagenda.1.timers
    rw [htimers, hagenda.2]
    rfl

theorem Inv.oneContinuation (hinv : Inv job h) (hstarted : h.started = true)
    (hmissing : h.usedMissing = false) : h.OneContinuation := by
  cases hinv with
  | fresh hinit =>
    subst hinit
    exact nomatch hstarted
  | reading k next halive hagenda hcursor hsent => exact oneContinuation_of_next hagenda
  | writing k i next halive hagenda hcursor hsent => exact oneContinuation_of_next hagenda
  | finished retcode hconnected hstarted hagenda hcopied =>
    exact .inl ⟨by rw [hagenda.posted]; rfl, hagenda.timers, hagenda.requests⟩
  | crashed hstarted husedMissing hconnections _ =>
    exact absurd (hmissing.symm.trans husedMissing) (by decide)

theorem Inv.usedMissing_eq_false_iff (hinv : Inv job h) :
    h.usedMissing = false ↔ false ∉ h.connections := by
  cases hinv with
  | fresh hinit =>
    subst hinit
    exact iff_of_true rfl List.not_mem_nil
  | reading k next halive hagenda hcursor hsent =>
    exact iff_of_true halive.usedMissing halive.connections
  | writing k i next halive hagenda hcursor hsent =>
    exact iff_of_true halive.usedMissing halive.connections
  | finished retcode hconnected hstarted hagenda hcopied =>
    exact iff_of_true hconnected.usedMissing hconnected.connections
  | crashed hstarted husedMissing hconnections _ =>
    exact iff_of_false (by simp [husedMissing]) (not_not.mpr hconnections)

theorem Inv.started_or_usedMissing_eq_false (hinv : Inv job h) :
    h.started = true ∨ h.usedMissing = false := by
  cases hinv with
  | fresh hinit =>
    subst hinit
    exact .inr rfl
  | reading k next halive hagenda hcursor hsent => exact .inl halive.started
  | writing k i next halive hagenda hcursor hsent => exact .inl halive.started
  | finished retcode hconnected hstarted hagenda hcopied => exact .inl hstarted
  | crashed hstarted husedMissing hconnections _ => exact .inl hstarted

theorem usedMissing_of_step (hstep : step job h e = some h') : h.usedMissing = false := by
  rw [step] at hstep
  split at hstep
  · cases hstep
  · rename_i hmissing
    exact Bool.eq_false_iff.mpr hmissing

/-- **One continuation at a time.** After every handler either the result has been posted once and
nothing is outstanding, or there is exactly one timer or request, and no handler has used a missing
connection: this holds throughout a run exactly when every connection that was asked for was
there. -/
theorem oneContinuation_iff {job : PcJob} {h : DoHelaPcTask} {es : List (Event × Env)}
    (hrun : exec (step job) (init job) es = some h) :
    (∀ bs, bs <+: es → ∀ t, exec (step job) (init job) bs = some t → t.started = true →
      t.OneContinuation ∧ t.usedMissing = false) ↔ ∀ c ∈ h.connections, c = true := by
  have hinv := inv_of_exec hrun
  have hconnections : (∀ c ∈ h.connections, c = true) ↔ h.usedMissing = false := by
    rw [hinv.usedMissing_eq_false_iff]
    exact ⟨fun hall hmem => absurd (hall false hmem) Bool.false_ne_true,
      fun hmem c hc => Bool.eq_true_of_not_eq_false fun heq => hmem (heq ▸ hc)⟩
  rw [hconnections]
  constructor
  · intro hall
    rcases hinv.started_or_usedMissing_eq_false with hstarted | hmissing
    · exact (hall es (List.prefix_refl es) h hrun hstarted).2
    · exact hmissing
  · rintro hmissing bs ⟨cs, rfl⟩ t ht hstarted
    obtain ⟨t', ht', hrest⟩ := exec_append_eq_some.mp hrun
    obtain rfl : t = t' := Option.some.inj (ht.symm.trans ht')
    have hmissing' : t.usedMissing = false := by
      cases cs with
      | nil => exact Option.some.inj hrest ▸ hmissing
      | cons e cs =>
        obtain ⟨t₁, hstep, -⟩ := exec_cons_eq_some.mp hrest
        exact usedMissing_of_step hstep
    exact ⟨(inv_of_exec ht).oneContinuation hstarted hmissing', hmissing'⟩

/-- A pc of two sectors, copied in one part. -/
def onePart : PcJob := .ofLocalChunk 0 1024 1024 (by decide) (by decide) (by decide)

/-- The part is read and then written to the target. -/
def copyRun (connected : Bool) : List (Event × Env) :=
  [(.start, .granting connected), (.readResponse 0 1024 .ok, .granting connected),
    (.writeResponse 0 0 1024 (.readChunk 0 1024) .ok, .granting connected)]

/-- The part is copied over connections that are there, and the task ends. -/
theorem oneContinuation_of_copied :
    ∃ h, exec (step onePart) (init onePart) (copyRun true) = some h ∧
      h.agenda.posted = [.success] ∧
      ∀ bs, bs <+: copyRun true → ∀ t, exec (step onePart) (init onePart) bs = some t →
        t.started = true → t.OneContinuation ∧ t.usedMissing = false :=
  exists_exec_mono (P := fun h => h.agenda.posted = [.success] ∧ ∀ c ∈ h.connections, c = true)
    (by decide +kernel) fun _ hrun hP => ⟨hP.1, (oneContinuation_iff hrun).mpr hP.2⟩

/-- The part has been read, and there is no connection to the target. The retry is set up, and the
message is sent over the missing connection all the same. -/
theorem missing_connection_used :
    ∃ h, exec (step onePart) (init onePart) ((copyRun false).take 2) = some h ∧
      h.connections = [false] ∧ h.usedMissing = true ∧ h.agenda.timers = [(1, .retry)] := by
  decide +kernel

end DoHelaPcTask

end Hela
