import Mathlib.Logic.Basic

/-!
# Waiters and notifiers

Waiters look for work, and a waiter that has found none goes to sleep. A notifier brings work and
then owes every waiter a wake-up. No wake-up is lost as long as every waiter that has looked in vain
is woken or owed a wake-up whenever there is work (`Interleaving.Covered`). Where one waiter is
enough for the work, it is enough that some waiter will still look
(`Interleaving.exists_looks_or_owes`).
-/

namespace Interleaving

variable {W N : Type*} {work work' : Prop} {missed missed' woken woken' : W → Prop}
  {owes owes' : N → W → Prop}

/-- Where there is work, a waiter that has looked in vain is woken, or a notifier owes it a
wake-up. -/
def Covered (work : Prop) (missed woken : W → Prop) (owes : N → W → Prop) : Prop :=
  work → ∀ w, missed w → woken w ∨ ∃ n, owes n w

theorem Covered.of_not (h : ¬work) : Covered work missed woken owes := fun hwork => absurd hwork h

theorem Covered.of_forall_not (h : ∀ w, ¬missed w) : Covered work missed woken owes :=
  fun _ w hw => absurd hw (h w)

theorem Covered.of_owes (n : N) (h : ∀ w, owes n w) : Covered work missed woken owes :=
  fun _ w _ => .inr ⟨n, h w⟩

/-- A step that brings no work, lets no waiter look in vain and keeps the wake-ups of the waiters
that have looked in vain: one that is woken stays so, and a wake-up that is owed is owed further,
or the waiter is woken. -/
theorem Covered.step (h : Covered work missed woken owes) (hwork : work' → work)
    (hstep : work' → ∀ w, missed' w → missed w ∧ (woken w → woken' w) ∧
      ∀ n, owes n w → owes' n w ∨ woken' w) : Covered work' missed' woken' owes' := by
  intro hwork' w hw'
  obtain ⟨hw, hwoken, howes⟩ := hstep hwork' w hw'
  rcases h (hwork hwork') w hw with hwoke | ⟨n, hn⟩
  · exact .inl (hwoken hwoke)
  · rcases howes n hn with hn' | hwoke
    · exact .inr ⟨n, hn'⟩
    · exact .inl hwoke

/-- There is no work for a waiter that has looked in vain and is neither woken nor owed a
wake-up. -/
theorem Covered.false_of_forgotten (h : Covered work missed woken owes) (hwork : work) {w : W}
    (hmissed : missed w) (hwoken : ¬woken w) (howes : ∀ n, ¬owes n w) : False := by
  rcases h hwork w hmissed with hw | ⟨n, hn⟩
  · exact hwoken hw
  · exact howes n hn

/-- A step that keeps a waiter that will look, or a notifier that owes a wake-up, wherever there is
work: a notifier that has brought the work owes a wake-up, a waiter that will look does so further,
and a wake-up that is owed is owed further, or some waiter will look. -/
theorem exists_looks_or_owes {looks looks' : W → Prop} {owes owes' : N → Prop}
    (h : work → (∃ w, looks w) ∨ ∃ n, owes n) (hwork : work' → work ∨ ∃ n, owes' n)
    (hlooks : work → work' → ∀ w, looks w → looks' w)
    (howes : work → ∀ n, owes n → owes' n ∨ ∃ w, looks' w) (hwork' : work') :
    (∃ w, looks' w) ∨ ∃ n, owes' n := by
  rcases hwork hwork' with hbefore | hn'
  · rcases h hbefore with ⟨w, hw⟩ | ⟨n, hn⟩
    · exact .inl ⟨w, hlooks hbefore hwork' w hw⟩
    · rcases howes hbefore n hn with hn' | hw'
      · exact .inr ⟨n, hn'⟩
      · exact .inl hw'
  · exact .inr hn'

end Interleaving
