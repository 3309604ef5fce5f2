import Notebook.ShmTest.AllocMemoryRuns

/-!
# The reference count of an object

Every `Create` and every `OpenOnly` counts a reference in the object that the handle maps from then
on, `Destroy` takes one back, and the `Destroy` that finds the count at `0` removes the name.
`Remap` leaves an object without giving its reference back and counts one in the object that the
name stands for. After a `Recreate` the flag that makes the readers map again is set in that very
object and is never cleared, so each read counts one more reference.

## Main definitions

* `Counted` — the count of the named object is the number of the handles that map it.
* `Sound` — the condition on a call under which it counts right.

## Main results

* `correct_iff_sound` — a call from a state with the right count is correct if and only if it is
  sound.
* `referenceCount_correct_iff` — the reference count is correct exactly in the runs of sound calls.
-/

open Interleaving Function Option

namespace ShmTest

variable {m : Store}

section Counted

variable {T : Type*} {v v' : View} {pc : T → Handle} {t : T} {h' : Handle} {obj : ℕ} {f : Bool}
  {k j : ℕ}

/-- The handle is initialised and maps the object. -/
def On (obj : ℕ) (h : Handle) : Prop := h.attached = some obj

/-- The reference count of the object that the name stands for is the number of the initialised
handles that map it. -/
def Counted (v : View) (pc : T → Handle) : Prop :=
  ∀ obj f k, v.named = some obj → v.info obj = some (f, k) → InPhase (On obj) pc k

theorem counted_of_named_none (hnamed : v.named = none) : Counted v pc := fun obj f k hobj => by
  simp [hnamed] at hobj

theorem counted_iff (hnamed : v.named = some obj) (hinfo : v.info obj = some (f, k))
    (hphase : InPhase (On obj) pc j) : Counted v pc ↔ k = j := by
  constructor
  · intro hcounted
    exact (hcounted obj f k hnamed hinfo).unique hphase
  · rintro rfl obj' f' k' hnamed' hinfo'
    obtain rfl : obj = obj' := some.inj (hnamed.symm.trans hnamed')
    obtain ⟨-, rfl⟩ := Prod.mk.inj (some.inj (hinfo.symm.trans hinfo'))
    exact hphase

theorem Attaches.on (hattach : Attaches v v' h' obj f k) : On obj h' :=
  Handle.attached_eq_some.mpr ⟨hattach.init, hattach.obj⟩

theorem Attaches.info_after (hattach : Attaches v v' h' obj f k) :
    v'.info obj = some (f, uint32 (k + 1)) := by
  rw [hattach.view]
  exact update_self ..

theorem Attaches.named_after (hattach : Attaches v v' h' obj f k) : v'.named = some obj := by
  rw [hattach.view]
  exact hattach.named

variable [DecidableEq T]

theorem Counted.stay (hcounted : Counted v pc) (hsame : h'.attached = (pc t).attached) :
    Counted v (update pc t h') := fun obj f k hnamed hinfo =>
  (hcounted obj f k hnamed hinfo).stay (by rw [On, On, hsame])

theorem Counted.attach_iff (hcounted : Counted v pc) (hnone : (pc t).attached = none)
    (hattach : Attaches v v' h' obj f k) :
    Counted v' (update pc t h') ↔ k + 1 < 2 ^ 32 := by
  have hphase : InPhase (On obj) (update pc t h') (k + 1) :=
    (hcounted obj f k hattach.named hattach.info).enter (by simp [On, hnone]) hattach.on
  rw [counted_iff hattach.named_after hattach.info_after hphase]
  unfold uint32
  omega

/-- A reference that is not given back is missing exactly when it was one to the named object. -/
theorem Counted.drop_iff (hcounted : Counted v pc) (hmapped : v.Mapped (pc t))
    (hnone : h'.attached = none) : Counted v (update pc t h') ↔
      (pc t).attached = none ∨ (pc t).attached ≠ v.named := by
  constructor
  · intro hcounted'
    by_contra hnot
    rw [not_or, not_ne_iff] at hnot
    obtain ⟨hsome, hnamed⟩ := hnot
    obtain ⟨obj, hobj⟩ := ne_none_iff_exists'.mp hsome
    obtain ⟨f, k, hinfo⟩ := hmapped.info hobj
    have hnamed := hnamed.symm.trans hobj
    have hphase := hcounted obj f k hnamed hinfo
    obtain ⟨j, rfl⟩ : ∃ j, k = j + 1 := Nat.exists_eq_succ_of_ne_zero (hphase.pos hobj).ne'
    have hphase' : InPhase (On obj) (update pc t h') j :=
      hphase.leave hobj (by simp [On, hnone])
    exact absurd ((counted_iff hnamed hinfo hphase').mp hcounted') (Nat.succ_ne_self j)
  · intro hother obj f k hnamed hinfo
    refine (hcounted obj f k hnamed hinfo).stay ?_
    rw [On, On, hnone, ← hnamed]
    rcases hother with hother | hother
    · simp [hother, hnamed]
    · simp [hnamed] at hother ⊢
      exact hother

theorem Counted.destroy {unlink : Bool} (hcounted : Counted v pc) (hon : On obj (pc t))
    (hdestroyed : Destroyed v v' unlink h' obj f k) : Counted v' (update pc t h') := by
  obtain ⟨hinfo, hinit, rfl⟩ := hdestroyed
  have hnone : h'.attached = none := Handle.attached_of_not_init hinit
  split
  · exact counted_of_named_none rfl
  · intro o g i hnamed hinfo'
    by_cases ho : o = obj
    · subst ho
      have hphase := hcounted o f k hnamed hinfo
      obtain ⟨j, rfl⟩ : ∃ j, k = j + 1 := Nat.exists_eq_succ_of_ne_zero (hphase.pos hon).ne'
      simp only [View.put, update_self, some.injEq, Prod.mk.injEq] at hinfo'
      rw [← hinfo'.2]
      exact hphase.leave hon (by simp [On, hnone])
    · simp only [View.put, update_of_ne ho] at hinfo'
      refine (hcounted o g i hnamed hinfo').stay ?_
      rw [On, On, hnone, hon]
      simp [Ne.symm ho]

theorem counted_create (hfresh : v.Fresh) (hmapped : ∀ u, v.Mapped (pc u)) (hinit : h'.init = true)
    (hobj : h'.obj = some v.next) : Counted (v.create (some (f, 1))) (update pc t h') := by
  have hnobody : ∀ u, ¬On v.next (pc u) := by
    intro u hu
    obtain ⟨g, i, hinfo⟩ := (hmapped u).info hu
    exact absurd (hfresh.info_lt _ _ hinfo) (lt_irrefl _)
  have hphase : InPhase (On v.next) (update pc t h') (0 + 1) :=
    (inPhase_zero_iff.mpr hnobody).enter (hnobody t) (Handle.attached_eq_some.mpr ⟨hinit, hobj⟩)
  exact (counted_iff rfl (update_self ..) hphase).mpr rfl

/-- `Remap` of a handle on the named object counts it twice, or loses it. The count `k` may have
wrapped around before. -/
theorem not_counted_remap {name : ℕ} (os : Os) (hname : (pc t).shmName = name)
    (hnamed : (m.view name).named = some obj) (hinfo : (m.view name).info obj = some (f, k))
    (hon : On obj (pc t)) (hphase : InPhase (On obj) pc j) (hk : k = j ∨ k = uint32 j) :
    ¬Counted ((remap os m (pc t)).2.1.view name)
      (update pc t (remap os m (pc t)).2.2) := by
  subst hname
  obtain ⟨j, rfl⟩ : ∃ i, j = i + 1 := Nat.exists_eq_succ_of_ne_zero (hphase.pos hon).ne'
  have hreset : openOnly os m (pc t).reset = remap os m (pc t) := rfl
  rcases openOnly_view os m (pc t).reset with ⟨hinit, -⟩ | ⟨-, heq⟩ | ⟨-, -, obj', f', k', hattach⟩
  · cases hinit
  · rw [hreset] at heq
    have hphase' : InPhase (On obj) (update pc t (pc t).reset) j :=
      hphase.leave hon (by simp [On, Handle.attached, Handle.reset])
    rw [heq, counted_iff hnamed hinfo hphase']
    unfold uint32 at hk
    omega
  · rw [hreset] at hattach
    obtain rfl : obj' = obj := some.inj (hattach.named.symm.trans hnamed)
    obtain ⟨rfl, rfl⟩ := Prod.mk.inj (some.inj (hattach.info.symm.trans hinfo))
    have hphase' := hphase.stay (v := (remap os m (pc t)).2.2) (iff_of_true hattach.on hon)
    rw [show (pc t).reset.shmName = (pc t).shmName from rfl] at hattach
    rw [counted_iff hattach.named_after hattach.info_after hphase']
    unfold uint32 at hk ⊢
    omega

end Counted

/-! ### Calls -/

/-- If `OpenOnly` attaches the handle, then the reference counter does not wrap around. -/
def CountsOne (os : Os) (m : Store) (h : Handle) : Prop :=
  ∀ obj f k, h.init = false → (openOnly os m h).1 = true → (m.view h.shmName).named = some obj →
    (m.view h.shmName).info obj = some (f, k) → k + 1 < 2 ^ 32

section Steps

variable {T : Type*} [DecidableEq T] {name : ℕ} {s s' : Threads Store T Handle} {t : T}

/-- The handle is the last one that maps the object with the name. -/
def LastAttached (name : ℕ) (s : Threads Store T Handle) (t : T) : Prop :=
  ∃ obj, s.mem.named name = some obj ∧ On obj (s.pc t) ∧ ∀ u, On obj (s.pc u) → u = t

/-- After the call the reference count of the named object is right; a `Destroy` has removed the
name exactly when the handle was the last one. -/
def Correct (name : ℕ) (s : Threads Store T Handle) (e : T × Call) : Prop :=
  ∀ s', Threads.step Call.run s e = some s' → Counted (s'.mem.view name) s'.pc ∧
    ∀ os, e.2 = .destroy os →
      ((s.mem.named name ≠ none ∧ s'.mem.named name = none) ↔ LastAttached name s e.1)

/-- The call counts right: a new reference does not make the counter wrap around; `Remap` is not
made by a handle on the named object, and neither does the process end with one; the `Destroy` that
leaves no reference can remove the name, if it is the name of the object, and cannot, if it is the
name of another one. -/
def Sound (name : ℕ) (s : Threads Store T Handle) (e : T × Call) : Prop :=
  let m := s.mem
  let h := s.pc e.1
  match e.2 with
  | .create _ | .acquireBlockToWrite .. | .releaseWrittenBlock _ | .releaseReadBlock _ => True
  | .openOnly os => CountsOne os m h
  | .acquireBlockToRead env index =>
    let r := openOnly env.openOnly m h
    CountsOne env.openOnly m h ∧
      (r.1 = true ∧ FindsNeedRemap r.2.1 r.2.2 index →
        r.2.2.attached ≠ r.2.1.named name ∧ CountsOne env.remap r.2.1 r.2.2.reset)
  | .destroy os => ∀ obj f k, On obj h → (m.view name).info obj = some (f, k) → k ≤ 1 →
      ∀ obj', m.named name = some obj' → (os.unlink = true ↔ obj' = obj)
  | .crash => h.attached = none ∨ h.attached ≠ m.named name

variable {pc : T → Handle}

theorem counted_openOnly_iff (hcounted : Counted (m.view name) pc)
    (hname : (pc t).shmName = name) (os : Os) :
    Counted ((openOnly os m (pc t)).2.1.view name)
        (update pc t (openOnly os m (pc t)).2.2) ↔ CountsOne os m (pc t) := by
  subst hname
  rcases openOnly_view os m (pc t) with ⟨hinit, heq⟩ | ⟨-, heq⟩ | ⟨hinit, hok, obj, f, k, hattach⟩
  · rw [heq]
    refine iff_of_true (hcounted.stay rfl) fun obj f k hinit' => ?_
    simp [hinit] at hinit'
  · refine iff_of_true ?_ fun obj f k _ hok => ?_
    · rw [heq]
      exact hcounted.stay rfl
    · simp [heq] at hok
  · rw [hcounted.attach_iff (Handle.attached_of_not_init hinit) hattach]
    constructor
    · intro hlt obj' f' k' _ _ hnamed' hinfo'
      obtain rfl : obj = obj' := some.inj (hattach.named.symm.trans hnamed')
      obtain ⟨-, rfl⟩ := Prod.mk.inj (some.inj (hattach.info.symm.trans hinfo'))
      exact hlt
    · intro hone
      exact hone obj f k hinit hok hattach.named hattach.info

/-- `Remap` counts right when the handle leaves an object that has lost its name. -/
theorem counted_remap_iff (hcounted : Counted (m.view name) pc)
    (hname : (pc t).shmName = name) (hmapped : (m.view name).Mapped (pc t))
    (hinit : (pc t).init = true) (os : Os) :
    Counted ((remap os m (pc t)).2.1.view name) (update pc t (remap os m (pc t)).2.2) ↔
      (pc t).attached ≠ m.named name ∧ CountsOne os m (pc t).reset := by
  obtain ⟨obj, f, k, hobj, hinfo⟩ := hmapped hinit
  have hattached : (pc t).attached = some obj := Handle.attached_eq_some.mpr ⟨hinit, hobj⟩
  by_cases hnamed : (pc t).attached = m.named name
  · have hnamed' : (m.view name).named = some obj := hnamed.symm.trans hattached
    have hphase := hcounted obj f k hnamed' hinfo
    exact iff_of_false (not_counted_remap os hname hnamed' hinfo hattached hphase (.inl rfl))
      fun h => h.1 hnamed
  · -- the handle leaves its object, and then opens the one with the name
    have hdropped : Counted (m.view name) (update pc t (pc t).reset) :=
      (hcounted.drop_iff hmapped (Handle.attached_of_not_init rfl)).mpr (.inr hnamed)
    have hopen := counted_openOnly_iff (t := t) hdropped
      (by rw [update_self]; exact hname) os
    rw [update_self, update_idem] at hopen
    rw [← hopen]
    exact ⟨fun h => ⟨hnamed, h⟩, fun h => h.2⟩

variable {h' : Handle}

theorem counted_acquireBlockToRead_iff {m m' : Store} {env : ReadEnv} {index : ℕ} {out : Acquired}
    (hcounted : Counted (m.view name) pc)
    (hname : (pc t).shmName = name) (hmapped : (m.view name).Mapped (pc t))
    (hcall : acquireBlockToRead env m (pc t) index = some (out, m', h')) :
    Counted (m'.view name) (update pc t h') ↔
      Sound name ⟨m, pc⟩ (t, .acquireBlockToRead env index) := by
  have hopen := counted_openOnly_iff hcounted hname env.openOnly
  simp only [Sound]
  rw [← hopen]
  rcases acquireBlockToRead_cases rfl hcall name with
    ⟨hkeep, rfl, hview, -⟩ | ⟨hremap, rfl, hview, -⟩
  · rw [hview]
    exact ⟨fun h => ⟨h, fun hremap => absurd hremap hkeep⟩, fun h => h.1⟩
  rw [hview]
  rcases openOnly_view env.openOnly m (pc t) with
    ⟨hinit, heq⟩ | ⟨-, heq⟩ | ⟨hinit, -, obj, f, k, hattach⟩
  · rw [heq] at hremap ⊢
    have hstay : Counted (m.view name) (update pc t (pc t)) := hcounted.stay rfl
    rw [counted_remap_iff hcounted hname hmapped hinit env.remap]
    exact ⟨fun h => ⟨hstay, fun _ => h⟩, fun h => h.2 hremap⟩
  · rw [heq] at hremap
    cases hremap.1
  · -- the object that has just been opened has the name
    rw [hname] at hattach
    have hphase : InPhase (On obj)
        (update pc t (openOnly env.openOnly m (pc t)).2.2) (k + 1) :=
      (hcounted obj f k hattach.named hattach.info).enter
        (by simp [On, Handle.attached_of_not_init hinit]) hattach.on
    refine iff_of_false ?_ fun h => (h.2 hremap).1 (hattach.on.trans hattach.named_after.symm)
    have hbad := not_counted_remap (t := t) env.remap ?_ hattach.named_after hattach.info_after ?_
      hphase (.inr rfl)
    · rwa [update_self, update_idem] at hbad
    · simpa using (openOnly_shmName env.openOnly m (pc t)).trans hname
    · simpa using hattach.on

theorem counted_createFailed {m m' : Store} (hcounted : Counted (m.view name) pc)
    (hinit : (pc t).init = false) (hinit' : h'.init = false)
    (hfailed : CreateFailed m name m') : Counted (m'.view name) (update pc t h') := by
  have hsame : h'.attached = (pc t).attached := by
    rw [Handle.attached_of_not_init hinit, Handle.attached_of_not_init hinit']
  cases hfailed with
  | kept => exact hcounted.stay hsame
  | unlinked => exact counted_of_named_none (by simp [Store.view_unlink, View.unlink])
  | empty =>
    rw [Store.view_shmCreate]
    intro obj f k hnamed hinfo
    obtain rfl : (m.view name).next = obj := some.inj hnamed
    simp [View.create] at hinfo
  | removed => exact counted_of_named_none (by simp [Store.view_unlink, View.unlink])

omit [DecidableEq T] in
/-- When it is the last `Destroy` at the named object that removes the name. -/
theorem unlinked_iff_last {v v' : View} {unlink : Bool} {obj : ℕ}
    {f : Bool} {k : ℕ} (hcounted : Counted v pc) (hon : On obj (pc t))
    (hdestroyed : Destroyed v v' unlink h' obj f k) :
    ((v.named ≠ none ∧ v'.named = none) ↔
        ∃ o, v.named = some o ∧ On o (pc t) ∧ ∀ u, On o (pc u) → u = t) ↔
      (k ≤ 1 → ∀ o, v.named = some o → (unlink = true ↔ o = obj)) := by
  obtain ⟨hinfo, -, rfl⟩ := hdestroyed
  have honly : ∀ o, On o (pc t) → o = obj := fun o ho => some.inj (ho.symm.trans hon)
  cases hnamed : v.named with
  | none => simp
  | some o =>
    have hunlinked : (if k - 1 = 0 ∧ unlink = true then (v.put obj (f, k - 1)).unlink
        else v.put obj (f, k - 1)).named = none ↔ k ≤ 1 ∧ unlink = true := by
      split
      · rename_i h
        exact iff_of_true rfl ⟨by omega, h.2⟩
      · rename_i h
        exact iff_of_false (by simp [View.put, hnamed]) fun hle => h ⟨by omega, hle.2⟩
    rw [hunlinked]
    by_cases ho : o = obj
    · subst ho
      have hphase := hcounted o f k hnamed hinfo
      have hpos := hphase.pos hon
      have hlast := hphase.eq_one_iff hon
      simp only [ne_eq, reduceCtorEq, not_false_eq_true, true_and, some.injEq,
        exists_eq_left', hon, ← hlast, forall_eq', iff_true]
      constructor
      · intro hiff hle
        exact (hiff.mpr (by omega)).2
      · intro hunlink
        exact ⟨fun h => by omega, fun h => ⟨by omega, hunlink (by omega)⟩⟩
    · have hnot : ¬On o (pc t) := fun h => ho (honly o h)
      simp [ho, hnot]

theorem counted_createCall {os : List Os} {ok : Bool} {m' : Store} (hs : Topic.WellFormed name s)
    (hcounted : Counted (s.mem.view name) s.pc)
    (hcall : create os s.mem (s.pc t) = some (ok, m', h')) :
    Counted (m'.view name) (update s.pc t h') := by
  obtain ⟨-, ⟨-, rfl, rfl⟩ | ⟨hinit, hinit', hfailed⟩ | ⟨-, hinit, hobj, f, hview⟩⟩ :=
    create_view hcall
  · exact hcounted.stay rfl
  · rw [hs.shmName t] at hfailed
    exact counted_createFailed hcounted hinit hinit' hfailed
  · rw [hs.shmName t] at hview
    rw [hview]
    exact counted_create hs.fresh hs.mapped hinit hobj

/-- `Destroy` counts right, and it removes the name exactly when it should if it is sound. -/
theorem correct_destroy_iff {os : Os} {ok : Bool} {m' : Store} (hs : Topic.WellFormed name s)
    (hcounted : Counted (s.mem.view name) s.pc)
    (hcall : destroy os s.mem (s.pc t) = some (ok, m', h')) :
    (Counted (m'.view name) (update s.pc t h') ∧
        ((s.mem.named name ≠ none ∧ m'.named name = none) ↔ LastAttached name s t)) ↔
      Sound name s (t, .destroy os) := by
  obtain ⟨-, ⟨hinit, rfl, rfl⟩ | ⟨hinit, obj, f, k, hobj, hdestroyed⟩⟩ := destroy_view hcall
  · have hnot : ∀ obj, ¬On obj (s.pc t) := by
      intro obj hon
      rw [On, Handle.attached_of_not_init hinit] at hon
      cases hon
    refine iff_of_true ⟨hcounted.stay rfl, iff_of_false (fun h => h.1 h.2) ?_⟩ ?_
    · exact fun ⟨obj, _, hon, _⟩ => hnot obj hon
    · exact fun obj _ _ hon => absurd hon (hnot obj)
  · rw [hs.shmName t] at hdestroyed
    have hon : On obj (s.pc t) := Handle.attached_eq_some.mpr ⟨hinit, hobj⟩
    have hiff := unlinked_iff_last hcounted hon hdestroyed
    constructor
    · rintro ⟨-, hlast⟩ obj' f' k' hon' hinfo'
      obtain rfl : obj = obj' := some.inj (hon.symm.trans hon')
      obtain ⟨-, rfl⟩ := Prod.mk.inj (some.inj (hdestroyed.info.symm.trans hinfo'))
      exact hiff.mp hlast
    · intro hsound
      exact ⟨hcounted.destroy hon hdestroyed, hiff.mpr (hsound obj f k hon hdestroyed.info)⟩

/-- A call from a state with the right count is correct exactly when it is sound. -/
theorem correct_iff_sound {c : Call} (hs : Topic.WellFormed name s)
    (hcounted : Counted (s.mem.view name) s.pc)
    (hstep : Threads.step Call.run s (t, c) = some s') :
    Correct name s (t, c) ↔ Sound name s (t, c) := by
  have hcorrect : Correct name s (t, c) ↔ Counted (s'.mem.view name) s'.pc ∧
      ∀ os, c = .destroy os →
        ((s.mem.named name ≠ none ∧ s'.mem.named name = none) ↔ LastAttached name s t) := by
    simp only [Correct, hstep, some.injEq, forall_eq']
  obtain ⟨m', h', hcall, rfl⟩ := Threads.step_eq_some.mp hstep
  have hname := hs.shmName t
  rw [hcorrect]
  cases c with
  | create os =>
    obtain ⟨⟨ok, m', h'⟩, hcall, ⟨⟩⟩ := map_eq_some_iff.mp hcall
    exact iff_of_true ⟨counted_createCall hs hcounted hcall, fun _ h => by cases h⟩ trivial
  | openOnly os =>
    have heq : (ShmTest.openOnly os s.mem (s.pc t)).2 = (m', h') := some.inj hcall
    have hiff := counted_openOnly_iff hcounted hname os
    rw [heq] at hiff
    exact (and_iff_left fun _ h => by cases h).trans hiff
  | acquireBlockToWrite | releaseWrittenBlock | releaseReadBlock =>
    obtain ⟨hsame, rfl⟩ := Call.run_sameHeaders hcall trivial
    have hstay : Counted (m'.view name) (update s.pc t (s.pc t)) :=
      hsame.view name ▸ hcounted.stay rfl
    exact iff_of_true ⟨hstay, fun _ h => by cases h⟩ trivial
  | acquireBlockToRead env index =>
    obtain ⟨⟨out, m', h'⟩, hcall, ⟨⟩⟩ := map_eq_some_iff.mp hcall
    exact (and_iff_left fun _ h => by cases h).trans
      (counted_acquireBlockToRead_iff hcounted hname (hs.mapped t) hcall)
  | destroy os =>
    obtain ⟨⟨ok, m', h'⟩, hcall, ⟨⟩⟩ := map_eq_some_iff.mp hcall
    rw [← correct_destroy_iff hs hcounted hcall]
    exact and_congr_right fun _ => ⟨fun h => h os rfl, fun h _ _ => h⟩
  | crash =>
    obtain ⟨⟩ := some.inj hcall
    exact (and_iff_left fun _ h => by cases h).trans
      (hcounted.drop_iff (hs.mapped t) (Handle.attached_of_not_init rfl))

/-- **The reference count is correct exactly in the runs of sound calls.** -/
theorem referenceCount_correct_iff {pid : T → ℕ} {conf : T → ShmConf} {dead : ℕ → Bool}
    {es : List (T × Call)}
    (hrun : exec (Threads.step Call.run) (Topic.init name pid conf dead) es = some s) :
    AllSteps (Threads.step Call.run) (Correct name) (Topic.init name pid conf dead) es ↔
      AllSteps (Threads.step Call.run) (Sound name) (Topic.init name pid conf dead) es := by
  refine allSteps_iff_of_invariant
    (fun s => Topic.WellFormed name s ∧ Counted (s.mem.view name) s.pc) ?_ ?_ ?_ hrun
  · rintro s ⟨t, c⟩ s' ⟨hwf, hcounted⟩ hstep
    exact correct_iff_sound hwf hcounted hstep
  · rintro s ⟨t, c⟩ s' ⟨hwf, hcounted⟩ hsound hstep
    exact ⟨hwf.step hstep, (((correct_iff_sound hwf hcounted hstep).mpr hsound) s' hstep).1⟩
  · exact ⟨Topic.wellFormed_init pid conf dead, counted_of_named_none rfl⟩

end Steps

/-- The second `Create` makes an object with the flag; then the handle `1` reads from it twice. -/
def twoReads : List (ℕ × Call) :=
  [(0, .create [{}]), (2, .create [{}, {}]), (1, .openOnly {}), (1, .acquireBlockToRead {} 0),
    (1, .acquireBlockToRead {} 0)]

/-- After the two reads the handles `1` and `2` are on the object, and its count is `4`; after both
have been destroyed it still has its name. -/
theorem referenceCount_after_two_reads :
    ∃ s seg s', exec (Threads.step Call.run) restart twoReads = some s ∧
      s.mem.named 0 = some 1 ∧ s.mem.shm 1 = some seg ∧ seg.referenceCount = 4 ∧
      (∀ t, On 1 (s.pc t) ↔ t = 1 ∨ t = 2) ∧
      exec (Threads.step Call.run) s [(1, .destroy {}), (2, .destroy {})] = some s' ∧
      s'.mem.named 0 = some 1 ∧ ∀ t, ¬On 1 (s'.pc t) := by
  refine ⟨_, _, _, rfl, rfl, rfl, rfl, fun t => ?_, rfl, rfl, fun t => ?_⟩
  · rcases t with _ | _ | _ | t
    · exact iff_of_false (fun h => by cases h) (by omega)
    · exact iff_of_true rfl (.inl rfl)
    · exact iff_of_true rfl (.inr rfl)
    · exact iff_of_false (fun h => by cases h) (by omega)
  · intro h
    rcases t with _ | _ | _ | t <;> cases h

/-- A writer and a reader come and go. -/
def comeAndGo : List (ℕ × Call) :=
  [(0, .create [{}]), (1, .openOnly {}), (0, .destroy {}), (1, .destroy {})]

/-- The count is right after every call, and the last `Destroy` has removed the name. -/
theorem referenceCount_correct_comeAndGo :
    ∃ s, exec (Threads.step Call.run) restart comeAndGo = some s ∧ s.mem.named 0 = none ∧
      AllSteps (Threads.step Call.run) (Correct 0) restart comeAndGo := by
  refine ⟨_, rfl, rfl, (referenceCount_correct_iff rfl).mpr ?_⟩
  refine (allSteps_cons rfl).mpr ⟨trivial, (allSteps_cons rfl).mpr ⟨?_, (allSteps_cons rfl).mpr
    ⟨?_, (allSteps_cons rfl).mpr ⟨?_, trivial⟩⟩⟩⟩
  · rintro obj f k - - ⟨⟩ ⟨⟩
    decide
  · rintro obj f k ⟨⟩ ⟨⟩ hk
    exact absurd hk (by decide)
  · rintro obj f k ⟨⟩ ⟨⟩ - obj' ⟨⟩
    decide

end ShmTest
