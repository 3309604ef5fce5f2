import Notebook.Cyber.Timer.TimingWheel

/-!
# Adding a task to the timing wheel

`AddTask` reads the work index, adds the delay of the task and so aims at a Tick. The bucket that
it chooses is the bucket of that Tick as long as the two indices have not moved on too far when
the task is finally put there (`OnTime`). With `AddTask` as one step, after a Tick, this is always
so, and the task is dispatched exactly after its delay.
-/

open Interleaving Option

namespace Cyber.TimingWheel

variable {τ : Type*} {s : Wheel τ} {t : τ} {begun k : ℕ}

/-! ### The choice of a bucket -/

/-- The placement chosen for a delay of `k` Ticks, counted from the Tick `begun`. -/
def Chosen (s : Wheel τ) (t : τ) (begun k : ℕ) : Placement → Prop
  | .work i => i = (begun + k) % 512 ∧ begun + k < s.tickCount + 512
  | .assistant q =>
    begun / 512 + q = (begun + k) / 512 ∧ 0 < q ∧ s.remainder t = (begun + k) % 512

/-- The wheel has not moved on too far for a placement that was chosen for the Tick `begun + k`:
the Tick has not been made, or the assistant index stands for the turn of the Tick `begun` and the
bucket is not the one that is just about to be moved down. -/
def OnTime (s : Wheel τ) (begun k : ℕ) : Placement → Prop
  | .work _ => s.tickCount ≤ begun + k
  | .assistant q => s.turn = begun / 512 ∧ ¬(s.phase = .cascade ∧ q = 64)

theorem Wheel.pos_le_tickCount (s : Wheel τ) : s.pos ≤ s.tickCount := by
  unfold Wheel.pos
  split <;> omega

/-- What `AddTask` chooses when it read the work index at the Tick `begun`, wherever the index is
when it is read again. -/
theorem chosen_choose [DecidableEq τ] {d : ℕ} (hc : s.Clock) (hb : begun ≤ s.pos)
    (hd : delayTicks d < 2 ^ 63) :
    Chosen (s.choose t d (begun % 512)).1 t begun (delayTicks d)
      (s.choose t d (begun % 512)).2 := by
  have hindex : workWheelIndex (begun % 512) d = begun % 512 + delayTicks d :=
    uint64_eq_self (by omega)
  have hw := hc.workIndex_eq
  have hpos := s.pos_le_tickCount
  unfold Wheel.choose
  simp only [hindex, getWorkWheelIndex_eq_mod, workWheelSize]
  split_ifs with h₁ h₂
  · obtain ⟨hone, hlt⟩ := h₂
    refine ⟨by omega, ?_⟩
    simp only [Wheel.setRemainder]
    omega
  · refine ⟨by omega, by omega, ?_⟩
    simp only [Wheel.setRemainder, Function.update_self]
    omega
  · exact ⟨by omega, by simp only; omega⟩

/-- **A placement that is used on time is where the task is due.** -/
theorem due_of_onTime (hc : s.Clock) (hk : k ≤ 32768) {p : Placement} {id : ℕ}
    (hp : Chosen s t begun k p) (ho : OnTime s begun k p) :
    s.Due ⟨t, id⟩ (begun + k) (s.target p) := by
  cases p with
  | work i => exact ⟨hp.1, ho, hp.2⟩
  | assistant q =>
    obtain ⟨hturn, hq, hr⟩ := hp
    obtain ⟨hnow, hlast⟩ := ho
    have ha := hc.assistantIndex_eq
    refine ⟨?_, hr, ?_, ?_⟩
    · rw [getAssistantWheelIndex_eq_mod]
      omega
    · have h0 := hc.tickCount_pos
      unfold Wheel.turn at hnow
      unfold Wheel.cascaded
      cases hph : s.phase <;> simp only [hph] at hnow ⊢ <;> omega
    · have h0 := hc.tickCount_pos
      unfold Wheel.turn at hnow
      unfold Wheel.cascaded
      cases hph : s.phase <;> simp only [hph] at hnow ⊢
      · omega
      · omega
      · omega
      · have := h0 (by simp [hph])
        have := hc.tickCount_mod (.inr hph)
        have : q ≠ 64 := fun hq => hlast ⟨hph, hq⟩
        omega

/-! ### `AddTask` as one step -/

section Atomic

variable [DecidableEq τ]

/-- A step of the tick thread, a call of `AddTask`, or the end of the life of a task. -/
inductive Event (τ : Type*)
  | tickFunc
  | addTask (t : τ) (d : ℕ)
  | expire (t : τ)
deriving DecidableEq, Repr

/-- One event of the wheel. -/
def step (s : Wheel τ) : Event τ → Option (Wheel τ)
  | .tickFunc => some s.tickFunc
  | .addTask t d => some (s.addTask t d)
  | .expire t => some (s.expire t)

/-- The task `t` is neither dropped by its owner nor added again while the entry `x` waits. -/
def Undisturbed (x : Entry τ) (s : Wheel τ) (e : Event τ) : Prop :=
  s.Pending x → e ≠ .expire x.task ∧ ∀ d, e ≠ .addTask x.task d

theorem choose_cases (s : Wheel τ) (t : τ) (d captured : ℕ) :
    (s.choose t d captured).1 = s ∨
      ∃ r, (s.choose t d captured).1 = (Op.setRemainder t r).apply s := by
  unfold Wheel.choose
  simp only
  split_ifs
  · exact .inr ⟨_, rfl⟩
  · exact .inr ⟨_, rfl⟩
  · exact .inl rfl

section Choose

variable (s : Wheel τ) (t : τ) (d captured : ℕ)

theorem choose_eq : (s.choose t d captured).1 =
    { s with remainder := (s.choose t d captured).1.remainder } := by
  rcases choose_cases s t d captured with heq | ⟨r, heq⟩ <;> rw [heq]
  rfl

@[simp] theorem choose_tickCount : (s.choose t d captured).1.tickCount = s.tickCount := by
  rw [choose_eq]

@[simp] theorem choose_phase : (s.choose t d captured).1.phase = s.phase := by
  rw [choose_eq]

@[simp] theorem choose_expired : (s.choose t d captured).1.expired = s.expired := by
  rw [choose_eq]

@[simp] theorem choose_inserted : (s.choose t d captured).1.inserted = s.inserted := by
  rw [choose_eq]

@[simp] theorem choose_pos : (s.choose t d captured).1.pos = s.pos := by
  simp [Wheel.pos]

end Choose

theorem Wheel.WF.choose (h : s.WF) (t : τ) (d captured : ℕ) : (s.choose t d captured).1.WF := by
  rcases choose_cases s t d captured with heq | ⟨r, heq⟩ <;> rw [heq]
  · exact h
  · exact h.apply _

theorem wf_step {s' : Wheel τ} {e : Event τ} (h : s.WF) (hstep : step s e = some s') : s'.WF := by
  cases e with
  | tickFunc => exact some.inj hstep ▸ h.apply .tickFunc
  | expire t => exact some.inj hstep ▸ h.apply (.expire t)
  | addTask t d =>
    obtain rfl : s.addTask t d = s' := some.inj hstep
    exact (h.choose t d s.workIndex).apply (.push _ t)

theorem wf_of_exec {es : List (Event τ)} (h : exec step (Wheel.init τ) es = some s) : s.WF :=
  exec_invariant Wheel.WF (fun _ _ _ hs hstep => wf_step hs hstep) Wheel.wf_init h

theorem tracked_step {s' : Wheel τ} {x : Entry τ} {n : ℕ} {e : Event τ} (h : Tracked x n s)
    (he : Undisturbed x s e) (hstep : step s e = some s') : Tracked x n s' := by
  cases e with
  | tickFunc => exact some.inj hstep ▸ h.apply .tickFunc fun _ => id
  | expire t =>
    refine some.inj hstep ▸ h.apply (.expire t) fun hpend ht => ?_
    exact (he hpend).1 (by rw [ht])
  | addTask t d =>
    obtain rfl : s.addTask t d = s' := some.inj hstep
    have hchosen : Tracked x n (s.choose t d s.workIndex).1 := by
      rcases choose_cases s t d s.workIndex with heq | ⟨r, heq⟩ <;> rw [heq]
      · exact h
      · refine h.apply _ fun hpend ht => ?_
        exact (he hpend).2 d (by rw [ht])
    exact hchosen.apply (.push _ t) fun _ => id

/-- A task that is added after a Tick is put where it is due after its delay. -/
theorem tracked_addTask (h : s.WF) (hphase : s.phase = .advance) (hlive : s.expired t = false)
    {d : ℕ} (hpos : 0 < delayTicks d) (hle : delayTicks d ≤ 32768) :
    Tracked ⟨t, s.inserted⟩ (s.pos + delayTicks d) (s.addTask t d) := by
  have h0 := h.clock.tickCount_pos (by simp [hphase])
  have hchosen := chosen_choose (t := t) (d := d) h.clock le_rfl (by omega)
  rw [← h.clock.workIndex_eq] at hchosen
  have hs : s.pos = s.tickCount - 1 := by simp only [Wheel.pos, hphase]
  have hon : OnTime (s.choose t d s.workIndex).1 s.pos (delayTicks d)
      (s.choose t d s.workIndex).2 := by
    cases (s.choose t d s.workIndex).2 with
    | work i =>
      rw [OnTime, choose_tickCount, hs]
      omega
    | assistant q => simp [OnTime, Wheel.turn, hphase, hs]
  have hwf := h.choose t d s.workIndex
  have htracked := hwf.tracked_push (due_of_onTime hwf.clock hle hchosen hon)
    (by rwa [choose_expired])
  rwa [choose_inserted] at htracked

/-- **Exact firing.** From every reachable wheel between a Tick and the increment of the work index,
a task that is added with a duration `d` within `0 < d < TIMER_MAX_INTERVAL_MS` is dispatched once,
at the `k`-th following Tick for `k = ⌈d / TIMER_RESOLUTION_MS⌉`, in every continuation in which it
is neither dropped nor added again while it waits: `firings` is empty before that Tick and has this
Tick as its only element from then on. -/
theorem fires_at_delay (past : List (Event τ)) (h : exec step (Wheel.init τ) past = some s)
    (hphase : s.phase = .advance) (t : τ) (hlive : s.expired t = false) (d : ℕ) (hd₀ : 0 < d)
    (hd : d < timerMaxIntervalMs) (future : List (Event τ)) (s' : Wheel τ)
    (h' : exec step (s.addTask t d) future = some s')
    (hund : AllSteps step (Undisturbed ⟨t, s.inserted⟩) (s.addTask t d) future) :
    s'.firings ⟨t, s.inserted⟩ =
      if s.tickCount + d ⌈/⌉ timerResolutionMs ≤ s'.tickCount
      then [s.tickCount + d ⌈/⌉ timerResolutionMs] else [] := by
  have hmax : timerMaxIntervalMs = 65536 := rfl
  rw [← delayTicks_eq (by omega)]
  have hk : delayTicks d = (d + 1) / 2 := by
    rw [delayTicks, toDouble_eq_self (by omega)]
    rfl
  have hwf := wf_of_exec h
  have h0 := hwf.clock.tickCount_pos (by simp [hphase])
  have hstart := tracked_addTask hwf hphase hlive (by omega) (by omega : delayTicks d ≤ 32768)
  have hend := exec_invariant_of_allSteps (Tracked ⟨t, s.inserted⟩ (s.pos + delayTicks d))
    (fun _ _ _ hs he hstep => tracked_step hs he hstep) hstart hund h'
  have hs : s.pos = s.tickCount - 1 := by simp only [Wheel.pos, hphase]
  have hn : s.tickCount - 1 + delayTicks d + 1 = s.tickCount + delayTicks d := by omega
  rw [hend.firings_eq, hs, hn]

theorem fires_at_delay_of_odd_duration :
    ∃ s', exec step ((Wheel.init Unit).tickFunc.addTask () 3) (List.replicate 4 .tickFunc) =
      some s' ∧ s'.tickCount = 3 ∧ s'.firings ⟨(), 0⟩ = [3] := by
  obtain ⟨s', hs', hn⟩ : ∃ s', exec step ((Wheel.init Unit).tickFunc.addTask () 3)
      (List.replicate 4 .tickFunc) = some s' ∧ s'.tickCount = 3 := by decide +kernel
  have hfires := fires_at_delay [.tickFunc] rfl rfl () rfl 3 (by decide) (by decide) _ s' hs' <|
    allSteps_of_forall_mem (fun s e he _ => by
      rw [List.eq_of_mem_replicate he]
      exact ⟨by simp, by simp⟩) _
  rw [hn] at hfires
  exact ⟨s', hs', hn, hfires⟩

end Atomic

end Cyber.TimingWheel
