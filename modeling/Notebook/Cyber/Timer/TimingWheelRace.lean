import Notebook.Cyber.Timer.TimingWheelAdd

/-!
# `AddTask` and the tick thread

The accesses of `AddTask` interleaved with the steps of the tick thread and of other callers. A call
reads the work index, chooses a bucket and puts the task there, in three steps; the mutexes of the
assistant index and of the buckets do not keep the tick thread from moving on in between.

A caller that is held up between reading the work index and putting the task into its bucket can
miss the Tick that it aimed at, and the task then waits for a whole turn of the wheel.
-/

open Interleaving Function List Option

namespace Cyber.TimingWheel.Race

variable {τ U : Type*}

/-- Where a caller is in `AddTask`: it has read the work index, or it has chosen a bucket. `begun`
records the Tick that the work index stood for when it was read. -/
inductive Pc (τ : Type*)
  | idle
  | captured (t : τ) (d index begun : ℕ)
  | chosen (t : τ) (d : ℕ) (p : Placement) (begun : ℕ)
deriving DecidableEq, Repr

/-- The task that a caller is adding. -/
def Pc.task : Pc τ → Option τ
  | .idle => none
  | .captured t _ _ _ => some t
  | .chosen t _ _ _ => some t

/-- The wheel and the callers of `AddTask`. -/
structure State (τ U : Type*) where
  wheel : Wheel τ
  pc : U → Pc τ

/-- A wheel that was just started, with no caller. -/
def init (τ U : Type*) : State τ U := ⟨Wheel.init τ, fun _ => .idle⟩

/-- A step of the tick thread, the end of the life of a task, or a step of a caller: the call with
the read of the work index, the choice of a bucket, and the insertion. -/
inductive Event (τ U : Type*)
  | tickFunc
  | expire (t : τ)
  | call (u : U) (t : τ) (d : ℕ)
  | choose (u : U)
  | insert (u : U)
deriving DecidableEq, Repr

variable [DecidableEq τ] [DecidableEq U]

/-- One step of the tick thread or of a caller. -/
def step (s : State τ U) : Event τ U → Option (State τ U)
  | .tickFunc => some { s with wheel := s.wheel.tickFunc }
  | .expire t => some { s with wheel := s.wheel.expire t }
  | .call u t d =>
    match s.pc u with
    | .idle => some { s with
        pc := update s.pc u (.captured t d s.wheel.workIndex s.wheel.pos) }
    | _ => none
  | .choose u =>
    match s.pc u with
    | .captured t d index begun =>
      let r := s.wheel.choose t d index
      some ⟨r.1, update s.pc u (.chosen t d r.2 begun)⟩
    | _ => none
  | .insert u =>
    match s.pc u with
    | .chosen t _ p _ => some ⟨s.wheel.insert t p, update s.pc u .idle⟩
    | _ => none

/-- A task that waits in a bucket or is being added. -/
def State.Busy (s : State τ U) (t : τ) : Prop :=
  (∃ u, (s.pc u).task = some t) ∨ ∃ x : Entry τ, x.task = t ∧ s.wheel.Pending x

/-- The owner of the task `t` neither drops it nor adds it again while it waits or is being added.
(A `Timer` adds a task when it creates it and from its callback, after it was dispatched.) -/
def Sole (t : τ) (s : State τ U) : Event τ U → Prop
  | .expire t' => t' = t → ¬s.Busy t
  | .call _ t' _ => t' = t → ¬s.Busy t
  | _ => True

/-- The call of `u` reaches its bucket on time. -/
def State.OnTime (s : State τ U) (u : U) : Prop :=
  match s.pc u with
  | .chosen _ d p begun => TimingWheel.OnTime s.wheel begun (delayTicks d) p
  | _ => True

/-! ### What one step does -/

variable {s s' : State τ U} {e : Event τ U}

/-- What a step does to the wheel. Only the end of a task and the choice of a bucket for it
disturb a task. -/
theorem wheel_step (h : step s e = some s') :
    s'.wheel = s.wheel ∨ ∃ op : Op τ, s'.wheel = op.apply s.wheel ∧
      ∀ t, op.Disturbs t → e = .expire t ∨ ∃ u, e = .choose u ∧ (s.pc u).task = some t := by
  revert h
  fun_cases step s e <;> simp only [some.injEq, reduceCtorEq, IsEmpty.forall_iff] <;>
    rintro rfl
  case case1 => exact .inr ⟨.tickFunc, rfl, fun _ h => h.elim⟩
  case case2 t => exact .inr ⟨.expire t, rfl, fun _ h => .inl (by rw [← h])⟩
  case case3 => exact .inl rfl
  case case5 u t d index begun hpc r =>
    rcases choose_cases s.wheel t d index with heq | ⟨q, heq⟩
    · exact .inl heq
    · refine .inr ⟨_, heq, fun t' h => .inr ⟨u, rfl, ?_⟩⟩
      rw [hpc, Pc.task, show t = t' from h]
  case case7 u t d p begun hpc => exact .inr ⟨.push _ t, rfl, fun _ h => h.elim⟩

/-- What a step does to the tasks that the callers are adding: a call adds one, the choice of a
bucket keeps it, the insertion ends it. -/
theorem task_step (h : step s e = some s') {u : U} {t : τ} (ht : (s'.pc u).task = some t) :
    (s.pc u).task = some t ∨ ∃ d, e = .call u t d := by
  revert h
  fun_cases step s e <;> simp only [some.injEq, reduceCtorEq, IsEmpty.forall_iff] <;>
    rintro rfl
  case case1 | case2 => exact .inl ht
  case case3 v t' d hpc =>
    by_cases huv : u = v
    · subst huv
      simp only [update_self, Pc.task, some.injEq] at ht
      exact .inr ⟨d, by rw [ht]⟩
    · simp only [update_of_ne huv] at ht
      exact .inl ht
  case case5 v t' d index begun hpc r =>
    by_cases huv : u = v
    · subst huv
      simp only [update_self, Pc.task] at ht
      exact .inl (by rw [hpc, Pc.task, ht])
    · simp only [update_of_ne huv] at ht
      exact .inl ht
  case case7 v t' d p begun hpc =>
    by_cases huv : u = v
    · subst huv
      simp [Pc.task] at ht
    · simp only [update_of_ne huv] at ht
      exact .inl ht

theorem pc_step_of_ne (h : step s e = some s') {u : U} (hchoose : e ≠ .choose u)
    (hinsert : e ≠ .insert u) (hcall : ∀ t d, e ≠ .call u t d) : s'.pc u = s.pc u := by
  revert h
  fun_cases step s e <;> simp only [some.injEq, reduceCtorEq, IsEmpty.forall_iff] <;>
    rintro rfl
  case case1 | case2 => rfl
  case case3 v t d hpc => exact update_of_ne (fun huv => hcall t d (by rw [huv])) _ _
  case case5 v t d index begun hpc r =>
    exact update_of_ne (fun huv => hchoose (by rw [huv])) _ _
  case case7 v t d p begun hpc =>
    exact update_of_ne (fun huv => hinsert (by rw [huv])) _ _

/-! ### One call of `AddTask` -/

/-- The call of `u` that adds `t` is under way. It read the work index at the Tick `begun`, nobody
else is adding the task, and if it has chosen a bucket then the choice is right for that Tick. -/
structure UnderWay (u : U) (t : τ) (d begun : ℕ) (s : State τ U) : Prop where
  wf : s.wheel.WF
  live : s.wheel.expired t = false
  begun_le : begun ≤ s.wheel.pos
  others : ∀ v, v ≠ u → (s.pc v).task ≠ some t
  own : s.pc u = .captured t d (begun % 512) begun ∨
    ∃ p, s.pc u = .chosen t d p begun ∧ Chosen s.wheel t begun (delayTicks d) p

variable {u : U} {t : τ} {d begun : ℕ}

omit [DecidableEq U] in
theorem UnderWay.task_eq (h : UnderWay u t d begun s) : (s.pc u).task = some t := by
  rcases h.own with hpc | ⟨p, hpc, -⟩ <;> rw [hpc, Pc.task]

omit [DecidableEq U] in
private theorem UnderWay.of_wheel (h : UnderWay u t d begun s) {op : Op τ}
    (hop : ¬op.Disturbs t) (hw : s'.wheel = op.apply s.wheel) (hpc : s'.pc u = s.pc u)
    (hothers : ∀ v, v ≠ u → (s'.pc v).task ≠ some t) : UnderWay u t d begun s' := by
  refine ⟨?_, ?_, ?_, hothers, ?_⟩
  · rw [hw]
    exact h.wf.apply op
  · rw [hw, Wheel.expired_apply hop]
    exact h.live
  · rw [hw]
    exact h.begun_le.trans (h.wf.clock.pos_le_apply op)
  · rw [hw, hpc]
    refine h.own.imp_right fun ⟨p, hp, hchosen⟩ => ⟨p, hp, ?_⟩
    cases p with
    | work i => exact ⟨hchosen.1, hchosen.2.trans_le
        (Nat.add_le_add_right (s.wheel.tickCount_le_apply op) 512)⟩
    | assistant q => exact ⟨hchosen.1, hchosen.2.1, (Wheel.remainder_apply hop).trans hchosen.2.2⟩

/-- A call stays under way until it puts the task into its bucket. -/
theorem UnderWay.step (h : UnderWay u t d begun s) (hd : delayTicks d < 2 ^ 63)
    (he : e ≠ .insert u) (hsole : Sole t s e) (hstep : step s e = some s') :
    UnderWay u t d begun s' := by
  have hbusy : s.Busy t := .inl ⟨u, h.task_eq⟩
  have hothers : ∀ v, v ≠ u → (s'.pc v).task ≠ some t := by
    intro v hv hvt
    rcases task_step hstep hvt with hvt | ⟨d', rfl⟩
    · exact h.others v hv hvt
    · exact hsole rfl hbusy
  by_cases hchoose : e = .choose u
  · -- the caller itself chooses its bucket
    subst hchoose
    rcases h.own with hpc | ⟨p, hpc, -⟩
    · simp only [Race.step, hpc, some.injEq] at hstep
      subst hstep
      have hchosen := chosen_choose (t := t) h.wf.clock h.begun_le hd
      refine ⟨h.wf.choose t d _, ?_, ?_, hothers, .inr ⟨_, update_self .., hchosen⟩⟩
      · simpa only [choose_expired] using h.live
      · simpa only [choose_pos] using h.begun_le
    · simp [Race.step, hpc] at hstep
  · have hpc : s'.pc u = s.pc u := pc_step_of_ne hstep hchoose he fun t' d' hcall => by
      subst hcall
      rcases h.own with hpc | ⟨p, hpc, -⟩ <;> simp [Race.step, hpc] at hstep
    rcases wheel_step hstep with hw | ⟨op, hw, hop⟩
    · refine ⟨hw ▸ h.wf, hw ▸ h.live, hw ▸ h.begun_le, hothers, ?_⟩
      rw [hw, hpc]
      exact h.own
    · refine h.of_wheel (fun hdist => ?_) hw hpc hothers
      rcases hop t hdist with rfl | ⟨v, rfl, hv⟩
      · exact hsole rfl hbusy
      · exact h.others v (fun hvu => hchoose (by rw [hvu])) hv

/-- **The insertion of a call that is on time** puts the task where it is due. -/
theorem UnderWay.insert (h : UnderWay u t d begun s) (hd : delayTicks d ≤ 32768)
    (hon : s.OnTime u) (hstep : Race.step s (.insert u) = some s') :
    Tracked ⟨t, s.wheel.inserted⟩ (begun + delayTicks d) s'.wheel ∧
      ∀ v, (s'.pc v).task ≠ some t := by
  rcases h.own with hpc | ⟨p, hpc, hchosen⟩
  · simp [Race.step, hpc] at hstep
  · have hothers : ∀ v, (s'.pc v).task ≠ some t := by
      intro v hvt
      by_cases hv : v = u
      · subst hv
        simp only [Race.step, hpc, some.injEq] at hstep
        subst hstep
        simp [Pc.task] at hvt
      · rcases task_step hstep hvt with hvt | ⟨d', hcall⟩
        · exact h.others v hv hvt
        · exact absurd hcall (by simp)
    simp only [State.OnTime, hpc] at hon
    simp only [Race.step, hpc, some.injEq] at hstep
    subst hstep
    exact ⟨h.wf.tracked_push (due_of_onTime h.wf.clock hd hchosen hon) h.live, hothers⟩

theorem tracked_step {x : Entry τ} {n : ℕ} (h : Tracked x n s.wheel)
    (hfree : s.wheel.Pending x → ∀ v, (s.pc v).task ≠ some x.task) (hsole : Sole x.task s e)
    (hstep : step s e = some s') :
    Tracked x n s'.wheel ∧ (s'.wheel.Pending x → ∀ v, (s'.pc v).task ≠ some x.task) := by
  have hbusy : s.wheel.Pending x → s.Busy x.task := fun hp => .inr ⟨x, rfl, hp⟩
  have hdist : s.wheel.Pending x → ¬(e = .expire x.task ∨
      ∃ u, e = .choose u ∧ (s.pc u).task = some x.task) := by
    rintro hp (rfl | ⟨u, rfl, hu⟩)
    · exact hsole rfl (hbusy hp)
    · exact hfree hp u hu
  have hpcs : s.wheel.Pending x → ∀ v, (s'.pc v).task ≠ some x.task := by
    intro hp v hvt
    rcases task_step hstep hvt with hvt | ⟨d', rfl⟩
    · exact hfree hp v hvt
    · exact hsole rfl (hbusy hp)
  rcases wheel_step hstep with hw | ⟨op, hw, hop⟩
  · rw [hw]
    exact ⟨h, hpcs⟩
  · rw [hw]
    exact ⟨h.apply op fun hp hd => hdist hp (hop _ hd), fun hp => hpcs (h.pending_of_apply hp)⟩

/-! ### Runs -/

theorem wf_of_exec {es : List (Event τ U)} (h : exec step (init τ U) es = some s) :
    s.wheel.WF := by
  refine exec_invariant (fun s : State τ U => s.wheel.WF) ?_ Wheel.wf_init h
  intro s e s' hs hstep
  rcases wheel_step hstep with hw | ⟨op, hw, -⟩ <;> rw [hw]
  · exact hs
  · exact hs.apply op

theorem tickCount_le_of_exec {es : List (Event τ U)} (h : exec step s es = some s') :
    s.wheel.tickCount ≤ s'.wheel.tickCount := by
  refine exec_invariant (fun s' : State τ U => s.wheel.tickCount ≤ s'.wheel.tickCount) ?_ le_rfl h
  intro s₁ e s₂ hs hstep
  rcases wheel_step hstep with hw | ⟨op, hw, -⟩ <;> rw [hw]
  · exact hs
  · exact hs.trans (s₁.wheel.tickCount_le_apply op)

theorem underWay_call (hwf : s.wheel.WF) (hlive : s.wheel.expired t = false) (hfree : ¬s.Busy t)
    (h : step s (.call u t d) = some s') : UnderWay u t d s.wheel.pos s' := by
  have hothers : ∀ v, v ≠ u → (s'.pc v).task ≠ some t := by
    intro v hv hvt
    rcases task_step h hvt with hvt | ⟨d', hcall⟩
    · exact hfree (.inl ⟨v, hvt⟩)
    · simp only [Event.call.injEq] at hcall
      exact hv hcall.1.symm
  simp only [step] at h
  split at h
  · obtain rfl := some.inj h
    refine ⟨hwf, hlive, le_rfl, hothers, .inl ?_⟩
    rw [← hwf.clock.workIndex_eq]
    exact update_self ..
  · simp at h

/-- **Firing within a window.** From every reachable state, a call of `AddTask` for a live task
with a delay of `k` Ticks, `1 ≤ k ≤ 32768`, that reaches its bucket on time leads to one dispatch
of the task, at a Tick that is neither earlier than the `k`-th Tick after the call began to read
nor later than the `k + 1`-th Tick after the call returned. -/
theorem fires_in_window (past mid future : List (Event τ U)) (u : U) (t : τ) (d : ℕ)
    (s₀ s₁ s₂ s₃ s₄ : State τ U) (h₀ : exec step (init τ U) past = some s₀)
    (hlive : s₀.wheel.expired t = false) (hd₁ : 1 ≤ delayTicks d) (hd₂ : delayTicks d ≤ 32768)
    (h₁ : step s₀ (.call u t d) = some s₁) (h₂ : exec step s₁ mid = some s₂)
    (hmid : Event.insert u ∉ mid) (h₃ : step s₂ (.insert u) = some s₃)
    (h₄ : exec step s₃ future = some s₄)
    (hsole : AllSteps step (Sole t) s₀ (.call u t d :: (mid ++ .insert u :: future)))
    (hon : s₂.OnTime u) :
    ∃ n, s₀.wheel.tickCount + delayTicks d ≤ n ∧ n ≤ s₃.wheel.tickCount + delayTicks d + 1 ∧
      s₄.wheel.firings ⟨t, s₂.wheel.inserted⟩ = if n ≤ s₄.wheel.tickCount then [n] else [] := by
  obtain ⟨hcall, hsole⟩ := (allSteps_cons h₁).mp hsole
  obtain ⟨hsole₂, hsole⟩ := (allSteps_append h₂).mp hsole
  obtain ⟨-, hsole₄⟩ := (allSteps_cons h₃).mp hsole
  have hwf := wf_of_exec h₀
  have hunder : UnderWay u t d s₀.wheel.pos s₂ := by
    refine exec_invariant_of_allSteps (C := fun s e => Sole t s e ∧ e ≠ .insert u)
      (UnderWay u t d s₀.wheel.pos) (fun s e s' hs he hstep => ?_)
      (underWay_call hwf hlive (hcall rfl) h₁) (hsole₂.and_forall_mem fun e he => ?_) h₂
    · exact hs.step (by omega) he.2 he.1 hstep
    · exact fun heq => hmid (heq ▸ he)
  obtain ⟨htracked, hfree⟩ := hunder.insert hd₂ hon h₃
  obtain ⟨hend, -⟩ := exec_invariant_of_allSteps
    (fun s : State τ U => Tracked ⟨t, s₂.wheel.inserted⟩ (s₀.wheel.pos + delayTicks d) s.wheel ∧
      (s.wheel.Pending ⟨t, s₂.wheel.inserted⟩ → ∀ v, (s.pc v).task ≠ some t))
    (fun s e s' hs he hstep => tracked_step hs.1 hs.2 he hstep) ⟨htracked, fun _ => hfree⟩
    hsole₄ h₄
  have hle₁ : s₀.wheel.tickCount ≤ s₃.wheel.tickCount :=
    tickCount_le_of_exec (exec_cons_eq_some.mpr ⟨s₁, h₁, exec_append_eq_some.mpr
      ⟨s₂, h₂, exec_cons_eq_some.mpr ⟨s₃, h₃, exec_nil _⟩⟩⟩)
  have hpos := s₀.wheel.pos_le_tickCount
  have hpos' : s₀.wheel.tickCount ≤ s₀.wheel.pos + 1 := by
    unfold Wheel.pos
    split <;> omega
  exact ⟨s₀.wheel.pos + delayTicks d + 1, by omega, by omega, hend.firings_eq⟩

theorem fires_in_window_of_one_caller :
    ∃ s₀ s₁ s₂ s₃ s₄ : State Unit Unit,
      exec step (init Unit Unit) [.tickFunc] = some s₀ ∧ step s₀ (.call () () 2) = some s₁ ∧
      exec step s₁ [.choose ()] = some s₂ ∧ step s₂ (.insert ()) = some s₃ ∧
      exec step s₃ [.tickFunc, .tickFunc] = some s₄ ∧ s₄.wheel.tickCount = 2 ∧
      ∃ n, s₀.wheel.tickCount + delayTicks 2 ≤ n ∧ n ≤ s₃.wheel.tickCount + delayTicks 2 + 1 ∧
        s₄.wheel.firings ⟨(), s₂.wheel.inserted⟩ =
          if n ≤ s₄.wheel.tickCount then [n] else [] := by
  refine ⟨_, _, _, _, _, rfl, rfl, rfl, rfl, rfl, rfl, ?_⟩
  refine fires_in_window [.tickFunc] [.choose ()] [.tickFunc, .tickFunc] () () 2 _ _ _ _ _ rfl rfl
    (by decide) (by decide) rfl rfl (by simp) rfl rfl ?_ (le_refl 1)
  refine (allSteps_cons rfl).mpr ⟨fun _ hbusy => ?_, allSteps_of_forall_mem (fun s e he => ?_) _⟩
  · rcases hbusy with ⟨u, hu⟩ | ⟨x, -, b, hb⟩
    · exact absurd hu (by simp [init, Pc.task])
    · refine absurd hb ?_
      by_cases hw : b = .work 0 <;> simp [init, Wheel.tickFunc, Wheel.init, Wheel.tick, hw]
  · simp only [cons_append, nil_append, mem_cons, not_mem_nil, or_false] at he
    rcases he with rfl | rfl | rfl | rfl <;> trivial

/-- **A call that is held up.** A task with a delay of one Tick is added after the first Tick; the
second Tick is made after `AddTask` has read the work index and before it puts the task into its
bucket. The task is dispatched at Tick `514`, a whole turn of the wheel after its window. -/
theorem late_after_window :
    ∃ s : State Unit Unit, exec step (init Unit Unit)
        [.tickFunc, .call () () 2, .tickFunc, .tickFunc, .choose (), .insert ()] = some s ∧
      delayTicks 2 = 1 ∧ s.wheel.tickCount = 2 ∧
      ∀ m s', exec step s (List.replicate m .tickFunc) = some s' →
        s'.wheel.firings ⟨(), 0⟩ = if 514 ≤ s'.wheel.tickCount then [514] else [] := by
  obtain ⟨s, hs, hpc, hcount, hid, hlive⟩ : ∃ s : State Unit Unit, exec step (init Unit Unit)
      [.tickFunc, .call () () 2, .tickFunc, .tickFunc, .choose ()] = some s ∧
      s.pc () = .chosen () 2 (.work 1) 0 ∧ s.wheel.tickCount = 2 ∧ s.wheel.inserted = 0 ∧
      s.wheel.expired () = false := by decide +kernel
  have hstep : step s (.insert ()) = some ⟨s.wheel.insert () (.work 1),
      update s.pc () .idle⟩ := by simp only [step, hpc]
  refine ⟨_, exec_concat_eq_some.mpr ⟨s, hs, hstep⟩, by decide, hcount, fun m s' hs' => ?_⟩
  have hdue : s.wheel.Due ⟨(), s.wheel.inserted⟩ 513 (.work 1) := ⟨rfl, by omega, by omega⟩
  have htracked := (wf_of_exec hs).tracked_push hdue hlive
  rw [hid] at htracked
  refine (exec_invariant_of_allSteps (C := fun _ e => e = .tickFunc)
    (fun s : State Unit Unit => Tracked ⟨(), 0⟩ 513 s.wheel) (fun s e s' hs he hstep => ?_) htracked
    (allSteps_of_forall_mem (fun _ e he => eq_of_mem_replicate he) _) hs').firings_eq
  subst he
  exact some.inj hstep ▸ hs.apply .tickFunc fun _ => id

end Cyber.TimingWheel.Race
