import Notebook.Interleaving.Threads

/-!
# Linearizable objects

A concurrent object is used by calls, each of which is some steps of its thread. It is as good as an
object whose operations happen at one moment if every run can be explained so: the *atomic object*
has the same calls and the same returns, in the same order, and between the call and the return of
an operation one step in which the operation takes effect.

A run is observed through its calls and returns (`Interleaving.trace`). An implementation is
linearizable if every step of a thread is, as far as the atomic object is concerned, a short run of
the same thread (`Interleaving.AtomicRun`): none, the call, or the effect and the return.
-/

open Function List

namespace Interleaving

/-! ### What is observed of a run -/

section Trace

variable {σ α O : Type*} {step : σ → α → Option σ} {obs : σ → α → σ → List O}

/-- The observations of the steps of a run, one after the other. -/
def trace (step : σ → α → Option σ) (obs : σ → α → σ → List O) : σ → List α → List O
  | _, [] => []
  | s, a :: as =>
    match step s a with
    | none => []
    | some s' => obs s a s' ++ trace step obs s' as

variable {s s' : σ}

theorem trace_cons {a : α} {as : List α} (h : step s a = some s') :
    trace step obs s (a :: as) = obs s a s' ++ trace step obs s' as := by
  simp only [trace, h]

theorem trace_append {as bs : List α} (h : exec step s as = some s') :
    trace step obs s (as ++ bs) = trace step obs s as ++ trace step obs s' bs := by
  induction as generalizing s with
  | nil =>
    obtain rfl := Option.some.inj h
    rfl
  | cons a as ih =>
    obtain ⟨s₁, h₁, h₂⟩ := exec_cons_eq_some.mp h
    rw [cons_append, trace_cons h₁, trace_cons h₁, ih h₂, append_assoc]

/-- **Simulation.** If every step from a state of the invariant `I` is, as `f` sees it, a run of
another system with the same observations, then so is every run. -/
theorem exec_simulation {τ β : Type*} {step' : τ → β → Option τ} {obs' : τ → β → τ → List O}
    (f : σ → τ) (I : σ → Prop)
    (hsim : ∀ s a s', I s → step s a = some s' → I s' ∧
      ∃ bs, exec step' (f s) bs = some (f s') ∧ trace step' obs' (f s) bs = obs s a s')
    {as : List α} (hs : I s) (h : exec step s as = some s') :
    ∃ bs, exec step' (f s) bs = some (f s') ∧
      trace step' obs' (f s) bs = trace step obs s as := by
  induction as generalizing s with
  | nil =>
    obtain rfl := Option.some.inj h
    exact ⟨[], rfl, rfl⟩
  | cons a as ih =>
    obtain ⟨s₁, h₁, h₂⟩ := exec_cons_eq_some.mp h
    obtain ⟨hs₁, bs, hbs, htrace⟩ := hsim s a s₁ hs h₁
    obtain ⟨cs, hcs, htrace'⟩ := ih hs₁ h₂
    refine ⟨bs ++ cs, exec_append_eq_some.mpr ⟨f s₁, hbs, hcs⟩, ?_⟩
    rw [trace_append hbs, trace_cons h₁, htrace, htrace']

end Trace

/-! ### Runs of one thread -/

section Threads

variable {M T L A E : Type*} [DecidableEq T] {prog : M → L → A → Option (M × L)}

/-- The observations of a step of a thread, with the thread. -/
def threadEvents (events : L → A → L → List E) (s : Threads M T L) (e : T × A)
    (s' : Threads M T L) : List (T × E) :=
  (events (s.pc e.1) e.2 (s'.pc e.1)).map (e.1, ·)

theorem trace_alone {events : L → A → L → List E} {s : Threads M T L} {t : T} {as : List A}
    {m : M} {l : L} (h : exec (fun r a => prog r.1 r.2 a) (s.mem, s.pc t) as = some (m, l)) :
    trace (Threads.step prog) (threadEvents events) s (as.map (t, ·)) =
      (trace (fun r a => prog r.1 r.2 a) (fun r a r' => events r.2 a r'.2) (s.mem, s.pc t) as).map
        (t, ·) := by
  induction as generalizing s with
  | nil => rfl
  | cons a as ih =>
    obtain ⟨⟨m₁, l₁⟩, h₁, h₂⟩ := exec_cons_eq_some.mp h
    have hstep : Threads.step prog s (t, a) = some ⟨m₁, update s.pc t l₁⟩ :=
      Threads.step_eq_some.mpr ⟨m₁, l₁, h₁, rfl⟩
    have hrest := ih (s := ⟨m₁, update s.pc t l₁⟩) (by simpa using h₂)
    simp only [update_self] at hrest
    rw [map_cons, trace_cons hstep, hrest, trace_cons h₁, map_append]
    simp only [threadEvents, update_self]

end Threads

/-! ### The atomic object -/

section Atomic

variable {σ T Op R : Type*}

/-- Where a thread is in its call of the atomic object. -/
inductive Status (Op R : Type*)
  | idle
  | called (op : Op)
  | done (result : R)
deriving DecidableEq, Repr

/-- What a thread of the atomic object does next. -/
inductive AtomicAct (Op : Type*)
  | call (op : Op)
  | effect
  | ret
deriving DecidableEq, Repr

/-- What is observed of an object. -/
inductive Event (Op R : Type*)
  | call (op : Op)
  | ret (result : R)
deriving DecidableEq, Repr

/-- The atomic object over the sequential object `apply`: a call, the effect of the operation, and
the return of its result. -/
def atomicProg (apply : σ → Op → σ × R) (f : σ) :
    Status Op R → AtomicAct Op → Option (σ × Status Op R)
  | .idle, .call op => some (f, .called op)
  | .called op, .effect => some ((apply f op).1, .done (apply f op).2)
  | .done _, .ret => some (f, .idle)
  | _, _ => none

/-- The calls and returns of the atomic object. -/
def atomicEvents : Status Op R → AtomicAct Op → Status Op R → List (Event Op R)
  | _, .call op, _ => [.call op]
  | .done result, .ret, _ => [.ret result]
  | _, _, _ => []

/-- The history of calls and returns is one of the atomic object that starts with `f₀` and ends with
`f`. -/
def Linearizable [DecidableEq T] (apply : σ → Op → σ × R) (f₀ : σ)
    (history : List (T × Event Op R)) (f : σ) : Prop :=
  ∃ (as : List (T × AtomicAct Op)) (z : Threads σ T (Status Op R)),
    exec (Threads.step (atomicProg apply)) ⟨f₀, fun _ => .idle⟩ as = some z ∧ z.mem = f ∧
      trace (Threads.step (atomicProg apply)) (threadEvents atomicEvents) ⟨f₀, fun _ => .idle⟩ as =
        history

/-- One thread takes the atomic object from `f` to `f'` and itself from `l` to `l'`, with the given
calls and returns. -/
def AtomicRun (apply : σ → Op → σ × R) (f : σ) (l : Status Op R) (events : List (Event Op R))
    (f' : σ) (l' : Status Op R) : Prop :=
  ∃ as, exec (fun r a => atomicProg apply r.1 r.2 a) (f, l) as = some (f', l') ∧
    trace (fun r a => atomicProg apply r.1 r.2 a) (fun r a r' => atomicEvents r.2 a r'.2) (f, l)
      as = events

namespace AtomicRun

variable {apply : σ → Op → σ × R} {f f' : σ} {l : Status Op R}

theorem silent : AtomicRun apply f l [] f l := ⟨[], rfl, rfl⟩

theorem call (op : Op) : AtomicRun apply f .idle [.call op] f (.called op) :=
  ⟨[.call op], rfl, rfl⟩

theorem effect_ret {op : Op} {result : R} (h : apply f op = (f', result)) :
    AtomicRun apply f (.called op) [.ret result] f' .idle :=
  ⟨[.effect, .ret], by simp [exec, atomicProg, h], by simp [trace, atomicProg, atomicEvents, h]⟩

end AtomicRun

/-- **Linearizable implementations.** Let every step of a thread program, from the states of an
invariant, be a run of the same thread of the atomic object, where `abs` and `status` say what the
memory and the local states stand for. Then the history of every run is linearizable, and the memory
at its end stands for the atomic object. -/
theorem linearizable_of_exec {M L A : Type*} [DecidableEq T] {prog : M → L → A → Option (M × L)}
    {events : L → A → L → List (Event Op R)} {apply : σ → Op → σ × R} (abs : M → σ)
    (status : L → Status Op R) (I : Threads M T L → Prop)
    (hstep : ∀ s e s', I s → Threads.step prog s e = some s' → I s')
    (hsim : ∀ (s : Threads M T L) t a m l, I s → prog s.mem (s.pc t) a = some (m, l) →
      AtomicRun apply (abs s.mem) (status (s.pc t)) (events (s.pc t) a l) (abs m) (status l))
    {s s' : Threads M T L} {es : List (T × A)} (hs : I s) (hidle : ∀ t, status (s.pc t) = .idle)
    (h : exec (Threads.step prog) s es = some s') :
    Linearizable apply (abs s.mem) (trace (Threads.step prog) (threadEvents events) s es)
      (abs s'.mem) := by
  let f (s : Threads M T L) : Threads σ T (Status Op R) := ⟨abs s.mem, status ∘ s.pc⟩
  have hrun : ∃ as, exec (Threads.step (atomicProg apply)) (f s) as = some (f s') ∧
      trace (Threads.step (atomicProg apply)) (threadEvents atomicEvents) (f s) as =
        trace (Threads.step prog) (threadEvents events) s es := exec_simulation f I ?_ hs h
  · obtain ⟨as, has, htrace⟩ := hrun
    have hinit : f s = ⟨abs s.mem, fun _ => .idle⟩ := congrArg (Threads.mk _) (funext hidle)
    rw [hinit] at has htrace
    exact ⟨as, f s', has, rfl, htrace⟩
  · rintro s ⟨t, a⟩ s' hI hst
    refine ⟨hstep s (t, a) s' hI hst, ?_⟩
    obtain ⟨m, l, hp, rfl⟩ := Threads.step_eq_some.mp hst
    obtain ⟨as, has, htrace⟩ := hsim s t a m l hI hp
    -- the atomic object runs the same thread alone
    refine ⟨as.map (t, ·), ?_, ?_⟩
    · have halone := Threads.exec_alone (s := f s) (t := t) has
      rwa [← comp_update] at halone
    · rw [trace_alone (s := f s) (t := t) has]
      simp only [f, comp_apply, htrace, threadEvents, update_self]

end Atomic

end Interleaving
