import Notebook.Cyber.Croutine.CRoutine
import Notebook.Cyber.Data.AllLatest
import Notebook.Interleaving.Wakeup

/-!
# Croutines that are driven by messages

`CreateRoutineFactory` (`croutine/routine_factory.h`) makes a croutine over a data visitor. Its
loop sets the state to `DATA_WAIT`, calls `TryFetch`, and either calls the user function with what
it has fetched and yields as `READY`, or yields in `DATA_WAIT`. `DataDispatcher::Dispatch`
(`data/data_dispatcher.h`) fills a message into the buffer of the visitor and then calls the
callback of its notifier, if it has one; the callback is `NotifyProcessor` for the croutine.

`Scheduler::CreateTask` (`scheduler/scheduler.cc`) hands the croutine to the processors in
`DispatchTask` and registers the callback afterwards. In between, the croutine may look for a
message in vain and suspend, and the message of a `Dispatch` that finds no callback is not
announced to it.

Any number of threads dispatch messages. The user function may yield its processor in a state other
than `DATA_WAIT`, as `Sleep` does. The scheduler is not stopped.

## Main definitions

* `Visitor` — a data visitor, by what a `Fill` and a `TryFetch` do to it.
* `step` — the steps of the croutine, of the dispatchers and of `CreateTask`.
* `Stranded` — there is something to fetch, and nobody will wake the croutine.
* `Announced` — no `Dispatch` without a callback leaves the croutine waiting with a message.

## Main results

* `no_stranded_message`, `no_stranded_at_start` — no announced run strands a message.
* `delivered_in_order` — what the user function is called with.
-/

open Interleaving Function List Option

namespace Cyber

/-- A data visitor: the effect of a `Fill` of one of its buffers, whether the notifier of the
visitor is attached to the channel, and `TryFetch`. -/
structure Visitor (S M E : Type*) where
  fill : S → E → S
  notifies : E → Bool
  tryFetch : S → Option (M × S)
  tryFetch_fill : ∀ s e, notifies e = false → tryFetch s = none → tryFetch (fill s e) = none

/-- `DataVisitor` with one channel. -/
def DataVisitor.visitor (M : Type*) : Visitor (DataVisitor M) M M where
  fill v value := { v with buffer := v.buffer.fill value }
  notifies _ := true
  tryFetch v := v.tryFetch.map Prod.snd
  tryFetch_fill _ _ h := absurd h (Bool.false_ne_true ·.symm)

/-- `DataVisitor` with several channels, which reads the fused messages. Its notifier is attached to
the primary channel. -/
def AllLatest.visitor {ι : Type*} [Fintype ι] [DecidableEq ι] (M₀ : Type*) (M : ι → Type*) :
    Visitor (AllLatest M₀ M) (M₀ × ∀ i, M i) (M₀ ⊕ (i : ι) × M i) where
  fill s e := s.step (e.elim .fill fun x => .fillOther x.1 x.2)
  notifies e := e.isLeft
  tryFetch s := s.reading.visitor.tryFetch.map fun x => (x.2.1, s.step .tryFetch)
  tryFetch_fill s e he hs := by
    cases e with
    | inl value => simp at he
    | inr x =>
      rw [map_eq_none_iff] at hs ⊢
      exact hs

namespace RoutineFactory

open CRoutine (NotifyPc)

/-- Where the function of the croutine is: at the head of the loop, before `TryFetch`, after an
unsuccessful `TryFetch`, or in the user function. -/
inductive Pc
  | loop
  | fetch
  | failed
  | user
deriving DecidableEq, Repr

/-- Where a thread that dispatches messages is: outside, in `Dispatch` after its `Fill`, or in the
callback. -/
inductive DispatchPc
  | outside
  | filled
  | notify (pc : NotifyPc)
deriving DecidableEq, Repr

/-- Where a `Dispatch` is after an operation of `NotifyProcessor`. -/
def DispatchPc.advance : Option NotifyPc → DispatchPc
  | some pc => .notify pc
  | none => .outside

/-- The visitor, the croutine and the dispatchers. `delivered` lists what the user function was
called with; `dispatched` says that `DispatchTask` has returned, and `registered` that the notifier
has its callback, after which `CreateTask` returns. -/
structure State (S M D : Type*) where
  visitor : S
  routine : CRoutine
  pc : Pc
  delivered : List M
  dispatcher : D → DispatchPc
  dispatched : Bool
  registered : Bool

/-- A step of `Dispatch`, of the function of the croutine, of a processor that has to do with the
croutine, or of `CreateTask`. -/
inductive Event (E D : Type*)
  | dispatch (d : D) (e : E)
  | callback (d : D)
  | notify (d : D)
  | setDataWait
  | tryFetch
  | yield
  | yieldUser (state : RoutineState)
  | finishUser
  | acquire (elapsed : Bool)
  | update
  | dispatchTask
  | registerNotifyCallback
deriving DecidableEq, Repr

variable {S M E D : Type*} [DecidableEq D]

/-- The thread `d` goes to `pc`. -/
def State.setDispatcher (s : State S M D) (d : D) (pc : DispatchPc) : State S M D :=
  { s with dispatcher := update s.dispatcher d pc }

/-- The effect of a step. The function of the croutine moves only while a processor runs it. -/
def step (V : Visitor S M E) (s : State S M D) : Event E D → Option (State S M D)
  | .dispatch d e =>
    if s.dispatcher d = .outside then
      some ({ s with visitor := V.fill s.visitor e }.setDispatcher d
        (if V.notifies e then .filled else .outside))
    else none
  | .callback d =>
    if s.dispatcher d = .filled then
      some (s.setDispatcher d (if s.registered then .notify .testData else .outside))
    else none
  | .notify d =>
    match s.dispatcher d with
    | .notify pc =>
      let r := s.routine.notifyProcessor pc
      some ({ s with routine := r.1 }.setDispatcher d (.advance r.2))
    | _ => none
  | .setDataWait =>
    if s.pc = .loop ∧ s.routine.phase = .running then
      some { s with routine := s.routine.setState .dataWait, pc := .fetch }
    else none
  | .tryFetch =>
    if s.pc = .fetch ∧ s.routine.phase = .running then
      match V.tryFetch s.visitor with
      | some (m, visitor) => some { s with visitor, pc := .user, delivered := s.delivered ++ [m] }
      | none => some { s with pc := .failed }
    else none
  | .yield =>
    if s.pc = .failed ∧ s.routine.phase = .running then
      some { s with routine := s.routine.swapContext, pc := .loop }
    else none
  | .yieldUser state =>
    if s.pc = .user ∧ s.routine.phase = .running ∧ state ≠ .dataWait then
      some { s with routine := (s.routine.setState state).swapContext }
    else none
  | .finishUser =>
    if s.pc = .user ∧ s.routine.phase = .running then
      some { s with routine := (s.routine.setState .ready).swapContext, pc := .loop }
    else none
  | .acquire elapsed =>
    if s.dispatched then
      (s.routine.acquire elapsed).map fun routine => { s with routine }
    else none
  | .update => s.routine.update.map fun routine => { s with routine }
  | .dispatchTask => if s.dispatched then none else some { s with dispatched := true }
  | .registerNotifyCallback =>
    if s.dispatched ∧ s.registered = false then some { s with registered := true } else none

/-- A new croutine over a visitor, which `CreateTask` has taken up or not. -/
def init (M D : Type*) (visitor : S) (created : Bool) : State S M D :=
  ⟨visitor, .new, .loop, [], fun _ => .outside, created, created⟩

/-- The visitor has something to fetch. -/
def Unfetched (V : Visitor S M E) (s : State S M D) : Prop := (V.tryFetch s.visitor).isSome = true
deriving Decidable

/-- There is something to fetch, the croutine is suspended in `DATA_WAIT`, no update flag is
pending, and no `Dispatch` is between its `Fill` and the end of its callback. -/
def Stranded (V : Visitor S M E) (s : State S M D) : Prop :=
  Unfetched V s ∧
    (s.routine.state = .dataWait ∧ s.routine.phase = .free ∧ s.routine.updated = true) ∧
    ∀ d, s.dispatcher d = .outside

/-- The croutine has looked for a message in vain: it is about to yield, or suspended. -/
def Waiting (s : State S M D) : Prop :=
  s.routine.state = .dataWait ∧ (s.pc = .failed ∨ s.routine.phase ≠ .running)
deriving Decidable

/-- A `Dispatch` that finds no callback does not leave the croutine waiting with a message to
fetch. -/
def Announced (V : Visitor S M E) (s : State S M D) : Event E D → Prop
  | .callback _ => s.registered = false → ¬(Unfetched V s ∧ Waiting s)
  | _ => True

instance [Fintype D] (V : Visitor S M E) (s : State S M D) : Decidable (Stranded V s) :=
  inferInstanceAs (Decidable (_ ∧ _))

instance (V : Visitor S M E) (s : State S M D) (e : Event E D) : Decidable (Announced V s e) := by
  unfold Announced
  split <;> infer_instance

/-! ### The croutine is covered -/

/-- The `Dispatch` is still to announce its message. -/
def DispatchPc.Owes : DispatchPc → Prop
  | .outside => False
  | .filled => True
  | .notify pc => pc.Owes

/-- While there is something to fetch, a croutine that has looked in vain is woken, or a `Dispatch`
is still to announce its message. -/
def Inv (V : Visitor S M E) (s : State S M D) : Prop :=
  Covered (Unfetched V s) (fun _ : Unit => Waiting s) (fun _ => s.routine.Woken)
    fun d _ => (s.dispatcher d).Owes

variable {V : Visitor S M E} {s s' : State S M D}

omit [DecidableEq D] in
theorem Inv.not_stranded (hinv : Inv V s) : ¬Stranded V s := by
  rintro ⟨hunfetched, ⟨hstate, hphase, hupdated⟩, hnone⟩
  refine Covered.false_of_forgotten hinv hunfetched (w := ()) ⟨hstate, .inr ?_⟩ ?_ fun d howes => ?_
  · simp [hphase]
  · rintro (hfalse | hupdating)
    · simp [hupdated] at hfalse
    · simp [hphase] at hupdating
  · rw [hnone d] at howes
    exact howes

theorem owes_setDispatcher {d d' : D} {pc : DispatchPc}
    (hd : (s.dispatcher d').Owes) (hpc : d' = d → pc.Owes) :
    (update s.dispatcher d pc d').Owes := by
  by_cases heq : d' = d
  · subst heq
    rw [update_self]
    exact hpc rfl
  · rwa [update_of_ne heq]

theorem Inv.dispatch (hinv : Inv V s) {d : D} (hd : s.dispatcher d = .outside) (e : E) :
    Inv V ({ s with visitor := V.fill s.visitor e }.setDispatcher d
      (if V.notifies e then .filled else .outside)) := by
  cases he : V.notifies e with
  | true =>
    refine Covered.of_owes d fun _ => ?_
    simp [State.setDispatcher, DispatchPc.Owes]
  | false =>
    -- the message of another channel gives nothing to fetch
    refine Covered.step hinv (fun hunfetched => ?_) fun _ _ hw => ⟨hw, id, fun d' hd' => .inl ?_⟩
    · by_contra hnone
      have hfill := V.tryFetch_fill s.visitor e he (not_isSome_iff_eq_none.mp hnone)
      simp [Unfetched, State.setDispatcher, hfill] at hunfetched
    · refine owes_setDispatcher hd' fun heq => ?_
      rw [heq, hd] at hd'
      exact hd'.elim

theorem Inv.callback (hinv : Inv V s) (d : D)
    (hannounced : s.registered = false → ¬(Unfetched V s ∧ Waiting s)) :
    Inv V (s.setDispatcher d (if s.registered then .notify .testData else .outside)) := by
  refine Covered.step hinv id fun hunfetched _ hw => ⟨hw, id, fun d' hd' => .inl ?_⟩
  refine owes_setDispatcher hd' fun _ => ?_
  cases hregistered : s.registered with
  | true => trivial
  | false => exact absurd ⟨hunfetched, hw⟩ (hannounced hregistered)

theorem Inv.notify (hinv : Inv V s) {d : D} {pc : NotifyPc} (hd : s.dispatcher d = .notify pc) :
    Inv V ({ s with routine := (s.routine.notifyProcessor pc).1 }.setDispatcher d
      (.advance (s.routine.notifyProcessor pc).2)) := by
  obtain ⟨hstate, hphase, hwoken, howes⟩ := @CRoutine.notifyProcessor_spec s.routine pc
  refine Covered.step hinv id fun _ _ hw => ?_
  obtain ⟨hwait, hplace⟩ := hw
  simp only [State.setDispatcher] at hwait hplace
  rw [hstate] at hwait
  rw [hphase] at hplace
  refine ⟨⟨hwait, hplace⟩, hwoken, fun d' hd' => ?_⟩
  by_cases heq : d' = d
  · subst heq
    rw [hd] at hd'
    rcases howes (fun _ => hwait) hd' with ⟨pc', hpc', howes'⟩ | hwoke
    · rw [hpc']
      refine .inl ?_
      simpa only [State.setDispatcher, update_self, DispatchPc.advance,
        DispatchPc.Owes] using howes'
    · exact .inr hwoke
  · refine .inl ?_
    simpa only [State.setDispatcher, update_of_ne heq] using hd'

omit [DecidableEq D] in
/-- A step after which the croutine has not looked in vain, unless it had before and keeps its
wake-up. -/
theorem Inv.routine (hinv : Inv V s) (hdispatcher : s'.dispatcher = s.dispatcher)
    (hvisitor : s'.visitor = s.visitor)
    (hwaiting : Waiting s' → Waiting s ∧ (s.routine.Woken → s'.routine.Woken)) : Inv V s' := by
  refine Covered.step hinv (fun hunfetched => ?_) fun _ _ hw => ?_
  · rwa [Unfetched, ← hvisitor]
  · exact ⟨(hwaiting hw).1, (hwaiting hw).2, fun d hd => .inl (hdispatcher ▸ hd)⟩

omit [DecidableEq D] in
theorem not_waiting (hpc : s.pc ≠ .failed) (hphase : s.routine.phase = .running) : ¬Waiting s :=
  fun hw => hw.2.elim hpc fun hne => hne hphase

/-- An announced step keeps a wake-up for a croutine that has looked in vain. -/
theorem Inv.step (hinv : Inv V s) {e : Event E D} (hannounced : Announced V s e)
    (h : step V s e = some s') : Inv V s' := by
  cases e with
  | dispatch d e =>
    obtain ⟨hd, ⟨⟩⟩ := ite_none_right_eq_some.mp h
    exact hinv.dispatch hd e
  | callback d =>
    obtain ⟨-, ⟨⟩⟩ := ite_none_right_eq_some.mp h
    exact hinv.callback d hannounced
  | notify d =>
    simp only [RoutineFactory.step] at h
    split at h
    next pc hd =>
      obtain rfl := some.inj h
      exact hinv.notify hd
    next => exact absurd h (some_ne_none _).symm
  | setDataWait =>
    obtain ⟨hpc, ⟨⟩⟩ := ite_none_right_eq_some.mp h
    exact hinv.routine rfl rfl fun hw => absurd hw (not_waiting (by simp) hpc.2)
  | tryFetch =>
    obtain ⟨hpc, h⟩ := ite_none_right_eq_some.mp h
    cases hfetch : V.tryFetch s.visitor with
    | none =>
      rw [hfetch] at h
      obtain rfl := some.inj h
      exact Covered.of_not (by simp [Unfetched, hfetch])
    | some x =>
      rw [hfetch] at h
      obtain rfl := some.inj h
      exact Covered.of_forall_not fun _ => not_waiting (by simp) hpc.2
  | yield =>
    obtain ⟨hpc, ⟨⟩⟩ := ite_none_right_eq_some.mp h
    refine hinv.routine rfl rfl fun hw => ⟨⟨hw.1, .inl hpc.1⟩, fun hwoken => ?_⟩
    rcases hwoken with hupdated | hupdating
    · exact .inl hupdated
    · simp [hpc.2] at hupdating
  | yieldUser state =>
    obtain ⟨hpc, ⟨⟩⟩ := ite_none_right_eq_some.mp h
    exact hinv.routine rfl rfl fun hw => absurd hw.1 hpc.2.2
  | finishUser =>
    obtain ⟨hpc, ⟨⟩⟩ := ite_none_right_eq_some.mp h
    refine hinv.routine rfl rfl fun hw => ?_
    simp [Waiting, CRoutine.swapContext, CRoutine.setState] at hw
  | acquire elapsed =>
    obtain ⟨-, h⟩ := ite_none_right_eq_some.mp h
    obtain ⟨routine, hroutine, rfl⟩ := map_eq_some_iff.mp h
    obtain ⟨hphase, hspec⟩ := CRoutine.acquire_spec hroutine
    refine hinv.routine rfl rfl fun hw => ?_
    obtain ⟨hstate, hwoken⟩ := hspec hw.1
    exact ⟨⟨hstate, .inr (by simp [hphase])⟩, hwoken⟩
  | update =>
    obtain ⟨routine, hroutine, rfl⟩ := map_eq_some_iff.mp h
    exact hinv.routine rfl rfl fun hw => absurd hw.1 (CRoutine.update_spec hroutine).2
  | dispatchTask =>
    obtain ⟨-, ⟨⟩⟩ := ite_none_left_eq_some.mp h
    exact hinv
  | registerNotifyCallback =>
    obtain ⟨-, ⟨⟩⟩ := ite_none_right_eq_some.mp h
    exact hinv

omit [DecidableEq D] in
theorem inv_init {visitor : S} {created : Bool} : Inv V (init M D visitor created) :=
  Covered.of_forall_not fun _ hw => by simp [Waiting, init, CRoutine.new] at hw

theorem registered_step {e : Event E D} (hs : s.registered = true) (h : step V s e = some s') :
    s'.registered = true := by
  revert h
  fun_cases RoutineFactory.step V s e <;> simp only [map_eq_some_iff, some.injEq,
    reduceCtorEq, IsEmpty.forall_iff]
  all_goals first
    | exact fun h => h ▸ hs
    | exact fun h => h ▸ rfl
    | exact fun ⟨_, _, h⟩ => h ▸ hs

/-- **No stranded message.** For a croutine over a visitor whose callback is registered, no run
leads to a state with something to fetch while the croutine is suspended in `DATA_WAIT`, no update
flag is pending and no `Dispatch` is between its `Fill` and the end of its callback. -/
theorem no_stranded_message {S M E D : Type*} [DecidableEq D] (V : Visitor S M E) (visitor : S)
    (es : List (Event E D)) (s : State S M D)
    (h : exec (step V) (init M D visitor true) es = some s) : ¬Stranded V s := by
  suffices hinv : s.registered = true ∧ Inv V s from hinv.2.not_stranded
  refine exec_invariant (fun s => s.registered = true ∧ Inv V s) ?_ ⟨rfl, inv_init⟩ h
  rintro s e s' ⟨hregistered, hinv⟩ hstep
  refine ⟨registered_step hregistered hstep, hinv.step ?_ hstep⟩
  cases e with
  | callback d => exact fun hfalse => absurd (hregistered.symm.trans hfalse) (by simp)
  | _ => trivial

/-- The croutine runs, finds no message and suspends. -/
def findNone : List (Event ℕ Unit) := [.acquire false, .setDataWait, .tryFetch, .yield]

/-- A message is dispatched to a croutine with a callback. -/
def announce : List (Event ℕ Unit) := [.dispatch () 7, .callback (), .notify (), .notify ()]

theorem no_stranded_message_of_suspended :
    ∃ s, exec (step (DataVisitor.visitor ℕ)) (init ℕ Unit ⟨.new 1, 0⟩ true)
        (findNone ++ announce) = some s ∧
      Unfetched (DataVisitor.visitor ℕ) s ∧ ¬Stranded (DataVisitor.visitor ℕ) s :=
  exists_exec_mono (by decide +kernel) fun s hs hunfetched =>
    ⟨hunfetched, no_stranded_message _ _ _ s hs⟩

-- two channels: the message of the other channel wakes nobody, that of the primary channel does
example :
    (exec (step (AllLatest.visitor ℕ fun _ : Fin 1 => ℕ))
      (init (ℕ × (Fin 1 → ℕ)) Unit (.new 1 fun _ => 1) true)
      [.acquire false, .setDataWait, .tryFetch, .yield, .dispatch () (.inr ⟨0, 5⟩),
        .dispatch () (.inl 7), .callback (), .notify (), .notify (), .acquire false, .update,
        .setDataWait, .tryFetch]).map (fun s => s.delivered.map fun m => (m.1, m.2 0)) =
      some [(7, 5)] := by
  decide +kernel

/-- **No stranded message at the start.** While `CreateTask` hands the croutine to the processors
and registers the callback, let no `Dispatch` that finds no callback leave the croutine waiting
with something to fetch. Then, once `CreateTask` has returned and all `Dispatch` calls have
finished, the croutine is not suspended in `DATA_WAIT` without a pending update flag while there is
something to fetch. -/
theorem no_stranded_at_start {S M E D : Type*} [DecidableEq D] (V : Visitor S M E) (visitor : S)
    (es : List (Event E D)) (s : State S M D)
    (h : exec (step V) (init M D visitor false) es = some s)
    (hannounced : AllSteps (step V) (Announced V) (init M D visitor false) es) :
    ¬(s.registered = true ∧ Stranded V s) := by
  rintro ⟨-, hstranded⟩
  exact (exec_invariant_of_allSteps (Inv V)
    (fun _ _ _ hinv hannounced hstep => hinv.step hannounced hstep) inv_init hannounced
    h).not_stranded hstranded

/-- A message that finds no callback is there when the croutine first looks; the next one is
announced. -/
theorem no_stranded_at_start_of_early :
    ∃ s, exec (step (DataVisitor.visitor ℕ)) (init ℕ Unit ⟨.new 1, 0⟩ false)
        ([.dispatchTask, .dispatch () 7, .callback (), .registerNotifyCallback, .acquire false,
          .setDataWait, .tryFetch, .finishUser] ++ findNone ++ announce) = some s ∧
      Unfetched (DataVisitor.visitor ℕ) s ∧
      ¬(s.registered = true ∧ Stranded (DataVisitor.visitor ℕ) s) :=
  exists_exec_mono (by decide +kernel) fun s hs hunfetched =>
    ⟨hunfetched, no_stranded_at_start _ _ _ s hs (by decide +kernel)⟩

/-- **A message that is stranded at the start.** The croutine finds no message and suspends; a
message is dispatched and finds no callback; then `CreateTask` registers the callback and returns.
-/
theorem stranded_at_start :
    ∃ s, exec (step (DataVisitor.visitor ℕ)) (init ℕ Unit ⟨.new 1, 0⟩ false)
        (.dispatchTask :: findNone ++
          [.dispatch () 7, .callback (), .registerNotifyCallback]) = some s ∧
      s.registered = true ∧ Stranded (DataVisitor.visitor ℕ) s := by
  decide +kernel

/-! ### What the user function is called with -/

section Reading

variable {M D : Type*} [DecidableEq D]

/-- What a step of a croutine over one channel is to its visitor. -/
def readOf : Event M D → Option (Reading.Event M)
  | .dispatch _ value => some (.fill value)
  | .tryFetch => some .tryFetch
  | _ => none

/-- The messages of the `Dispatch` calls. -/
def messages (es : List (Event M D)) : List M := Reading.fills (es.filterMap readOf)

/-- The croutine has the visitor of the reading, and its user function was called with what was
read. -/
structure Reads (r : Reading M) (s : State (DataVisitor M) M D) : Prop where
  visitor_eq : s.visitor = r.visitor
  delivered_eq : s.delivered = r.returned.map Prod.snd

variable {s s' : State (DataVisitor M) M D} {r : Reading M} {e : Event M D}

theorem Reads.of_readOf_eq_none (hr : Reads r s) (he : readOf e = none)
    (h : step (DataVisitor.visitor M) s e = some s') : Reads r s' := by
  obtain ⟨hvisitor, hdelivered⟩ := hr
  revert h
  fun_cases RoutineFactory.step (DataVisitor.visitor M) s e <;>
    simp only [map_eq_some_iff, some.injEq, reduceCtorEq, IsEmpty.forall_iff]
  all_goals first
    | cases he; done
    | exact fun h => h ▸ ⟨hvisitor, hdelivered⟩
    | exact fun ⟨_, _, h⟩ => h ▸ ⟨hvisitor, hdelivered⟩

/-- **One step** of the croutine is a call of the reading, or none. -/
theorem Reads.step (hr : Reads r s) (h : step (DataVisitor.visitor M) s e = some s') :
    Reads (r.run (readOf e).toList) s' := by
  -- the reading is taken apart so that the conversion does not compare the two buffers
  obtain ⟨v, filled, returned⟩ := r
  obtain ⟨hvisitor, hdelivered⟩ := hr
  simp only at hvisitor hdelivered
  cases e with
  | dispatch d value =>
    obtain ⟨-, h⟩ := ite_none_right_eq_some.mp h
    obtain rfl := some.inj h
    change Reads ⟨⟨v.buffer.fill value, v.nextMsgIndex⟩, filled ++ [value], returned⟩ _
    constructor
    · simp only [State.setDispatcher, DataVisitor.visitor, hvisitor]
    · simp only [State.setDispatcher, hdelivered]
  | tryFetch =>
    obtain ⟨-, h⟩ := ite_none_right_eq_some.mp h
    simp only [DataVisitor.visitor, hvisitor] at h
    change Reads (Reading.tryFetch ⟨v, filled, returned⟩) _
    rw [Reading.tryFetch]
    cases hfetch : v.tryFetch with
    | none =>
      simp only [hfetch, map_none] at h
      obtain ⟨⟩ := h
      exact ⟨rfl, hdelivered⟩
    | some x =>
      simp only [hfetch, map_some] at h
      obtain ⟨⟩ := h
      refine ⟨rfl, ?_⟩
      simp [hdelivered]
  | _ => exact Reads.of_readOf_eq_none ⟨hvisitor, hdelivered⟩ rfl h

theorem reads_of_exec {v : DataVisitor M} {created : Bool} {es : List (Event M D)}
    (h : exec (step (DataVisitor.visitor M)) (init M D v created) es = some s) :
    Reads ((Reading.mk v [] []).run (es.filterMap readOf)) s := by
  induction es using List.reverseRecOn generalizing s with
  | nil =>
    obtain rfl := some.inj h
    exact ⟨rfl, rfl⟩
  | append_singleton es e ih =>
    obtain ⟨s₁, h₁, h₂⟩ := exec_concat_eq_some.mp h
    have hrun := (ih h₁).step h₂
    rw [Reading.run, Reading.run, ← foldl_append] at hrun
    rw [filterMap_append, filterMap_cons]
    cases he : readOf e <;> simpa [he, Reading.run] using hrun

/-- **What the user function is called with.** With a queue of at least one message and fewer than
`2 ^ 64 - 1` messages on the channel, the user function is called with messages of the `Dispatch`
calls, in their order, and there is something to fetch exactly when a message was dispatched after
the last one of them. -/
theorem delivered_in_order [Inhabited M] {size : ℕ} (hsize : 1 ≤ size) (hsize' : size < 2 ^ 32)
    {created : Bool} {es : List (Event M D)} (hlen : (messages es).length < 2 ^ 64 - 1)
    (h : exec (step (DataVisitor.visitor M)) (init M D ⟨.new size, 0⟩ created) es = some s) :
    ∃ read : List (ℕ × M), s.delivered = read.map Prod.snd ∧
      (read.map Prod.fst).Pairwise (· < ·) ∧
      (∀ x ∈ read, 0 < x.1 ∧ (messages es)[x.1 - 1]? = some x.2) ∧
      (Unfetched (DataVisitor.visitor M) s ↔ Reading.last read < (messages es).length) := by
  obtain ⟨hvisitor, hdelivered⟩ := reads_of_exec h
  have hroom : (Reading.new size : Reading M).filled.length + (messages es).length + 1 <
      2 ^ 64 := by
    rw [Reading.new, length_nil]
    omega
  obtain ⟨hinv, hfilled⟩ := (Reading.inv_new (by omega)).run hsize (by omega) hroom
  rw [Reading.new, nil_append, ← messages] at hfilled
  have hvalue := hinv.value
  have hnone := hinv.tryFetch_eq_none_iff (by rw [Reading.new, hfilled]; omega)
  have hle := hinv.last_le
  rw [Reading.new] at hvalue hnone hle
  rw [hfilled] at hvalue hnone hle
  refine ⟨_, hdelivered, hinv.increasing, hvalue, ?_⟩
  rw [Unfetched, hvisitor, DataVisitor.visitor, isSome_map, isSome_iff_ne_none,
    ne_eq, hnone]
  omega

/-- The message `7` is read; while three others are dispatched to a queue of two, the user function
returns, and it is called again with the newest. -/
theorem delivered_in_order_overflow :
    ∃ s, exec (step (DataVisitor.visitor ℕ)) (init ℕ ℕ ⟨.new 2, 0⟩ true)
        [.dispatch 0 7, .acquire false, .setDataWait, .tryFetch, .dispatch 1 8, .dispatch 2 9,
          .finishUser, .dispatch 3 10, .acquire false, .setDataWait, .tryFetch] = some s ∧
      s.delivered = [7, 10] ∧ ∃ read : List (ℕ × ℕ), s.delivered = read.map Prod.snd ∧
        (read.map Prod.fst).Pairwise (· < ·) ∧
        (∀ x ∈ read, 0 < x.1 ∧ [7, 8, 9, 10][x.1 - 1]? = some x.2) ∧ 4 ≤ Reading.last read := by
  refine exists_exec_mono (P := fun s => s.delivered = [7, 10] ∧
    ¬Unfetched (DataVisitor.visitor ℕ) s) (by decide +kernel) fun s hs hP => ?_
  obtain ⟨read, hread, hlt, hvalue, hunfetched⟩ :=
    delivered_in_order (by decide) (by decide) (by decide) hs
  exact ⟨hP.1, read, hread, hlt, hvalue, not_lt.mp (hunfetched.not.mp hP.2)⟩

end Reading

end RoutineFactory

end Cyber
