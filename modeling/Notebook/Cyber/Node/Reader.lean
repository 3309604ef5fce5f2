import Notebook.Cyber.Croutine.RoutineFactory

/-!
# What a reader observes

The function of a reader's croutine (`Reader::Init`, `node/reader.h`) puts each message into the
`Blocker` of the reader (`blocker/blocker.h`), in front of the earlier ones, and cuts the queue to
the history depth. `Observe` copies the queue at any time. A reader has no callbacks in its blocker.
-/

open Interleaving List Option

namespace Cyber

/-- A `Blocker` -/
structure Blocker (M : Type*) where
  capacity : ℕ
  observed : List M
  published : List M

variable {S M E D : Type*} [DecidableEq D] {V : Visitor S M E}

/-- `Enqueue` -/
def Blocker.enqueue (b : Blocker M) (m : M) : Blocker M :=
  if b.capacity = 0 then b else { b with published := (m :: b.published).take b.capacity }

theorem Blocker.foldl_enqueue {b : Blocker M} (hb : b.published.length ≤ b.capacity) (l : List M) :
    l.foldl enqueue b = { b with published := (l.reverse ++ b.published).take b.capacity } := by
  induction l using List.reverseRecOn with
  | nil => simp [take_of_length_le hb]
  | append_singleton l m ih =>
    rw [foldl_append, ih, foldl_cons, foldl_nil, enqueue]
    split_ifs with hzero
    · simp_all
    · simp [take_cons (pos_of_ne_zero hzero), take_take]

namespace Reader

/-- A `Reader`: its croutine and its blocker. -/
structure State (S M D : Type*) where
  routine : RoutineFactory.State S M D
  blocker : Blocker M

/-- A step of the croutine, or a call of `Observe`, of `SetHistoryDepth` or in `ClearData`. -/
inductive Event (E D : Type*)
  | routine (e : RoutineFactory.Event E D)
  | observe
  | setHistoryDepth (depth : ℕ)
  | clearPublished
  | clearObserved

/-- One step. The function of the croutine enqueues what it is called with. -/
def step (V : Visitor S M E) (s : State S M D) : Event E D → Option (State S M D)
  | .routine e => (RoutineFactory.step V s.routine e).map fun routine =>
      ⟨routine, (routine.delivered.drop s.routine.delivered.length).foldl .enqueue s.blocker⟩
  | .observe => some { s with blocker.observed := s.blocker.published }
  | .setHistoryDepth depth => some { s with
      blocker := { s.blocker with capacity := depth, published := s.blocker.published.take depth } }
  | .clearPublished => some { s with blocker.published := [] }
  | .clearObserved => some { s with blocker.observed := [] }

/-- A reader with the history depth `depth`. -/
def init (M D : Type*) (visitor : S) (depth : ℕ) : State S M D :=
  ⟨RoutineFactory.init M D visitor false, ⟨depth, [], []⟩⟩

theorem exists_delivered_eq {s s' : RoutineFactory.State S M D} {e : RoutineFactory.Event E D}
    (h : RoutineFactory.step V s e = some s') : ∃ l, s'.delivered = s.delivered ++ l := by
  revert h
  fun_cases RoutineFactory.step V s e <;>
    simp only [map_eq_some_iff, some.injEq, reduceCtorEq, IsEmpty.forall_iff]
  all_goals first
    | rintro rfl; exact ⟨_, rfl⟩
    | rintro rfl; exact ⟨[], (append_nil _).symm⟩
    | rintro ⟨_, _, rfl⟩; exact ⟨[], (append_nil _).symm⟩

variable {s s' : State S M D} {e : Event E D}

theorem step_routine {e : RoutineFactory.Event E D}
    (hs : s.blocker.published.length ≤ s.blocker.capacity) (h : step V s (.routine e) = some s') :
    ∃ l, s'.routine.delivered = s.routine.delivered ++ l ∧ s'.blocker = { s.blocker with
      published := (l.reverse ++ s.blocker.published).take s.blocker.capacity } := by
  obtain ⟨routine, hroutine, rfl⟩ := map_eq_some_iff.mp h
  obtain ⟨l, hl⟩ := exists_delivered_eq hroutine
  refine ⟨l, hl, ?_⟩
  simp only [hl, drop_left, Blocker.foldl_enqueue hs]

/-- The messages of a queue have been delivered one after the other, and those that are published
last. -/
structure Inv (s : State S M D) : Prop where
  published : s.blocker.published <+: s.routine.delivered.reverse
  length_le : s.blocker.published.length ≤ s.blocker.capacity
  observed : s.blocker.observed <:+: s.routine.delivered.reverse

theorem Inv.step (hs : Inv s) (h : step V s e = some s') : Inv s' := by
  cases e with
  | routine e =>
    obtain ⟨l, hl, hblocker⟩ := step_routine hs.length_le h
    constructor <;> simp only [hl, hblocker, reverse_append]
    · exact (List.take_prefix _ _).trans ((prefix_append_right_inj _).mpr hs.published)
    · exact length_take_le _ _
    · exact hs.observed.trans (suffix_append _ _).isInfix
  | observe =>
    obtain ⟨⟩ := h
    exact ⟨hs.published, hs.length_le, hs.published.isInfix⟩
  | setHistoryDepth depth =>
    obtain ⟨⟩ := h
    exact ⟨(List.take_prefix _ _).trans hs.published, length_take_le _ _, hs.observed⟩
  | clearPublished =>
    obtain ⟨⟩ := h
    exact ⟨List.nil_prefix, Nat.zero_le _, hs.observed⟩
  | clearObserved =>
    obtain ⟨⟩ := h
    exact ⟨hs.published, hs.length_le, nil_infix⟩

/-- The event is neither a `SetHistoryDepth` nor a `ClearPublished`. -/
def Event.Keeps : Event E D → Prop
  | .setHistoryDepth _ | .clearPublished => False
  | _ => True

/-- The published messages are as many as possible. -/
def Full (s : State S M D) : Prop :=
  s.blocker.published = s.routine.delivered.reverse.take s.blocker.capacity

theorem Full.step (hs : Full s) (he : e.Keeps) (h : step V s e = some s') :
    Full s' ∧ s'.blocker.capacity = s.blocker.capacity := by
  cases e with
  | routine e =>
    obtain ⟨l, hl, hblocker⟩ := step_routine (hs ▸ length_take_le _ _) h
    rw [Full, hl, hblocker, hs]
    simp [take_append, take_take]
  | observe | clearObserved =>
    obtain ⟨⟩ := h
    exact ⟨hs, rfl⟩
  | setHistoryDepth | clearPublished => exact he.elim

/-- **What a reader observes.** In every run, with calls of `SetHistoryDepth` and `ClearData` at any
time, the published messages are the last ones that the function of the croutine was called with,
newest first and no more than the history depth, and the observed ones follow each other likewise.
In a run without such calls all messages that the depth allows are published. -/
theorem observe_latest {visitor : S} {depth : ℕ} {es : List (Event E D)}
    (h : exec (step V) (init M D visitor depth) es = some s) :
    (s.blocker.published <+: s.routine.delivered.reverse ∧
      s.blocker.published.length ≤ s.blocker.capacity ∧
      s.blocker.observed <:+: s.routine.delivered.reverse) ∧
    ((∀ e ∈ es, e.Keeps) → s.blocker.published = s.routine.delivered.reverse.take depth) := by
  constructor
  · obtain ⟨hpublished, hlength, hobserved⟩ := exec_invariant Inv (fun _ _ _ hs h => hs.step h)
      ⟨List.nil_prefix, Nat.zero_le _, nil_infix⟩ h
    exact ⟨hpublished, hlength, hobserved⟩
  · intro hes
    obtain ⟨hfull, hcapacity⟩ := exec_invariant_of_allSteps
      (fun s => Full s ∧ s.blocker.capacity = depth)
      (fun _ _ _ hs he h => (hs.1.step he h).imp_right fun hc => hc.trans hs.2)
      ⟨by simp [Full, init, RoutineFactory.init], rfl⟩
      (allSteps_of_forall_mem (fun _ e he => hes e he) _) h
    rwa [Full, hcapacity] at hfull

/-- Three messages come; the history of two is observed, and then cut to one. -/
theorem observe_latest_two :
    let get (d m : ℕ) : List (RoutineFactory.Event ℕ ℕ) :=
      [.dispatch d m, .acquire false, .setDataWait, .tryFetch, .finishUser]
    ∃ s, exec (step (DataVisitor.visitor ℕ)) (init ℕ ℕ ⟨.new 1, 0⟩ 2)
        ((.dispatchTask :: .registerNotifyCallback :: get 0 7 ++ get 1 8 ++ get 2 9).map .routine ++
          [.observe, .setHistoryDepth 1]) = some s ∧
      s.blocker.observed = [9, 8] ∧ s.blocker.published = [9] ∧
      s.blocker.observed <:+: s.routine.delivered.reverse :=
  exists_exec_mono (P := fun s => s.blocker.observed = [9, 8] ∧ s.blocker.published = [9])
    (by decide +kernel) fun _ hs hP => ⟨hP.1, hP.2, (observe_latest hs).1.2.2⟩

end Reader

end Cyber
