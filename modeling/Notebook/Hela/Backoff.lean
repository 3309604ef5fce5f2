import Notebook.Hela.DoHelaPcTask
import Mathlib.Algebra.Order.Ring.Int

/-!
# The sequence of back-offs

An `ExponentialBackoff` (`exponential_backoff.cc`) is told of successes and errors. A success clears
the back-off, the first error after it gives the initial back-off, and each further error lets it
grow up to the maximum. Without a step it is doubled. With a step the code adds `kPerStepBackoff`,
two thousand, whatever the step of the object is, and keeps the sum in an `int`.

The template is instantiated for microseconds, milliseconds and seconds. Its arithmetic is on the
counts of its durations, so the three instances compute the same numbers.
-/

open Interleaving

namespace Hela

namespace ExponentialBackoff

/-! ### Reports -/

/-- The constructor with a step. It ends the process when the initial back-off is negative or above
the maximum. -/
def construct (initialBackoff maxBackoff stepBackoff : ℤ) : Option ExponentialBackoff :=
  if initialBackoff < 0 then none
  else if initialBackoff > maxBackoff then none
  else some { initialBackoff, maxBackoff, stepBackoff, currentBackoff := 0 }

/-- `ReportStatus` -/
def reportStatus (b : ExponentialBackoff) (status : Bool) : ExponentialBackoff :=
  if status then b.reportSuccess else b.reportError

/-- The object after a history of reports. -/
def reports (b : ExponentialBackoff) (history : List Bool) : ExponentialBackoff :=
  history.foldl reportStatus b

@[simp]
theorem reports_nil (b : ExponentialBackoff) : b.reports [] = b := rfl

theorem reports_append (b : ExponentialBackoff) (history history' : List Bool) :
    b.reports (history ++ history') = (b.reports history).reports history' :=
  List.foldl_append

theorem exists_reports (b : ExponentialBackoff) (history : List Bool) :
    ∃ c, b.reports history = { b with currentBackoff := c } := by
  induction history using List.reverseRecOn with
  | nil => exact ⟨b.currentBackoff, rfl⟩
  | append_singleton history status ih =>
    obtain ⟨c, hc⟩ := ih
    rw [reports_append, hc]
    cases status with
    | false | true => exact ⟨_, rfl⟩

theorem currentBackoff_reports_success (b : ExponentialBackoff) (history : List Bool) :
    (b.reports (history ++ [true])).currentBackoff = 0 := by
  rw [reports_append]
  rfl

theorem currentBackoff_reports_of_getLast {b : ExponentialBackoff} (hb : b.currentBackoff = 0)
    {history : List Bool} (hlast : history.getLast? ≠ some false) :
    (b.reports history).currentBackoff = 0 := by
  induction history using List.reverseRecOn with
  | nil => exact hb
  | append_singleton history status _ =>
    cases status with
    | false => simp at hlast
    | true => exact currentBackoff_reports_success b history

/-! ### Runs of errors -/

theorem currentBackoff_reportError_of_zero {b : ExponentialBackoff} (hb : b.currentBackoff = 0) :
    b.reportError.currentBackoff = b.initialBackoff := if_pos hb

theorem currentBackoff_reportError_of_step_zero {b : ExponentialBackoff}
    (hb : b.currentBackoff ≠ 0) (hstep : b.stepBackoff = 0) :
    b.reportError.currentBackoff = min b.maxBackoff (2 * b.currentBackoff) := by
  simp only [reportError, if_neg hb, if_pos hstep]

theorem currentBackoff_reportError_of_step_ne {b : ExponentialBackoff}
    (hb : b.currentBackoff ≠ 0) (hstep : b.stepBackoff ≠ 0) :
    b.reportError.currentBackoff = min b.maxBackoff (int32 (b.currentBackoff + 2000)) := by
  simp only [reportError, if_neg hb, if_neg hstep]

theorem reports_errors_succ (b : ExponentialBackoff) (n : ℕ) :
    b.reports (List.replicate (n + 1) false) =
      (b.reports (List.replicate n false)).reportError := by
  rw [List.replicate_succ', reports_append]
  rfl

theorem maxBackoff_reports (b : ExponentialBackoff) (history : List Bool) :
    (b.reports history).maxBackoff = b.maxBackoff := by
  obtain ⟨c, hc⟩ := exists_reports b history
  rw [hc]

theorem stepBackoff_reports (b : ExponentialBackoff) (history : List Bool) :
    (b.reports history).stepBackoff = b.stepBackoff := by
  obtain ⟨c, hc⟩ := exists_reports b history
  rw [hc]

/-- Saturation before a step that does not fall below the maximum makes no difference. -/
theorem min_apply_min {M x : ℤ} {g : ℤ → ℤ} (hM : M ≤ g M) (hx : M ≤ x → M ≤ g x) :
    min M (g (min M x)) = min M (g x) := by
  rcases le_total x M with h | h
  · rw [min_eq_right h]
  · rw [min_eq_left h, min_eq_left hM, min_eq_left (hx h)]

section Errors

variable {b : ExponentialBackoff} (hzero : b.currentBackoff = 0) (hinit : 0 < b.initialBackoff)
  (hmax : b.initialBackoff ≤ b.maxBackoff)

include hzero hmax in
theorem currentBackoff_one_error :
    (b.reports (List.replicate 1 false)).currentBackoff = min b.maxBackoff b.initialBackoff := by
  rw [reports_errors_succ, List.replicate_zero, reports_nil,
    currentBackoff_reportError_of_zero hzero, min_eq_right hmax]

include hzero hinit hmax in
/-- **Doubling.** The back-off after `n + 1` errors without a step. -/
theorem currentBackoff_doubling (hstep : b.stepBackoff = 0) (n : ℕ) :
    (b.reports (List.replicate (n + 1) false)).currentBackoff =
      min b.maxBackoff (b.initialBackoff * 2 ^ n) := by
  induction n with
  | zero => rw [currentBackoff_one_error hzero hmax, pow_zero, mul_one]
  | succ n ih =>
    have hpos : 0 < b.initialBackoff * 2 ^ n := mul_pos hinit (pow_pos two_pos n)
    have hne : (b.reports (List.replicate (n + 1) false)).currentBackoff ≠ 0 := by
      rw [ih]
      omega
    rw [reports_errors_succ, currentBackoff_reportError_of_step_zero hne
      ((stepBackoff_reports b _).trans hstep), maxBackoff_reports, ih,
      min_apply_min (g := fun x => 2 * x) (by omega) (fun h => by omega), pow_succ',
      mul_left_comm]

include hzero hinit hmax in
/-- **Stepping.** The back-off after `n + 1` errors with a step, as long as the sum fits an `int`:
it grows by two thousand. -/
theorem currentBackoff_stepping (hstep : b.stepBackoff ≠ 0) (hint : b.maxBackoff + 2000 < 2 ^ 31)
    (n : ℕ) :
    (b.reports (List.replicate (n + 1) false)).currentBackoff =
      min b.maxBackoff (b.initialBackoff + n * 2000) := by
  induction n with
  | zero => rw [currentBackoff_one_error hzero hmax, Nat.cast_zero, zero_mul, add_zero]
  | succ n ih =>
    have hne : (b.reports (List.replicate (n + 1) false)).currentBackoff ≠ 0 := by
      rw [ih]
      omega
    have hword : int32 (min b.maxBackoff (b.initialBackoff + n * 2000) + 2000) =
        min b.maxBackoff (b.initialBackoff + n * 2000) + 2000 :=
      int32_eq_self (by omega) (by omega)
    rw [reports_errors_succ, currentBackoff_reportError_of_step_ne hne
      (by rwa [stepBackoff_reports]), maxBackoff_reports, ih, hword,
      min_apply_min (g := fun x => x + 2000) (by omega) (fun h => by omega)]
    congr 1
    omega

end Errors

end ExponentialBackoff

open ExponentialBackoff

/-! ### The whole sequence -/

/-- What the back-off should be after `n` errors in a row. -/
def backoffAfter (initial maximum step : ℤ) (n : ℕ) : ℤ :=
  if step = 0 then min maximum (initial * 2 ^ (n - 1))
  else min maximum (initial + (n - 1 : ℕ) * step)

/-- The reports of an object are as they should be: cleared after a success, and grown by the errors
since the last success otherwise. -/
def BackoffAsDocumented (b : ExponentialBackoff) (initial maximum step : ℤ) : Prop :=
  ∀ history : List Bool,
    (b.reports (history ++ [true])).currentBackoff = 0 ∧
      (b.reports (history ++ [true])).canDiscard = false ∧
      ∀ n, 1 ≤ n → history.getLast? ≠ some false →
        (b.reports (history ++ List.replicate n false)).currentBackoff =
            backoffAfter initial maximum step n ∧
          ((b.reports (history ++ List.replicate n false)).canDiscard = true ↔
            backoffAfter initial maximum step n = maximum)

section Sequence

variable {initial maximum step : ℤ}

theorem canDiscard_eq_true_iff {b : ExponentialBackoff} (hle : b.currentBackoff ≤ b.maxBackoff) :
    b.canDiscard = true ↔ b.currentBackoff = b.maxBackoff := by
  rw [canDiscard, decide_eq_true_iff]
  exact ⟨fun h => le_antisymm hle h, fun h => h.ge⟩

theorem backoffAfter_le (initial maximum step : ℤ) (n : ℕ) :
    backoffAfter initial maximum step n ≤ maximum := by
  rw [backoffAfter]
  split
  · exact min_le_left _ _
  · exact min_le_left _ _

theorem backoffAsDocumented_of_errors (hinit : 0 < initial) (hmax : initial ≤ maximum)
    (h : ∀ n, ((⟨initial, maximum, step, 0⟩ : ExponentialBackoff).reports
      (List.replicate (n + 1) false)).currentBackoff = backoffAfter initial maximum step (n + 1)) :
    BackoffAsDocumented ⟨initial, maximum, step, 0⟩ initial maximum step := by
  intro history
  have hcleared := currentBackoff_reports_success ⟨initial, maximum, step, 0⟩ history
  refine ⟨hcleared, ?_, fun n hn hlast => ?_⟩
  · rw [canDiscard, hcleared, maxBackoff_reports, decide_eq_false_iff_not]
    exact not_le.mpr (hinit.trans_le hmax)
  · obtain ⟨c, hc⟩ := exists_reports ⟨initial, maximum, step, 0⟩ history
    have hzero : c = 0 := by
      have := currentBackoff_reports_of_getLast (b := ⟨initial, maximum, step, 0⟩) rfl hlast
      rwa [hc] at this
    obtain ⟨m, rfl⟩ := Nat.exists_eq_succ_of_ne_zero (Nat.one_le_iff_ne_zero.mp hn)
    rw [reports_append, hc, hzero]
    have hmaxBackoff := maxBackoff_reports ⟨initial, maximum, step, 0⟩
      (List.replicate (m + 1) false)
    refine ⟨h m, ?_⟩
    rw [canDiscard_eq_true_iff ((h m).trans_le
      ((backoffAfter_le initial maximum step _).trans_eq hmaxBackoff.symm)), hmaxBackoff]
    exact (congrArg (· = maximum) (h m)).to_iff

theorem backoffAfter_of_step_eq (hstep : step ≠ 0)
    (h : step = 2000 ∨ (maximum ≤ initial + 2000 ∧ maximum ≤ initial + step)) (n : ℕ)
    (hnonneg : 0 ≤ step) :
    min maximum (initial + n * 2000) = backoffAfter initial maximum step (n + 1) := by
  rw [backoffAfter, if_neg hstep, Nat.add_sub_cancel]
  rcases h with rfl | ⟨h₁, h₂⟩
  · rfl
  · cases n with
    | zero => simp
    | succ n =>
      have hgrow : (0 : ℤ) ≤ n * step := mul_nonneg (Int.natCast_nonneg n) hnonneg
      have hsucc : ((n + 1 : ℕ) : ℤ) * step = n * step + step := by
        rw [Nat.cast_succ, add_mul, one_mul]
      rw [hsucc, min_eq_left (by omega), min_eq_left (by omega)]

/-- Enough errors should bring the back-off to the maximum, and leave it there. -/
theorem backoffAfter_of_le (hinit : 0 < initial) (hstep : 0 < step) {n : ℕ}
    (hn : maximum ≤ n) : backoffAfter initial maximum step (n + 1) = maximum := by
  rw [backoffAfter, if_neg hstep.ne', Nat.add_sub_cancel]
  have : (n : ℤ) ≤ n * step := le_mul_of_one_le_right (Int.natCast_nonneg n) hstep
  exact min_eq_left (by omega)

/-- **The sequence of back-offs.** For positive initial back-offs, a maximum that is not below and a
step that is not negative, the object does what its documentation says for all histories exactly
when there is no step, or when the maximum leaves room for two thousand more in an `int` and the
step is two thousand or does not matter because the second error reaches the maximum. -/
theorem backoff_sequence_iff (initial maximum step : ℤ) (hinit : 0 < initial)
    (hmax : initial ≤ maximum) (hstep : 0 ≤ step) (hword : maximum < 2 ^ 31) :
    (∃ b, construct initial maximum step = some b ∧
        BackoffAsDocumented b initial maximum step) ↔
      step = 0 ∨ (maximum + 2000 < 2 ^ 31 ∧
        (step = 2000 ∨ (maximum ≤ initial + 2000 ∧ maximum ≤ initial + step))) := by
  rw [construct, if_neg (not_lt.mpr hinit.le), if_neg (not_lt.mpr hmax)]
  simp only [Option.some.injEq, exists_eq_left']
  constructor
  · intro h
    by_cases hzero : step = 0
    · exact Or.inl hzero
    have hne : step ≠ 0 := hzero
    have herrors : ∀ n, ((⟨initial, maximum, step, 0⟩ : ExponentialBackoff).reports
        (List.replicate (n + 1) false)).currentBackoff =
          backoffAfter initial maximum step (n + 1) :=
      fun n => ((h []).2.2 (n + 1) (Nat.succ_pos n) (by simp)).1
    -- the maximum is reached, and stays: the addition to it does not overflow
    have hfits : maximum + 2000 < 2 ^ 31 := by
      by_contra hover
      have hreached := herrors maximum.toNat
      have hnext := herrors (maximum.toNat + 1)
      rw [backoffAfter_of_le hinit (by omega) (Int.self_le_toNat maximum)] at hreached
      rw [backoffAfter_of_le hinit (by omega) (by omega), reports_errors_succ,
        currentBackoff_reportError_of_step_ne (by omega) (by rwa [stepBackoff_reports]),
        hreached, maxBackoff_reports] at hnext
      -- the error after the one that reaches the maximum makes the back-off negative
      have hneg : int32 (maximum + 2000) < 0 := by
        unfold int32
        omega
      have hle := hnext.symm.trans_le (min_le_right _ _)
      omega
    have hsecond := herrors 1
    rw [currentBackoff_stepping rfl hinit hmax hne hfits, backoffAfter, if_neg hne] at hsecond
    simp only [Nat.cast_one, one_mul, Nat.add_sub_cancel] at hsecond
    exact Or.inr ⟨hfits, by omega⟩
  · intro h
    refine backoffAsDocumented_of_errors hinit hmax fun n => ?_
    rcases eq_or_ne step 0 with rfl | hne
    · rw [currentBackoff_doubling rfl hinit hmax rfl, backoffAfter, if_pos rfl,
        Nat.add_sub_cancel]
    · obtain ⟨hfits, hsame⟩ := h.resolve_left hne
      rw [currentBackoff_stepping rfl hinit hmax hne hfits]
      exact backoffAfter_of_step_eq hne hsame n hstep

/-- The back-offs of a pc task: two seconds, up to twenty. -/
theorem backoff_sequence_pcTask :
    ∃ b, construct 2000 20000 2000 = some b ∧ BackoffAsDocumented b 2000 20000 2000 :=
  (backoff_sequence_iff 2000 20000 2000 (by decide) (by decide) (by decide) (by decide)).mpr
    (Or.inr ⟨by decide, Or.inl rfl⟩)

/-- With a step of one second the second error gives three seconds, not two. -/
theorem backoff_second_error_of_step_thousand :
    (construct 1000 20000 1000).map (fun b => (b.reports [false, false]).currentBackoff) =
        some 3000 ∧
      backoffAfter 1000 20000 1000 2 = 2000 := by
  decide

end Sequence

end Hela
