import Notebook.Cyber.Data.CacheBuffer

/-!
# Fusion of the latest messages

A `DataVisitor` over several channels reads tuples that `AllLatest` (`data/fusion/all_latest.h`)
puts together. The buffer of the primary channel has a fusion callback: a message that is filled
into it is not kept there, but paired with the latest message of each other channel and filled into
the buffer `buffer_fusion_`, which the visitor reads as it would read a channel. If one of the
other channels has no message yet, the primary message is dropped.

The other channels are indexed by a finite type `ι`: the three classes `AllLatest` of the source are
the cases `Fin 1`, `Fin 2` and `Fin 3`.
-/

open Function List Option

namespace Cyber

/-- A value for every index, if there is one at each. -/
def allSome {ι : Type*} [Fintype ι] {M : ι → Type*} (f : ∀ i, Option (M i)) :
    Option (∀ i, M i) :=
  if h : ∀ i, (f i).isSome then some fun i => (f i).get (h i) else none

/-- `AllLatest`, over the channels `ι` besides the primary one: their buffers, and the visitor that
reads `buffer_fusion_`. -/
structure AllLatest {ι : Type*} (M₀ : Type*) (M : ι → Type*) where
  others : ∀ i, CacheBuffer (M i)
  reading : Reading (M₀ × ∀ i, M i)

namespace AllLatest

variable {ι : Type*} [Fintype ι] [DecidableEq ι] {M₀ : Type*} {M : ι → Type*}

/-- A `Fill` of the primary channel or of another one, or a `TryFetch` of the visitor. -/
inductive Event {ι : Type*} (M₀ : Type*) (M : ι → Type*)
  | fill (value : M₀)
  | fillOther (i : ι) (value : M i)
  | tryFetch

/-- The fusion callback. -/
def fusionCallback (s : AllLatest M₀ M) (m₀ : M₀) : AllLatest M₀ M :=
  match allSome fun i => (s.others i).latest with
  | none => s
  | some ms => { s with reading := s.reading.fill (m₀, ms) }

/-- The effect of a call. `TryFetch` calls `Fusion`, which is `Fetch` of `buffer_fusion_`. -/
def step (s : AllLatest M₀ M) : Event M₀ M → AllLatest M₀ M
  | .fill value => s.fusionCallback value
  | .fillOther i value =>
    { s with others := update s.others i ((s.others i).fill value) }
  | .tryFetch => { s with reading := s.reading.tryFetch }

/-- A sequence of calls. -/
def run (s : AllLatest M₀ M) (es : List (Event M₀ M)) : AllLatest M₀ M := es.foldl step s

/-- New buffers with queues of the given sizes. `buffer_fusion_` has the size of the primary
queue. -/
def new [Inhabited M₀] [∀ i, Inhabited (M i)] (size : ℕ) (sizes : ι → ℕ) : AllLatest M₀ M where
  others i := .new (sizes i)
  reading := .new size

/-! ### The tuples -/

/-- The messages filled into another channel. -/
def othersFilled (i : ι) (es : List (Event M₀ M)) : List (M i) :=
  es.filterMap fun
    | .fillOther j value => if h : j = i then some (h ▸ value) else none
    | _ => none

/-- The messages filled into the primary channel. -/
def primaryFilled (es : List (Event M₀ M)) : List M₀ :=
  es.filterMap fun
    | .fill value => some value
    | _ => none

/-- The tuple for a primary message that arrives after the calls `seen`: with the most recent
message of each other channel, if each has one. -/
def tuple (seen : List (Event M₀ M)) (m₀ : M₀) : Option (M₀ × ∀ i, M i) :=
  (allSome fun i => (othersFilled i seen).getLast?).map (Prod.mk m₀)

/-- The tuples for the primary messages of the calls `es`, which follow the calls `seen`. -/
def fused (seen : List (Event M₀ M)) : List (Event M₀ M) → List (M₀ × ∀ i, M i)
  | [] => []
  | .fill m₀ :: es => (tuple seen m₀).toList ++ fused (seen ++ [.fill m₀]) es
  | e :: es => fused (seen ++ [e]) es

variable {seen es : List (Event M₀ M)} {e : Event M₀ M}

/-- The tuple of one more call. -/
def tupleOf (seen : List (Event M₀ M)) : Event M₀ M → List (M₀ × ∀ i, M i)
  | .fill m₀ => (tuple seen m₀).toList
  | .fillOther _ _ => []
  | .tryFetch => []

theorem fused_cons : fused seen (e :: es) = tupleOf seen e ++ fused (seen ++ [e]) es := by
  cases e <;> rfl

theorem fused_concat : fused seen (es ++ [e]) = fused seen es ++ tupleOf (seen ++ es) e := by
  induction es generalizing seen with
  | nil => rw [nil_append, fused_cons, fused, fused, append_nil, append_nil,
      nil_append]
  | cons e' es ih =>
    rw [cons_append, fused_cons, fused_cons, ih, append_assoc, append_assoc,
      singleton_append]

/-! ### The buffers -/

variable {size : ℕ} {sizes : ι → ℕ} {s : AllLatest M₀ M}

/-- The buffers after the calls `es`. -/
structure Inv (size : ℕ) (sizes : ι → ℕ) (es : List (Event M₀ M)) (s : AllLatest M₀ M) : Prop where
  others : ∀ i, (s.others i).Holds (sizes i) (othersFilled i es)
  reading : s.reading.Inv size
  filled : s.reading.filled = fused [] es

theorem inv_new [Inhabited M₀] [∀ i, Inhabited (M i)] (hsize : size + 1 < 2 ^ 64)
    (hsizes : ∀ i, sizes i + 1 < 2 ^ 64) :
    Inv size sizes [] (new size sizes : AllLatest M₀ M) where
  others i := CacheBuffer.holds_new (hsizes i)
  reading := Reading.inv_new hsize
  filled := rfl

theorem Inv.sample_eq (h : Inv size sizes es s) (hsizes : ∀ i, 1 ≤ sizes i) :
    (allSome fun i => (s.others i).latest) = allSome fun i => (othersFilled i es).getLast? :=
  congrArg allSome (funext fun i => (h.others i).latest_eq (hsizes i))

/-- The room that one more call needs in the counters. -/
structure Room (es : List (Event M₀ M)) : Prop where
  primary : (primaryFilled es).length < 2 ^ 64 - 1
  others : ∀ i, (othersFilled i es).length < 2 ^ 64 - 1

theorem length_fused_le : (fused seen es).length ≤ (primaryFilled es).length := by
  induction es generalizing seen with
  | nil => exact le_rfl
  | cons e es ih =>
    have hrest : (fused (seen ++ [e]) es).length ≤ (primaryFilled es).length := ih
    rw [fused_cons, length_append]
    cases e with
    | fill m₀ =>
      have hone : (tupleOf seen (.fill m₀)).length ≤ 1 := by
        cases h : tuple seen m₀ <;> simp [tupleOf, h]
      have hcons : primaryFilled (.fill m₀ :: es) = m₀ :: primaryFilled es := rfl
      rw [hcons, length_cons]
      omega
    | fillOther | tryFetch =>
      rw [tupleOf, length_nil, Nat.zero_add]
      exact hrest

omit [Fintype ι] in
theorem Room.of_concat (h : Room (es ++ [e])) : Room es := by
  refine ⟨lt_of_le_of_lt ?_ h.primary, fun i => lt_of_le_of_lt ?_ (h.others i)⟩
  · exact ((prefix_append es [e]).filterMap _).length_le
  · exact ((prefix_append es [e]).filterMap _).length_le

/-- **One more call.** -/
theorem Inv.step (h : Inv size sizes es s) (hsize : 1 ≤ size) (hsize' : size + 1 < 2 ^ 64)
    (hsizes : ∀ i, 1 ≤ sizes i) (hsizes' : ∀ i, sizes i + 1 < 2 ^ 64) (hroom : Room (es ++ [e])) :
    Inv size sizes (es ++ [e]) (s.step e) := by
  have hlen : s.reading.filled.length + 1 < 2 ^ 64 := by
    have hle : (fused [] es).length ≤ (primaryFilled es).length := length_fused_le
    have hlt := hroom.of_concat.primary
    rw [h.filled]
    omega
  cases e with
  | fill m₀ =>
    rw [AllLatest.step, fusionCallback, h.sample_eq hsizes]
    cases hall : allSome fun i => (othersFilled i es).getLast? with
    | none =>
      -- the message is dropped
      refine ⟨fun i => ?_, h.reading, ?_⟩
      · simpa [othersFilled] using h.others i
      · rw [fused_concat, h.filled, nil_append, tupleOf, tuple, hall, map_none,
          toList_none, append_nil]
    | some ms =>
      refine ⟨fun i => ?_, h.reading.fill hsize' hlen (m₀, ms), ?_⟩
      · simpa [othersFilled] using h.others i
      · rw [Reading.filled_fill, fused_concat, h.filled, nil_append, tupleOf, tuple, hall,
          map_some, toList_some]
  | fillOther j value =>
    refine ⟨fun i => ?_, h.reading, ?_⟩
    · rw [AllLatest.step]
      by_cases hi : i = j
      · subst hi
        have hlt := hroom.of_concat.others i
        simpa [othersFilled] using (h.others i).fill (hsizes' i) (by omega) value
      · simpa [othersFilled, hi, Ne.symm hi] using h.others i
    · rw [fused_concat, tupleOf, append_nil]
      exact h.filled
  | tryFetch =>
    refine ⟨fun i => ?_, h.reading.tryFetch hsize hlen, ?_⟩
    · simpa [othersFilled, AllLatest.step] using h.others i
    · rw [AllLatest.step, Reading.filled_tryFetch, fused_concat, tupleOf, append_nil]
      exact h.filled

/-- **Runs.** -/
theorem inv_run [Inhabited M₀] [∀ i, Inhabited (M i)] (hsize : 1 ≤ size)
    (hsize' : size + 1 < 2 ^ 64) (hsizes : ∀ i, 1 ≤ sizes i) (hsizes' : ∀ i, sizes i + 1 < 2 ^ 64)
    (hroom : Room es) : Inv size sizes es ((new size sizes).run es) := by
  -- the tuples are a function of all calls so far, so the induction adds a call at the end
  induction es using List.reverseRecOn with
  | nil => exact inv_new hsize' hsizes'
  | append_singleton es e ih =>
    rw [run, foldl_concat]
    exact (ih hroom.of_concat).step hsize hsize' hsizes hsizes' hroom

/-- **Fusion.** For queues of at least one message, after every sequence of calls with fewer than
`2 ^ 64 - 1` messages in each channel: the tuples filled into `buffer_fusion_` are, in the order of
arrival, the primary messages that found a message in each other channel, each with the most recent
message of each other channel. The visitor reads these tuples at increasing positions; it fails
exactly when it has read the last one; and the next one that it reads is the next tuple, unless
nothing was read before or more than `size` tuples are unread: then it is the newest. -/
theorem fusion_order [Inhabited M₀] [∀ i, Inhabited (M i)] (size : ℕ) (sizes : ι → ℕ)
    (hsize : 1 ≤ size) (hsize' : size < 2 ^ 32) (hsizes : ∀ i, 1 ≤ sizes i ∧ sizes i < 2 ^ 32)
    (es : List (Event M₀ M)) (hprimary : (primaryFilled es).length < 2 ^ 64 - 1)
    (hothers : ∀ i, (othersFilled i es).length < 2 ^ 64 - 1) :
    let r := ((new size sizes : AllLatest M₀ M).run es).reading
    r.filled = fused [] es ∧ (r.returned.map Prod.fst).Pairwise (· < ·) ∧
      (∀ x ∈ r.returned, 0 < x.1 ∧ r.filled[x.1 - 1]? = some x.2) ∧
      (r.visitor.tryFetch = none ↔ Reading.last r.returned = r.filled.length) ∧
      ∀ i m v, r.visitor.tryFetch = some (i, m, v) → r.filled[i - 1]? = some m ∧
        i = if 0 < Reading.last r.returned ∧ r.filled.length - Reading.last r.returned ≤ size then
          Reading.last r.returned + 1 else r.filled.length := by
  intro r
  have h : Inv size sizes es ((new size sizes : AllLatest M₀ M).run es) :=
    inv_run hsize (by omega) (fun i => (hsizes i).1)
      (fun i => by have := (hsizes i).2; omega) ⟨hprimary, hothers⟩
  have hlen : r.filled.length + 1 < 2 ^ 64 := by
    have hle : (fused [] es).length ≤ (primaryFilled es).length := length_fused_le
    rw [h.filled]
    omega
  refine ⟨h.filled, h.reading.increasing, h.reading.value,
    h.reading.tryFetch_eq_none_iff hlen, fun i m v hf => ?_⟩
  obtain ⟨-, -, hm, -, hi⟩ := h.reading.tryFetch_eq_some hsize hlen hf
  exact ⟨hm, hi⟩

theorem fusion_order_of_three_channels :
    let es : List (Event ℕ fun _ : Fin 2 => ℕ) :=
      [.fill 1, .fillOther 0 10, .fill 2, .fillOther 1 20, .fill 3, .tryFetch, .fillOther 0 11,
        .fill 4, .tryFetch]
    let r := ((new 1 fun _ => 1).run es).reading
    r.returned.map (fun x => (x.1, x.2.1, x.2.2 0, x.2.2 1)) = [(1, 3, 10, 20), (2, 4, 11, 20)] ∧
      r.filled = fused [] es := by
  refine ⟨by decide +kernel, ?_⟩
  exact (fusion_order 1 (fun _ => 1) le_rfl (by decide) (by decide) _ (by decide)
    (by decide)).1

/-! ### More tuples than positions -/

theorem run_replicate_fill {others : ∀ i, CacheBuffer (M i)} {ms : ∀ i, M i}
    (h : (allSome fun i => (others i).latest) = some ms) (r : Reading (M₀ × ∀ i, M i)) (m₀ : M₀)
    (n : ℕ) : run ⟨others, r⟩ (List.replicate n (.fill m₀)) =
      ⟨others, r.run (List.replicate n (.fill (m₀, ms)))⟩ := by
  induction n generalizing r with
  | zero => rfl
  | succ n ih =>
    have hstep : step ⟨others, r⟩ (.fill m₀) = ⟨others, r.fill (m₀, ms)⟩ := by
      rw [step, fusionCallback, h]
    rw [replicate_succ, replicate_succ, run, foldl_cons, hstep, Reading.run_cons,
      Reading.step]
    exact ih _

theorem run_concat_two (es : List (Event M₀ M)) :
    (s.run (es ++ [Event.tryFetch, .tryFetch])).reading =
      (s.run es).reading.tryFetch.tryFetch := by
  rw [run, foldl_append]
  rfl

/-- **A tuple that is read twice.** -/
theorem fused_twice : ∃ s : AllLatest ℕ fun _ : Fin 1 => ℕ,
    s = ((new 1 fun _ => 1).step (.fillOther 0 5)).run
      (List.replicate (2 ^ 64 - 1) (.fill 7) ++ [.tryFetch, .tryFetch]) ∧
      s.reading.returned = [(2 ^ 64 - 1, 7, fun _ => 5), (2 ^ 64 - 1, 7, fun _ => 5)] ∧
      ¬(s.reading.returned.map Prod.fst).Pairwise (· < ·) := by
  have hothers : ∀ b b' : CacheBuffer ℕ, update (fun _ : Fin 1 => b) 0 b' = fun _ => b' :=
    fun b b' => funext fun i => by rw [Subsingleton.elim i 0, update_self]
  have hstep : (new 1 fun _ => 1 : AllLatest ℕ fun _ : Fin 1 => ℕ).step (.fillOther 0 5) =
      ⟨fun _ => (CacheBuffer.new 1).fill 5, .new 1⟩ := congrArg (AllLatest.mk · _) (hothers _ _)
  have hsample : (allSome fun _ : Fin 1 => ((CacheBuffer.new 1).fill 5 : CacheBuffer ℕ).latest) =
      some fun _ => 5 := by decide +kernel
  have hreturned := Reading.returned_wrap ((7, fun _ => 5) : ℕ × (Fin 1 → ℕ))
  rw [Reading.run_concat_two] at hreturned
  refine ⟨_, rfl, ?_⟩
  rw [hstep, run_concat_two, run_replicate_fill hsample, hreturned]
  exact ⟨rfl, by simp⟩

end AllLatest

end Cyber
