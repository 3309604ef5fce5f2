import Notebook.Interleaving.Threads
import Mathlib.Algebra.Order.Floor.Div

/-!
# The timing wheel

`TimingWheel` (`timer/timing_wheel.cc`) keeps the tasks of all timers in a work wheel of `512`
buckets, one for each tick of two milliseconds, and an assistant wheel of `64` buckets, one for
each turn of the work wheel. The tick thread runs `TickFunc`: it dispatches the bucket at the work
index, advances the index and, when the index comes back to `0`, advances the assistant index and
moves the assistant bucket found there down to the work wheel. `AddTask` chooses a bucket from the
delay of the task and the two indices.

The model has one transition for each step of `TickFunc`, and splits `AddTask` at its accesses to
the indices and the buckets. What a bucket holds is a weak pointer to a task, tagged with the
number of the insertion that put it there. The Tick with the number `n`, from `0` on, dispatches the
work bucket `n % 512`, and the assistant bucket `n / 512 % 64` is moved down before the Tick `n`
when `n % 512 = 0`.

## Main definitions

* `Wheel`, `Wheel.tickFunc`, `Wheel.addTask` — the wheels and the code.
* `Wheel.Due` — an entry of a bucket will be dispatched at the Tick `n` and not before.
* `Tracked` — an entry waits where it is due, or was dispatched there.

## Main results

* `Tracked.apply` — an entry stays tracked until it is dispatched, whatever else happens.
* `Wheel.WF.tracked_push` — an entry that is put where it is due is tracked.
-/

open Interleaving Function List

namespace Cyber.TimingWheel

/-- `WORK_WHEEL_SIZE` -/
def workWheelSize : ℕ := 512

/-- `ASSISTANT_WHEEL_SIZE` -/
def assistantWheelSize : ℕ := 64

/-- `TIMER_RESOLUTION_MS` -/
def timerResolutionMs : ℕ := 2

/-- `TIMER_MAX_INTERVAL_MS` -/
def timerMaxIntervalMs : ℕ := workWheelSize * assistantWheelSize * timerResolutionMs

/-- `GetWorkWheelIndex` -/
def getWorkWheelIndex (index : ℕ) : ℕ := index &&& (workWheelSize - 1)

/-- `GetAssistantWheelIndex` -/
def getAssistantWheelIndex (index : ℕ) : ℕ := index &&& (assistantWheelSize - 1)

/-- The conversion of a `uint64_t` to `double`, as an integer: the nearest number with a
significand of 53 bits, and of two nearest ones that with the even significand. -/
def toDouble (n : ℕ) : ℕ :=
  let e := n.log2 - 52
  let q := n / 2 ^ e
  let r := n % 2 ^ e
  if 2 * r > 2 ^ e ∨ 2 * r = 2 ^ e ∧ q % 2 = 1 then (q + 1) * 2 ^ e else q * 2 ^ e

/-- `static_cast<uint64_t>(std::ceil(static_cast<double>(d) / TIMER_RESOLUTION_MS))`, the delay of
a task in Ticks. The division by `2` is exact. -/
def delayTicks (d : ℕ) : ℕ := (toDouble d + (timerResolutionMs - 1)) / timerResolutionMs

/-- The step of `TickFunc` that the tick thread makes next: dispatch a bucket, advance the work
index, advance the assistant index, or move an assistant bucket down. -/
inductive Phase
  | tick
  | advance
  | advanceAssistant
  | cascade
deriving DecidableEq, Repr

/-- A bucket of the work wheel or of the assistant wheel. -/
inductive Bucket
  | work (i : ℕ)
  | assistant (j : ℕ)
deriving DecidableEq, Repr

/-- A weak pointer to a task in a bucket, with the number of the insertion that put it there. -/
structure Entry (τ : Type*) where
  task : τ
  id : ℕ
deriving DecidableEq, Repr

/-- The wheels and the fields of the tasks that they use. `inserted` numbers the insertions, and
`log` lists the dispatched entries, each with the value that its Tick gives to `tick_count_`. -/
structure Wheel (τ : Type*) where
  phase : Phase
  bucket : Bucket → List (Entry τ)
  workIndex : ℕ
  assistantIndex : ℕ
  remainder : τ → ℕ
  expired : τ → Bool
  tickCount : ℕ
  inserted : ℕ
  log : List (ℕ × Entry τ)

namespace Wheel

variable {τ : Type*}

/-- A wheel that was just started. -/
def init (τ : Type*) : Wheel τ where
  phase := .tick
  bucket := fun _ => []
  workIndex := 0
  assistantIndex := 0
  remainder := fun _ => 0
  expired := fun _ => false
  tickCount := 0
  inserted := 0
  log := []

/-- The entries of a list whose tasks still exist. -/
def alive (s : Wheel τ) (l : List (Entry τ)) : List (Entry τ) :=
  l.filter fun x => !s.expired x.task

/-- `Tick` and the increment of `tick_count_`. -/
def tick (s : Wheel τ) : Wheel τ :=
  let b := Bucket.work s.workIndex
  { s with
    phase := .advance
    bucket := update s.bucket b []
    tickCount := s.tickCount + 1
    log := s.log ++ (s.alive (s.bucket b)).map fun x => (s.tickCount + 1, x) }

/-- The increment of the work index and the test that follows it. -/
def advance (s : Wheel τ) : Wheel τ :=
  let index := getWorkWheelIndex (s.workIndex + 1)
  { s with
    phase := if index = 0 then .advanceAssistant else .tick
    workIndex := index }

/-- The increment of the assistant index. -/
def advanceAssistant (s : Wheel τ) : Wheel τ :=
  { s with
    phase := .cascade
    assistantIndex := getAssistantWheelIndex (s.assistantIndex + 1) }

/-- Put an entry into a bucket. -/
def put (s : Wheel τ) (b : Bucket) (x : Entry τ) : Wheel τ :=
  { s with bucket := update s.bucket b (s.bucket b ++ [x]) }

/-- `Cascade` of the bucket at the assistant index. -/
def cascade (s : Wheel τ) : Wheel τ :=
  let b := Bucket.assistant s.assistantIndex
  (s.alive (s.bucket b)).foldl (fun s x => s.put (.work (s.remainder x.task)) x)
    { s with phase := .tick, bucket := update s.bucket b [] }

/-- One step of the tick thread. -/
def tickFunc (s : Wheel τ) : Wheel τ :=
  match s.phase with
  | .tick => s.tick
  | .advance => s.advance
  | .advanceAssistant => s.advanceAssistant
  | .cascade => s.cascade

/-- The last owner of a task drops it. -/
def expire [DecidableEq τ] (s : Wheel τ) (t : τ) : Wheel τ :=
  { s with expired := update s.expired t true }

/-- `remainder_interval_ms` of a task is set. -/
def setRemainder [DecidableEq τ] (s : Wheel τ) (t : τ) (r : ℕ) : Wheel τ :=
  { s with remainder := update s.remainder t r }

/-- `TimerBucket::AddTask` -/
def push (s : Wheel τ) (b : Bucket) (t : τ) : Wheel τ :=
  { s.put b ⟨t, s.inserted⟩ with inserted := s.inserted + 1 }

end Wheel

/-- Where `AddTask` puts a task: a bucket of the work wheel, or the bucket of the assistant wheel
that many turns ahead. -/
inductive Placement
  | work (i : ℕ)
  | assistant (assistantTicks : ℕ)
deriving DecidableEq, Repr

/-- `work_wheel_index` of `AddTask`, with the argument `current_work_wheel_index`. -/
def workWheelIndex (captured d : ℕ) : ℕ := uint64 (captured + delayTicks d)

namespace Wheel

variable {τ : Type*} [DecidableEq τ]

/-- The first part of `AddTask`, up to the choice of a bucket. The work index is read a second
time in the test for the part of the work wheel behind it. -/
def choose (s : Wheel τ) (t : τ) (d captured : ℕ) : Wheel τ × Placement :=
  let index := workWheelIndex captured d
  if workWheelSize ≤ index then
    let real := getWorkWheelIndex index
    let assistantTicks := index / workWheelSize
    if assistantTicks = 1 ∧ real < s.workIndex then (s.setRemainder t real, .work real)
    else (s.setRemainder t real, .assistant assistantTicks)
  else (s, .work index)

/-- The bucket of a placement, at the present assistant index. -/
def target (s : Wheel τ) : Placement → Bucket
  | .work i => .work i
  | .assistant assistantTicks =>
    .assistant (getAssistantWheelIndex (s.assistantIndex + assistantTicks))

/-- The second part of `AddTask`, which puts the task into its bucket. The mutex of the assistant
index makes its read one step with the insertion. -/
def insert (s : Wheel τ) (t : τ) (p : Placement) : Wheel τ := s.push (s.target p) t

/-- `AddTask`, as one step. -/
def addTask (s : Wheel τ) (t : τ) (d : ℕ) : Wheel τ :=
  let r := s.choose t d s.workIndex
  r.1.insert t r.2

end Wheel

/-! ### Index arithmetic -/

theorem getWorkWheelIndex_eq_mod (index : ℕ) : getWorkWheelIndex index = index % 512 :=
  Nat.and_two_pow_sub_one_eq_mod index 9

theorem getAssistantWheelIndex_eq_mod (index : ℕ) : getAssistantWheelIndex index = index % 64 :=
  Nat.and_two_pow_sub_one_eq_mod index 6

theorem toDouble_eq_self {d : ℕ} (h : d < 2 ^ 53) : toDouble d = d := by
  have he : d.log2 - 52 = 0 := by
    rcases eq_zero_or_pos d with rfl | hd
    · simp
    · have := (Nat.log2_lt hd.ne').mpr h
      omega
  simp [toDouble, he, Nat.mod_one]

theorem delayTicks_eq {d : ℕ} (h : d < 2 ^ 53) : delayTicks d = d ⌈/⌉ timerResolutionMs := by
  rw [delayTicks, toDouble_eq_self h, Nat.ceilDiv_eq_add_pred_div]
  rfl

/-! ### The position of the tick thread -/

namespace Wheel

variable {τ : Type*} {s : Wheel τ}

/-- The number of the Tick that the work index stands for: the last one between a Tick and the
increment of the index, and the next one otherwise. -/
def pos (s : Wheel τ) : ℕ :=
  match s.phase with
  | .advance => s.tickCount - 1
  | _ => s.tickCount

/-- The turn of the work wheel that the assistant index stands for. -/
def turn (s : Wheel τ) : ℕ :=
  match s.phase with
  | .tick | .cascade => s.tickCount / 512
  | .advance => (s.tickCount - 1) / 512
  | .advanceAssistant => s.tickCount / 512 - 1

/-- The last turn of the work wheel whose assistant bucket was moved down. -/
def cascaded (s : Wheel τ) : ℕ :=
  match s.phase with
  | .tick => s.tickCount / 512
  | .advance => (s.tickCount - 1) / 512
  | .advanceAssistant | .cascade => s.tickCount / 512 - 1

/-- The indices follow the number of Ticks. -/
structure Clock (s : Wheel τ) : Prop where
  workIndex_eq : s.workIndex = s.pos % 512
  assistantIndex_eq : s.assistantIndex = s.turn % 64
  tickCount_pos : s.phase ≠ .tick → 0 < s.tickCount
  tickCount_mod : s.phase = .advanceAssistant ∨ s.phase = .cascade → s.tickCount % 512 = 0

theorem clock_init : (init τ).Clock :=
  ⟨rfl, by simp [init, turn], fun h => absurd rfl h, fun h => by simp [init] at h⟩

theorem foldl_put_frame (l : List (Entry τ)) (s : Wheel τ) :
    l.foldl (fun s x => s.put (.work (s.remainder x.task)) x) s =
      { s with
        bucket := (l.foldl (fun s x => s.put (.work (s.remainder x.task)) x) s).bucket } := by
  induction l generalizing s with
  | nil => rfl
  | cons x l ih =>
    rw [foldl_cons, ih]
    rfl

theorem cascade_eq (s : Wheel τ) :
    s.cascade = { s with phase := .tick, bucket := s.cascade.bucket } := by
  rw [cascade, foldl_put_frame]

/-- The indices keep up with the count of the Ticks. -/
theorem Clock.tickFunc (h : s.Clock) : s.tickFunc.Clock := by
  obtain ⟨hw, ha, hpos, hmod⟩ := h
  unfold Wheel.tickFunc
  split
  case h_1 hp =>
    simp only [pos, hp] at hw
    simp only [turn, hp] at ha
    exact ⟨hw, ha, fun _ => Nat.succ_pos _, fun h => by simp [tick] at h⟩
  case h_2 hp =>
    simp only [pos, hp] at hw
    simp only [turn, hp] at ha
    have h0 := hpos (by simp [hp])
    have hindex : getWorkWheelIndex (s.workIndex + 1) = s.tickCount % 512 := by
      rw [getWorkWheelIndex_eq_mod]
      omega
    by_cases hz : s.tickCount % 512 = 0
    · refine ⟨?_, ?_, fun _ => h0, fun _ => hz⟩
      · simp only [advance, hindex, hz, if_true, pos]
      · simp only [advance, hindex, hz, if_true, turn]
        omega
    · refine ⟨?_, ?_, fun _ => h0, fun h => ?_⟩
      · simp only [advance, hindex, hz, if_false, pos]
      · simp only [advance, hindex, hz, if_false, turn]
        omega
      · simp [advance, hindex, hz] at h
  case h_3 hp =>
    simp only [pos, hp] at hw
    simp only [turn, hp] at ha
    have h0 := hpos (by simp [hp])
    have hz := hmod (.inl hp)
    refine ⟨hw, ?_, fun _ => h0, fun _ => hz⟩
    simp only [advanceAssistant, getAssistantWheelIndex_eq_mod, turn]
    omega
  case h_4 hp =>
    simp only [pos, hp] at hw
    simp only [turn, hp] at ha
    rw [cascade_eq]
    exact ⟨hw, ha, fun h => absurd rfl h, fun h => by simp at h⟩

end Wheel

/-! ### The entries of the buckets -/

variable {b : Bucket}

namespace Wheel

variable {τ : Type*} [DecidableEq τ] {s : Wheel τ} {x : Entry τ} {n : ℕ}

/-- The entry lies once in the bucket `b` and nowhere else or, without `b`, nowhere at all. -/
def Only (s : Wheel τ) (x : Entry τ) (b : Option Bucket) : Prop :=
  ∀ b', (s.bucket b').count x = if b = some b' then 1 else 0

/-- The entry waits in some bucket. -/
def Pending (s : Wheel τ) (x : Entry τ) : Prop := ∃ b, x ∈ s.bucket b

/-- The values of `tick_count_` after the Ticks that dispatched the entry. -/
def firings (s : Wheel τ) (x : Entry τ) : List ℕ := (s.log.filter fun r => r.2 = x).map Prod.fst

/-- An entry in the bucket `b` will be dispatched at the Tick `n`: the bucket is the one of this
Tick and is less than a turn ahead, or the bucket is the one of the turn of this Tick and will be
moved down for this turn next. -/
def Due (s : Wheel τ) (x : Entry τ) (n : ℕ) : Bucket → Prop
  | .work i => i = n % 512 ∧ s.tickCount ≤ n ∧ n < s.tickCount + 512
  | .assistant j =>
    j = n / 512 % 64 ∧ s.remainder x.task = n % 512 ∧ s.cascaded < n / 512 ∧
      n / 512 ≤ s.cascaded + 64

theorem Only.pending (h : s.Only x (some b)) : s.Pending x :=
  ⟨b, count_pos_iff.mp (by rw [h b, if_pos rfl]; exact one_pos)⟩

theorem Only.of_clear {s' : Wheel τ} {b : Option Bucket} {c : Bucket} (h : s.Only x b)
    (hs' : s'.bucket = update s.bucket c []) :
    s'.Only x (if b = some c then none else b) := by
  intro b'
  rw [hs']
  by_cases hb' : b' = c
  · subst hb'
    rw [update_self, count_nil]
    by_cases hb : b = some b' <;> simp [hb]
  · rw [update_of_ne hb', h b']
    by_cases hb : b = some c <;> simp [hb, Ne.symm hb']

theorem count_alive (l : List (Entry τ)) :
    (s.alive l).count x = if s.expired x.task then 0 else l.count x := by
  cases hx : s.expired x.task with
  | true =>
    rw [if_pos rfl, count_eq_zero]
    intro hmem
    simp [alive, hx] at hmem
  | false => simp [alive, count_filter, hx]

theorem count_put (b b' : Bucket) (y : Entry τ) :
    ((s.put b y).bucket b').count x =
      (s.bucket b').count x + if b = b' ∧ y = x then 1 else 0 := by
  by_cases hb : b' = b
  · subst hb
    by_cases hy : y = x <;> simp [put, hy]
  · simp [put, update_of_ne hb, Ne.symm hb]

omit [DecidableEq τ] in
@[simp] theorem put_remainder (b : Bucket) (y : Entry τ) :
    (s.put b y).remainder = s.remainder := rfl

/-- Moving a list down adds its copies of an entry to the bucket of the remainder. -/
theorem count_foldl_put (l : List (Entry τ)) (b : Bucket) :
    ((l.foldl (fun s y => s.put (.work (s.remainder y.task)) y) s).bucket b).count x =
      (s.bucket b).count x + if Bucket.work (s.remainder x.task) = b then l.count x else 0 := by
  induction l generalizing s with
  | nil => simp
  | cons y l ih =>
    rw [foldl_cons, ih, count_put, put_remainder, count_cons]
    by_cases hy : y = x
    · subst hy
      by_cases hb : Bucket.work (s.remainder y.task) = b
      · simp [hb]
        omega
      · simp [hb]
    · simp [hy]

theorem firings_tick :
    s.tick.firings x = s.firings x ++
      List.replicate ((s.alive (s.bucket (.work s.workIndex))).count x) (s.tickCount + 1) := by
  have hmap : ∀ l : List (Entry τ),
      ((l.map fun y => (s.tickCount + 1, y)).filter fun r => r.2 = x).map Prod.fst =
        List.replicate (l.count x) (s.tickCount + 1) := by
    intro l
    rw [filter_map, map_map]
    induction l with
    | nil => rfl
    | cons y l ih =>
      by_cases hy : y = x <;> simp_all [replicate_succ]
  rw [firings, tick, filter_append, map_append, hmap, firings]

omit [DecidableEq τ] in
theorem Due.tickCount_le (hc : s.Clock) (h : s.Due x n b) : s.tickCount ≤ n := by
  cases b with
  | work i => exact h.2.1
  | assistant j =>
    obtain ⟨-, -, h₁, -⟩ := h
    unfold cascaded at h₁
    cases hp : s.phase <;> simp only [hp] at h₁
    · omega
    · omega
    · have := hc.tickCount_mod (.inl hp)
      omega
    · have := hc.tickCount_mod (.inr hp)
      omega

end Wheel

/-! ### Following one entry -/

/-- What the tick thread, an owner or an addition can do to the wheel in one step. -/
inductive Op (τ : Type*)
  | tickFunc
  | expire (t : τ)
  | setRemainder (t : τ) (r : ℕ)
  | push (b : Bucket) (t : τ)

variable {τ : Type*} [DecidableEq τ] {s : Wheel τ} {x : Entry τ} {n : ℕ}

/-- The effect of an operation. -/
def Op.apply (s : Wheel τ) : Op τ → Wheel τ
  | .tickFunc => s.tickFunc
  | .expire t => s.expire t
  | .setRemainder t r => s.setRemainder t r
  | .push b t => s.push b t

/-- The operations that end the life of a task or change where it goes when it is moved down. -/
def Op.Disturbs (t : τ) : Op τ → Prop
  | .expire t' => t' = t
  | .setRemainder t' _ => t' = t
  | _ => False

/-- The entry lies in no bucket, and was dispatched at the Ticks of the list. -/
structure Settled (x : Entry τ) (l : List ℕ) (s : Wheel τ) : Prop where
  only : s.Only x none
  firings_eq : s.firings x = l

/-- An entry that was put where it is due at the Tick `n`: it waits there, or it was dispatched,
once and at that Tick. -/
structure Tracked (x : Entry τ) (n : ℕ) (s : Wheel τ) : Prop where
  clock : s.Clock
  id_lt : x.id < s.inserted
  state : (∃ b, s.Only x (some b) ∧ s.Due x n b ∧ s.expired x.task = false ∧ s.firings x = []) ∨
    (Settled x [n + 1] s ∧ n < s.tickCount)

/-- **When a tracked entry is dispatched.** -/
theorem Tracked.firings_eq (h : Tracked x n s) :
    s.firings x = if n + 1 ≤ s.tickCount then [n + 1] else [] := by
  rcases h.state with ⟨b, -, hdue, -, hf⟩ | ⟨hdone, hlt⟩
  · have hle := hdue.tickCount_le h.clock
    rw [hf, if_neg (by omega)]
  · rw [hdone.firings_eq, if_pos (Nat.succ_le_of_lt hlt)]

/-- Where an entry lies after a bucket was moved down: the entries of the bucket whose tasks still
exist go to the bucket of their remainder, the other ones stay. -/
theorem Wheel.Only.cascade {b : Option Bucket} (h : s.Only x b)
    (hlive : b = none ∨ s.expired x.task = false) :
    s.cascade.Only x (if b = some (.assistant s.assistantIndex)
      then some (.work (s.remainder x.task)) else b) := by
  intro b'
  have hclear : ({ s with
      phase := .tick,
      bucket := update s.bucket (.assistant s.assistantIndex) [] } : Wheel τ).Only x _ :=
    h.of_clear rfl
  rw [Wheel.cascade, Wheel.count_foldl_put, Wheel.count_alive, h, hclear]
  rcases hlive with rfl | hlive
  · simp
  · by_cases hb : b = some (.assistant s.assistantIndex) <;> simp [hb, hlive]

theorem Wheel.Only.push {b : Option Bucket} (h : s.Only x b) (hid : x.id ≠ s.inserted)
    (c : Bucket) (t : τ) : (s.push c t).Only x b := by
  intro b'
  have hne : (⟨t, s.inserted⟩ : Entry τ) ≠ x := fun heq => hid (heq ▸ rfl)
  have hput := Wheel.count_put (s := s) (x := x) c b' ⟨t, s.inserted⟩
  rw [if_neg fun hc => hne hc.2, add_zero] at hput
  exact hput.trans (h b')

theorem Settled.apply {l : List ℕ} (h : Settled x l s) (op : Op τ)
    (hop : ∀ b t, op = .push b t → x.id ≠ s.inserted) : Settled x l (op.apply s) := by
  cases op with
  | tickFunc =>
    rw [Op.apply, Wheel.tickFunc]
    split
    · refine ⟨h.only.of_clear rfl, ?_⟩
      rw [Wheel.firings_tick, Wheel.count_alive, h.only, h.firings_eq]
      simp
    · exact ⟨h.only, h.firings_eq⟩
    · exact ⟨h.only, h.firings_eq⟩
    · exact ⟨h.only.cascade (.inl rfl), by rw [Wheel.cascade_eq]; exact h.firings_eq⟩
  | expire | setRemainder => exact ⟨h.only, h.firings_eq⟩
  | push c t => exact ⟨h.only.push (hop c t rfl) c t, h.firings_eq⟩

omit [DecidableEq τ] in
private theorem cascaded_tickFunc (h : s.Clock) (hp : s.phase = .advance ∨
    s.phase = .advanceAssistant) : s.tickFunc.cascaded = s.cascaded := by
  rcases hp with hp | hp
  · have h0 := h.tickCount_pos (by simp [hp])
    have hw := h.workIndex_eq
    simp only [Wheel.pos, hp] at hw
    simp only [Wheel.tickFunc, Wheel.cascaded, hp, Wheel.advance, getWorkWheelIndex_eq_mod]
    by_cases hz : (s.workIndex + 1) % 512 = 0
    · simp only [hz, if_true]
      omega
    · simp only [hz, if_false]
      omega
  · simp only [Wheel.tickFunc, Wheel.cascaded, hp, Wheel.advanceAssistant]

omit [DecidableEq τ] in
/-- An operation that leaves the buckets, the Ticks and the remainder of the task alone leaves the
entry where it is due. -/
private theorem Wheel.Due.congr {s' : Wheel τ} (h : s.Due x n b)
    (hcount : s'.tickCount = s.tickCount) (hcascaded : s'.cascaded = s.cascaded)
    (hrem : s'.remainder x.task = s.remainder x.task) : s'.Due x n b := by
  cases b with
  | work i => rwa [Wheel.Due, hcount]
  | assistant j => rwa [Wheel.Due, hrem, hcascaded]

section

variable (h : Tracked x n s) (honly : s.Only x (some b)) (hdue : s.Due x n b)
  (hlive : s.expired x.task = false) (hf : s.firings x = [])

include h honly hdue hlive hf

private theorem tracked_tick (hp : s.phase = .tick) : Tracked x n s.tick := by
  have hclock : s.tick.Clock := by simpa only [Wheel.tickFunc, hp] using h.clock.tickFunc
  have hw : s.workIndex = s.tickCount % 512 := by
    simpa only [Wheel.pos, hp] using h.clock.workIndex_eq
  have hfirings : s.tick.firings x =
      List.replicate ((s.bucket (.work s.workIndex)).count x) (s.tickCount + 1) := by
    rw [Wheel.firings_tick, hf, nil_append, Wheel.count_alive, hlive]
    rfl
  have honly' : s.tick.Only x _ := honly.of_clear rfl
  refine ⟨hclock, h.id_lt, ?_⟩
  by_cases hb : b = .work s.workIndex
  · subst hb
    obtain ⟨hi, h₁, h₂⟩ := hdue
    have hn : n = s.tickCount := by omega
    rw [if_pos rfl] at honly'
    rw [honly, if_pos rfl] at hfirings
    exact .inr ⟨⟨honly', by rw [hfirings, hn]; rfl⟩, by simp only [Wheel.tick]; omega⟩
  · have hb' : some b ≠ some (.work s.workIndex) := by simpa using hb
    rw [if_neg hb'] at honly'
    rw [honly, if_neg hb'] at hfirings
    refine .inl ⟨b, honly', ?_, hlive, hfirings⟩
    cases b with
    | work i =>
      obtain ⟨hi, h₁, h₂⟩ := hdue
      have hne : n ≠ s.tickCount := fun hn => hb (by rw [hi, hw, hn])
      exact ⟨hi, by simp only [Wheel.tick]; omega, by simp only [Wheel.tick]; omega⟩
    | assistant j =>
      obtain ⟨hj, hr, h₁, h₂⟩ := hdue
      simp only [Wheel.cascaded, hp] at h₁ h₂
      exact ⟨hj, hr, by simpa [Wheel.cascaded, Wheel.tick] using h₁,
        by simpa [Wheel.cascaded, Wheel.tick] using h₂⟩

/-- Moving a bucket down puts the entries that are due in the next turn where they are due. -/
private theorem tracked_cascade (hp : s.phase = .cascade) : Tracked x n s.cascade := by
  have hclock : s.cascade.Clock := by simpa only [Wheel.tickFunc, hp] using h.clock.tickFunc
  have ha : s.assistantIndex = s.tickCount / 512 % 64 := by
    simpa only [Wheel.turn, hp] using h.clock.assistantIndex_eq
  have h0 := h.clock.tickCount_pos (by simp [hp])
  have hmod := h.clock.tickCount_mod (.inr hp)
  have hframe := s.cascade_eq
  have honly' := honly.cascade (.inr hlive)
  have hlive' : s.cascade.expired x.task = false := by rw [hframe]; exact hlive
  have hf' : s.cascade.firings x = [] := by rw [hframe]; exact hf
  have hcount : s.cascade.tickCount = s.tickCount := by rw [hframe]
  refine ⟨hclock, by rw [hframe]; exact h.id_lt, .inl ?_⟩
  cases b with
  | work i =>
    rw [if_neg (by simp)] at honly'
    refine ⟨_, honly', ?_, hlive', hf'⟩
    rw [Wheel.Due, hcount]
    exact hdue
  | assistant j =>
    obtain ⟨hj, hr, h₁, h₂⟩ := hdue
    simp only [Wheel.cascaded, hp] at h₁ h₂
    by_cases hb : j = s.assistantIndex
    · rw [if_pos (by rw [hb]), hr] at honly'
      refine ⟨_, honly', ?_, hlive', hf'⟩
      rw [Wheel.Due, hcount]
      exact ⟨rfl, by omega, by omega⟩
    · have hrem : s.cascade.remainder = s.remainder := by rw [hframe]
      have hcascaded : s.cascade.cascaded = s.tickCount / 512 := by rw [hframe]; rfl
      rw [if_neg (by simpa using hb)] at honly'
      refine ⟨_, honly', ?_, hlive', hf'⟩
      rw [Wheel.Due, hrem, hcascaded]
      exact ⟨hj, hr, by omega, by omega⟩

private theorem tracked_tickFunc : Tracked x n s.tickFunc := by
  have hclock := h.clock.tickFunc
  have hcascaded := cascaded_tickFunc h.clock
  revert hclock hcascaded
  unfold Wheel.tickFunc
  split <;> rename_i hp <;> intro hclock hcascaded
  · exact tracked_tick h honly hdue hlive hf hp
  · exact ⟨hclock, h.id_lt,
      .inl ⟨b, honly, hdue.congr rfl (hcascaded (.inl hp)) rfl, hlive, hf⟩⟩
  · exact ⟨hclock, h.id_lt,
      .inl ⟨b, honly, hdue.congr rfl (hcascaded (.inr hp)) rfl, hlive, hf⟩⟩
  · exact tracked_cascade h honly hdue hlive hf hp

end

theorem Wheel.Clock.apply (h : s.Clock) (op : Op τ) : (op.apply s).Clock := by
  cases op with
  | tickFunc => exact h.tickFunc
  | expire | setRemainder | push => exact ⟨h.1, h.2, h.3, h.4⟩

theorem Wheel.inserted_le_apply (s : Wheel τ) (op : Op τ) :
    s.inserted ≤ (op.apply s).inserted := by
  cases op with
  | tickFunc =>
    rw [Op.apply, Wheel.tickFunc]
    split
    · exact le_rfl
    · exact le_rfl
    · exact le_rfl
    · rw [Wheel.cascade_eq]
  | expire | setRemainder => exact le_rfl
  | push => exact Nat.le_succ _

theorem Wheel.tickCount_le_apply (s : Wheel τ) (op : Op τ) :
    s.tickCount ≤ (op.apply s).tickCount := by
  cases op with
  | tickFunc =>
    rw [Op.apply, Wheel.tickFunc]
    split
    · exact Nat.le_succ _
    · exact le_rfl
    · exact le_rfl
    · rw [Wheel.cascade_eq]
  | expire | setRemainder | push => exact le_rfl

variable {op : Op τ}

theorem Wheel.expired_apply {t : τ} (hop : ¬op.Disturbs t) :
    (op.apply s).expired t = s.expired t := by
  cases op with
  | tickFunc =>
    rw [Op.apply, Wheel.tickFunc]
    split
    · rfl
    · rfl
    · rfl
    · rw [Wheel.cascade_eq]
  | expire t' => exact update_of_ne (fun h => hop h.symm) _ _
  | setRemainder | push => rfl

theorem Wheel.remainder_apply {t : τ} (hop : ¬op.Disturbs t) :
    (op.apply s).remainder t = s.remainder t := by
  cases op with
  | tickFunc =>
    rw [Op.apply, Wheel.tickFunc]
    split
    · rfl
    · rfl
    · rfl
    · rw [Wheel.cascade_eq]
  | setRemainder t' r => exact update_of_ne (fun h => hop h.symm) _ _
  | expire | push => rfl

theorem Wheel.Clock.pos_le_apply (h : s.Clock) (op : Op τ) : s.pos ≤ (op.apply s).pos := by
  cases op with
  | tickFunc =>
    have h0 := h.tickCount_pos
    rw [Op.apply, Wheel.tickFunc]
    split <;> rename_i hp <;> simp only [Wheel.pos, hp]
    · simp [Wheel.tick]
    · simp only [Wheel.advance]
      split <;> omega
    · simp [Wheel.advanceAssistant]
    · rw [Wheel.cascade_eq]
  | expire | setRemainder | push => exact le_rfl

/-- **An entry stays tracked** under every operation that does not disturb its task while it
waits. -/
theorem Tracked.apply (h : Tracked x n s) (op : Op τ)
    (hop : s.Pending x → ¬op.Disturbs x.task) : Tracked x n (op.apply s) := by
  have hid : x.id < (op.apply s).inserted := h.id_lt.trans_le (s.inserted_le_apply op)
  rcases h.state with ⟨b, honly, hdue, hlive, hf⟩ | ⟨hdone, hlt⟩
  · have hop := hop honly.pending
    cases op with
    | tickFunc => exact tracked_tickFunc h honly hdue hlive hf
    | expire t =>
      exact ⟨h.clock.apply _, hid, .inl ⟨b, honly, hdue.congr rfl rfl rfl,
        (Wheel.expired_apply hop).trans hlive, hf⟩⟩
    | setRemainder t r =>
      exact ⟨h.clock.apply _, hid, .inl ⟨b, honly, hdue.congr rfl rfl
        (Wheel.remainder_apply hop), hlive, hf⟩⟩
    | push c t =>
      exact ⟨h.clock.apply _, hid,
        .inl ⟨b, honly.push h.id_lt.ne c t, hdue.congr rfl rfl rfl, hlive, hf⟩⟩
  · exact ⟨h.clock.apply _, hid, .inr ⟨hdone.apply op fun _ _ _ => h.id_lt.ne,
      hlt.trans_le (s.tickCount_le_apply op)⟩⟩

theorem Tracked.pending_of_apply (h : Tracked x n s) (hp : (op.apply s).Pending x) :
    s.Pending x := by
  rcases h.state with ⟨b, honly, -⟩ | ⟨hdone, -⟩
  · exact honly.pending
  · obtain ⟨b, hb⟩ := hp
    have hzero := (hdone.apply op fun _ _ _ => h.id_lt.ne).only b
    rw [if_neg (by simp), count_eq_zero] at hzero
    exact absurd hb hzero

/-! ### Reachable wheels -/

/-- A wheel whose indices follow the Ticks and whose next insertion is a new one. -/
structure Wheel.WF (s : Wheel τ) : Prop where
  clock : s.Clock
  fresh : ∀ x : Entry τ, s.inserted ≤ x.id → Settled x [] s

theorem Wheel.wf_init : (Wheel.init τ).WF :=
  ⟨Wheel.clock_init, fun _ _ => ⟨fun _ => rfl, rfl⟩⟩

theorem Wheel.WF.apply (h : s.WF) (op : Op τ) : (op.apply s).WF := by
  refine ⟨h.clock.apply op, fun x hx => ?_⟩
  refine (h.fresh x ((s.inserted_le_apply op).trans hx)).apply op fun b t hop => ?_
  subst hop
  exact (Nat.lt_of_succ_le hx).ne'

/-- **A new entry is tracked** from the bucket where it is due. -/
theorem Wheel.WF.tracked_push (h : s.WF) {c : Bucket} {t : τ}
    (hdue : s.Due ⟨t, s.inserted⟩ n c) (hlive : s.expired t = false) :
    Tracked ⟨t, s.inserted⟩ n (s.push c t) := by
  obtain ⟨honly, hf⟩ := h.fresh ⟨t, s.inserted⟩ le_rfl
  refine ⟨h.clock.apply (.push c t), Nat.lt_succ_self _, .inl ⟨c, fun b => ?_, ?_, hlive, hf⟩⟩
  · have hput := Wheel.count_put (s := s) (x := ⟨t, s.inserted⟩) c b ⟨t, s.inserted⟩
    rw [honly b] at hput
    simpa [Wheel.push] using hput
  · exact hdue.congr rfl rfl rfl

end Cyber.TimingWheel
