import Notebook.Container.Window
import Notebook.Interleaving.Threads

/-!
# The buffer of a channel and its reader

`CacheBuffer` (`data/cache_buffer.h`) keeps the last messages of a channel in a ring of `size + 1`
slots; when it is full, `Fill` overwrites the oldest one. A `DataVisitor` over one channel
(`data/data_visitor.h`) reads it with `TryFetch`, which passes its own position
`next_msg_index_` to `ChannelBuffer::Fetch` (`data/channel_buffer.h`). The first message that is
fetched is the newest one, and so is the one after an overflow; otherwise the reader goes on to the
next position.

The counters are 64 bits wide and `0` stands for an empty buffer and for a reader that has not
fetched anything.

## Main definitions

* `CacheBuffer.Holds` — the buffer keeps the last messages of a sequence.
* `Reading` — a visitor with the messages that were filled and those that it has returned.

## Main results

* `Holds.fill`, `Holds.fetch_eq_some` — what `Fill` and `Fetch` do to the sequence.
* `delivery_order` — the order of the returned messages, for fewer than `2 ^ 64 - 1` messages.
* `fetched_twice` — after as many messages one is fetched twice.
-/

open Container Interleaving Function List Option

namespace Cyber

/-- The difference of two `uint64_t`. -/
def sub64 (a b : ℕ) : ℕ := uint64 (a + (2 ^ 64 - b))

theorem sub64_eq {a b : ℕ} (hb : b ≤ a) (ha : a < 2 ^ 64) : sub64 a b = a - b := by
  unfold sub64 uint64
  omega

/-- `CacheBuffer`, without a fusion callback. -/
structure CacheBuffer (M : Type*) where
  head : ℕ
  tail : ℕ
  capacity : ℕ
  buffer : ℕ → M

namespace CacheBuffer

variable {M : Type*}

/-- The constructor, after which every slot holds a value-initialised element. -/
def new [Inhabited M] (size : ℕ) : CacheBuffer M where
  head := 0
  tail := 0
  capacity := uint64 (size + 1)
  buffer := fun _ => default

variable (b : CacheBuffer M)

/-- `GetIndex` -/
def getIndex (pos : ℕ) : ℕ := pos % b.capacity

/-- `at` -/
def atPos (pos : ℕ) : M := b.buffer (b.getIndex pos)

/-- `Head` -/
def getHead : ℕ := uint64 (b.head + 1)

/-- `Empty` -/
def empty : Bool := b.tail = 0

/-- `Full` -/
def full : Bool := sub64 b.capacity 1 = sub64 b.tail b.head

/-- `Fill` -/
def fill (value : M) : CacheBuffer M :=
  if b.full then
    { b with
      buffer := update b.buffer (b.getIndex b.head) value
      head := uint64 (b.head + 1)
      tail := uint64 (b.tail + 1) }
  else
    { b with
      buffer := update b.buffer (b.getIndex (uint64 (b.tail + 1))) value
      tail := uint64 (b.tail + 1) }

/-- `ChannelBuffer::Fetch`: the value of `*index` afterwards and the message, if it succeeds. -/
def fetch (index : ℕ) : Option (ℕ × M) :=
  if b.empty then none
  else if index = 0 then some (b.tail, b.atPos b.tail)
  else if index = uint64 (b.tail + 1) then none
  else if index < b.getHead then some (b.tail, b.atPos b.tail)
  else some (index, b.atPos index)

/-- `ChannelBuffer::Latest` -/
def latest : Option M := if b.empty then none else some (b.atPos b.tail)

/-! ### The end of the sequence of messages -/

/-- A buffer for `size` messages keeps the last ones of the sequence `l`. -/
structure Holds (size : ℕ) (l : List M) (b : CacheBuffer M) : Prop where
  capacity_eq : b.capacity = size + 1
  tail_eq : b.tail = l.length
  head_eq : b.head = l.length - size
  window : Window (size + 1) (l.length - size) l b.buffer

variable {b} {size : ℕ} {l : List M}

theorem holds_new [Inhabited M] (hsize : size + 1 < 2 ^ 64) :
    Holds size [] (new (M := M) size) where
  capacity_eq := uint64_eq_self hsize
  tail_eq := rfl
  head_eq := (Nat.zero_sub size).symm
  window := window_nil

section

variable (h : Holds size l b)

include h

theorem Holds.full_iff (hsize : size + 1 < 2 ^ 64) (hl : l.length < 2 ^ 64) :
    b.full ↔ size ≤ l.length := by
  rw [full, h.capacity_eq, h.tail_eq, h.head_eq, sub64_eq (by omega) hsize,
    sub64_eq (Nat.sub_le _ _) hl, decide_eq_true_eq]
  omega

/-- **`Fill` appends to the sequence.** -/
theorem Holds.fill (hsize : size + 1 < 2 ^ 64) (hl : l.length + 1 < 2 ^ 64)
    (value : M) : Holds size (l ++ [value]) (b.fill value) := by
  have hlen : (l ++ [value]).length = l.length + 1 := by simp
  have htail : uint64 (b.tail + 1) = l.length + 1 := by
    rw [h.tail_eq, uint64_eq_self hl]
  have hwindow : Window (size + 1) (l.length + 1 - size) (l ++ [value])
      (update b.buffer ((l.length + 1) % (size + 1)) value) :=
    h.window.push (by omega) (by omega) value
  by_cases hfull : b.full
  · have hle := (h.full_iff hsize (by omega)).mp hfull
    -- the oldest message lives in the slot of the new one
    have hslot : b.getIndex b.head = (l.length + 1) % (size + 1) := by
      have hturn : l.length - size + (size + 1) = l.length + 1 := by omega
      rw [getIndex, h.capacity_eq, h.head_eq, ← Nat.add_mod_right, hturn]
    rw [CacheBuffer.fill, if_pos hfull]
    refine ⟨h.capacity_eq, htail.trans hlen.symm, ?_, ?_⟩
    · have hhead : uint64 (b.head + 1) = l.length + 1 - size := by
        rw [h.head_eq, uint64_eq_self (by omega)]
        omega
      rw [hlen, ← hhead]
    · rw [hlen, hslot]
      exact hwindow
  · have hlt : ¬size ≤ l.length := fun hle => hfull ((h.full_iff hsize (by omega)).mpr hle)
    rw [CacheBuffer.fill, if_neg hfull]
    refine ⟨h.capacity_eq, htail.trans hlen.symm, ?_, ?_⟩
    · rw [hlen, h.head_eq]
      omega
    · rw [hlen, htail, getIndex, h.capacity_eq]
      exact hwindow

theorem Holds.atPos_eq {p : ℕ} (hlt : l.length - size < p)
    (hle : p ≤ l.length) : l[p - 1]? = some (b.atPos p) := by
  rw [atPos, getIndex, h.capacity_eq]
  exact h.window p hlt hle

theorem Holds.empty_iff : b.empty ↔ l = [] := by
  rw [empty, h.tail_eq, decide_eq_true_eq, length_eq_zero_iff]

/-- **`Latest` is the last message of the sequence.** -/
theorem Holds.latest_eq (hsize : 1 ≤ size) : b.latest = l.getLast? := by
  by_cases hempty : b.empty
  · rw [latest, if_pos hempty, h.empty_iff.mp hempty, getLast?_nil]
  · have hpos : 0 < l.length := by
      rw [length_pos_iff]
      exact fun hnil => hempty (h.empty_iff.mpr hnil)
    rw [latest, if_neg hempty, h.tail_eq, getLast?_eq_getElem?]
    exact (h.atPos_eq (by omega) le_rfl).symm

end

theorem fetch_zero : b.fetch 0 = b.latest.map (Prod.mk b.tail) := by
  rw [fetch, latest, if_pos rfl]
  split_ifs <;> rfl

theorem Holds.fetch_eq_none_iff (h : Holds size l b) (hl : l.length + 1 < 2 ^ 64) (index : ℕ) :
    b.fetch index = none ↔ l = [] ∨ index = l.length + 1 := by
  have htail : uint64 (b.tail + 1) = l.length + 1 := by rw [h.tail_eq, uint64_eq_self hl]
  rw [fetch, htail]
  by_cases hempty : b.empty
  · rw [if_pos hempty]
    exact iff_of_true rfl (.inl (h.empty_iff.mp hempty))
  · have hne : l ≠ [] := fun hnil => hempty (h.empty_iff.mpr hnil)
    rw [if_neg hempty]
    split_ifs with hzero hend hold
    · exact iff_of_false (by simp) fun h => h.elim hne (by omega)
    · exact iff_of_true rfl (.inr hend)
    · exact iff_of_false (by simp) (by tauto)
    · exact iff_of_false (by simp) (by tauto)

/-- **What `Fetch` returns**: a message that is not before the index, namely the one at the index
if the buffer still keeps it, and else the newest. -/
theorem Holds.fetch_eq_some (h : Holds size l b) (hsize : 1 ≤ size) (hl : l.length + 1 < 2 ^ 64)
    {index i : ℕ} {m : M} (hindex : index ≤ l.length + 1) (hf : b.fetch index = some (i, m)) :
    index ≤ i ∧ 0 < i ∧ i ≤ l.length ∧ l[i - 1]? = some m ∧
      i = if 0 < index ∧ l.length < index + size then index else l.length := by
  have htail : uint64 (b.tail + 1) = l.length + 1 := by rw [h.tail_eq, uint64_eq_self hl]
  have hhead : b.getHead = l.length - size + 1 := by
    rw [getHead, h.head_eq, uint64_eq_self (by omega)]
  rw [fetch, htail, hhead, h.tail_eq] at hf
  by_cases hempty : b.empty
  · rw [if_pos hempty] at hf
    cases hf
  · have hpos : 0 < l.length := by
      rw [length_pos_iff]
      exact fun hnil => hempty (h.empty_iff.mpr hnil)
    rw [if_neg hempty] at hf
    split_ifs at hf with hzero hend hold
    · -- the first fetch
      cases hf
      exact ⟨by omega, hpos, le_rfl, h.atPos_eq (by omega) le_rfl, (if_neg (by omega)).symm⟩
    · -- the message at the index was overwritten
      cases hf
      exact ⟨by omega, hpos, le_rfl, h.atPos_eq (by omega) le_rfl, (if_neg (by omega)).symm⟩
    · cases hf
      exact ⟨le_rfl, by omega, by omega, h.atPos_eq (by omega) (by omega),
        (if_pos (by omega)).symm⟩

end CacheBuffer

/-! ### The reader -/

/-- `DataVisitor` of one channel. -/
structure DataVisitor (M : Type*) where
  buffer : CacheBuffer M
  nextMsgIndex : ℕ

/-- `DataVisitor::TryFetch`: the position of the message that is fetched, the message and the
visitor afterwards, if it succeeds. -/
def DataVisitor.tryFetch {M : Type*} (v : DataVisitor M) : Option (ℕ × M × DataVisitor M) :=
  (v.buffer.fetch v.nextMsgIndex).map fun x =>
    (x.1, x.2, { v with nextMsgIndex := uint64 (x.1 + 1) })

/-- A visitor with the messages that were filled into its buffer, and the messages that it has
returned with their positions. -/
structure Reading (M : Type*) where
  visitor : DataVisitor M
  filled : List M
  returned : List (ℕ × M)

namespace Reading

variable {M : Type*}

/-- A call of `Fill` or of `TryFetch`. -/
inductive Event (M : Type*)
  | fill (value : M)
  | tryFetch
deriving DecidableEq, Repr

/-- `Fill` -/
def fill (s : Reading M) (value : M) : Reading M :=
  { s with
    visitor := { s.visitor with buffer := s.visitor.buffer.fill value }
    filled := s.filled ++ [value] }

/-- `TryFetch` -/
def tryFetch (s : Reading M) : Reading M :=
  match s.visitor.tryFetch with
  | none => s
  | some (index, m, visitor) => { s with visitor, returned := s.returned ++ [(index, m)] }

/-- The effect of a call. -/
def step (s : Reading M) : Event M → Reading M
  | .fill value => s.fill value
  | .tryFetch => s.tryFetch

/-- A new visitor with a queue of `size` messages. -/
def new [Inhabited M] (size : ℕ) : Reading M := ⟨⟨.new size, 0⟩, [], []⟩

/-- A sequence of calls. -/
def run (s : Reading M) (es : List (Event M)) : Reading M := es.foldl step s

/-- The messages that are filled by a sequence of calls. -/
def fills (es : List (Event M)) : List M :=
  es.filterMap fun
    | .fill value => some value
    | .tryFetch => none

/-- The position of the last message returned, or `0`. -/
def last (returned : List (ℕ × M)) : ℕ := (returned.getLast?.map Prod.fst).getD 0

/-- The invariant of a visitor with a queue of `size` messages. -/
structure Inv (size : ℕ) (s : Reading M) : Prop where
  holds : s.visitor.buffer.Holds size s.filled
  next_eq : s.visitor.nextMsgIndex =
    if last s.returned = 0 then 0 else last s.returned + 1
  last_le : last s.returned ≤ s.filled.length
  le_last : ∀ x ∈ s.returned, x.1 ≤ last s.returned
  increasing : (s.returned.map Prod.fst).Pairwise (· < ·)
  value : ∀ x ∈ s.returned, 0 < x.1 ∧ s.filled[x.1 - 1]? = some x.2

variable {size : ℕ} {s : Reading M}

theorem inv_new [Inhabited M] (hsize : size + 1 < 2 ^ 64) : Inv size (new (M := M) size) where
  holds := CacheBuffer.holds_new hsize
  next_eq := rfl
  last_le := le_rfl
  le_last := by simp [new]
  increasing := List.Pairwise.nil
  value := by simp [new]

-- a visitor taken apart keeps the conversion from comparing the two buffers
theorem fill_mk (v : DataVisitor M) (filled : List M) (returned : List (ℕ × M)) (value : M) :
    fill ⟨v, filled, returned⟩ value =
      ⟨⟨v.buffer.fill value, v.nextMsgIndex⟩, filled ++ [value], returned⟩ := rfl

theorem filled_fill (value : M) : (s.fill value).filled = s.filled ++ [value] := by
  obtain ⟨v, filled, returned⟩ := s
  rw [fill_mk]

theorem filled_tryFetch : s.tryFetch.filled = s.filled := by
  unfold tryFetch
  split <;> rfl

theorem Inv.fill (h : Inv size s) (hsize : size + 1 < 2 ^ 64) (hl : s.filled.length + 1 < 2 ^ 64)
    (value : M) : Inv size (s.fill value) := by
  obtain ⟨⟨buffer, nextMsgIndex⟩, filled, returned⟩ := s
  obtain ⟨hholds, hnext, hle, hlast, hincreasing, hvalue⟩ := h
  simp only at hholds hnext hle hlast hincreasing hvalue hl
  rw [fill_mk]
  refine ⟨?_, hnext, hle.trans (by simp), hlast, hincreasing, fun x hx => ?_⟩
  · simpa only using hholds.fill hsize hl value
  · exact ⟨(hvalue x hx).1, getElem?_mono (prefix_append _ _) (hvalue x hx).2⟩

theorem Inv.tryFetch_eq_none_iff (h : Inv size s) (hl : s.filled.length + 1 < 2 ^ 64) :
    s.visitor.tryFetch = none ↔ last s.returned = s.filled.length := by
  have hlast := h.last_le
  rw [DataVisitor.tryFetch, map_eq_none_iff, h.holds.fetch_eq_none_iff hl, h.next_eq,
    ← length_eq_zero_iff]
  by_cases hzero : last s.returned = 0
  · rw [if_pos hzero]
    omega
  · rw [if_neg hzero]
    omega

/-- **What `TryFetch` returns**: the message after the last one if there was one and no more than
`size` messages are unread, and else the newest. -/
theorem Inv.tryFetch_eq_some (h : Inv size s) (hsize : 1 ≤ size)
    (hl : s.filled.length + 1 < 2 ^ 64) {i : ℕ} {m : M} {v : DataVisitor M}
    (hf : s.visitor.tryFetch = some (i, m, v)) :
    last s.returned < i ∧ i ≤ s.filled.length ∧ s.filled[i - 1]? = some m ∧
      v = { s.visitor with nextMsgIndex := i + 1 } ∧
      i = if 0 < last s.returned ∧ s.filled.length - last s.returned ≤ size then
        last s.returned + 1 else s.filled.length := by
  obtain ⟨⟨i', m'⟩, hfetch, heq⟩ := map_eq_some_iff.mp hf
  simp only [Prod.mk.injEq] at heq
  obtain ⟨rfl, rfl, rfl⟩ := heq
  have hlast := h.last_le
  have hindex : s.visitor.nextMsgIndex ≤ s.filled.length + 1 := by
    rw [h.next_eq]
    split_ifs <;> omega
  obtain ⟨hle, hpos, hlen, hm, hnext⟩ := h.holds.fetch_eq_some hsize hl hindex hfetch
  rw [h.next_eq] at hle hnext
  refine ⟨by split_ifs at hle <;> omega, hlen, hm, ?_, ?_⟩
  · rw [uint64_eq_self (by omega)]
  · rw [hnext]
    by_cases hzero : last s.returned = 0
    · rw [if_pos hzero, if_neg (by omega), if_neg (by omega)]
    · rw [if_neg hzero]
      exact if_congr (by omega) rfl rfl

theorem Inv.tryFetch (h : Inv size s) (hsize : 1 ≤ size) (hl : s.filled.length + 1 < 2 ^ 64) :
    Inv size s.tryFetch := by
  cases hf : s.visitor.tryFetch with
  | none => rwa [Reading.tryFetch, hf]
  | some x =>
    obtain ⟨i, m, v⟩ := x
    obtain ⟨hlt, hle, hm, rfl, -⟩ := h.tryFetch_eq_some hsize hl hf
    rw [Reading.tryFetch, hf]
    have hlast : last (s.returned ++ [(i, m)]) = i := by simp [last]
    refine ⟨h.holds, ?_, ?_, ?_, ?_, ?_⟩
    · rw [hlast, if_neg (by omega)]
    · rwa [hlast]
    · rw [hlast]
      refine forall_mem_append.mpr ⟨fun x hx => (h.le_last x hx).trans hlt.le, ?_⟩
      exact forall_mem_singleton.mpr le_rfl
    · rw [map_append, pairwise_append]
      refine ⟨h.increasing, pairwise_singleton _ _, fun p hp q hq => ?_⟩
      obtain ⟨x, hx, rfl⟩ := mem_map.mp hp
      obtain rfl := mem_singleton.mp hq
      exact (h.le_last x hx).trans_lt hlt
    · refine forall_mem_append.mpr ⟨h.value, ?_⟩
      exact forall_mem_singleton.mpr ⟨by omega, hm⟩

theorem run_cons (e : Event M) (es : List (Event M)) : s.run (e :: es) = (s.step e).run es := rfl

/-- **Runs.** What a sequence of calls fills, and the invariant. -/
theorem Inv.run (h : Inv size s) (hsize : 1 ≤ size) (hsize' : size + 1 < 2 ^ 64)
    {es : List (Event M)} (hl : s.filled.length + (fills es).length + 1 < 2 ^ 64) :
    Inv size (s.run es) ∧ (s.run es).filled = s.filled ++ fills es := by
  induction es generalizing s with
  | nil => exact ⟨h, (append_nil _).symm⟩
  | cons e es ih =>
    rw [run_cons]
    cases e with
    | fill value =>
      have hfills : fills (.fill value :: es) = value :: fills es := rfl
      rw [hfills, length_cons] at hl
      have hrest := ih (h.fill hsize' (by omega) value) (by
        rw [filled_fill, length_append, length_singleton]
        omega)
      rwa [filled_fill, append_assoc, singleton_append, ← hfills] at hrest
    | tryFetch =>
      have hfills : fills (.tryFetch :: es) = fills es := rfl
      rw [hfills] at hl ⊢
      have hrest := ih (h.tryFetch hsize (by omega)) (by rwa [filled_tryFetch])
      rwa [filled_tryFetch] at hrest

/-- **Delivery order.** For every queue size of at least `1`, after every sequence of calls with
fewer than `2 ^ 64 - 1` messages filled: the messages returned were filled at increasing positions,
each is the message filled at its position, `TryFetch` fails exactly when nothing was filled since
the last one (or ever), and if no more than `size` messages are unread it returns the next one. -/
theorem delivery_order [Inhabited M] (size : ℕ) (hsize : 1 ≤ size) (hsize' : size < 2 ^ 32)
    (es : List (Event M)) (hfills : (fills es).length < 2 ^ 64 - 1) :
    let s := (new size).run es
    s.filled = fills es ∧ (s.returned.map Prod.fst).Pairwise (· < ·) ∧
      (∀ x ∈ s.returned, 0 < x.1 ∧ s.filled[x.1 - 1]? = some x.2) ∧
      (s.visitor.tryFetch = none ↔ last s.returned = s.filled.length) ∧
      (0 < last s.returned → last s.returned < s.filled.length →
        s.filled.length - last s.returned ≤ size →
          ∃ m v, s.visitor.tryFetch = some (last s.returned + 1, m, v) ∧
            s.filled[last s.returned]? = some m) := by
  intro s
  have hsize₂ : size + 1 < 2 ^ 64 := by omega
  have hnew : Inv size (new size : Reading M) := inv_new hsize₂
  have hfills' : (new size : Reading M).filled.length + (fills es).length + 1 < 2 ^ 64 := by
    simp only [new, length_nil]
    omega
  obtain ⟨h, hfilled⟩ := hnew.run hsize hsize₂ hfills'
  have hl : s.filled.length + 1 < 2 ^ 64 := by rwa [hfilled, length_append]
  refine ⟨hfilled, h.increasing, h.value, h.tryFetch_eq_none_iff hl, fun hpos hlt hunread => ?_⟩
  cases hf : s.visitor.tryFetch with
  | none => exact absurd ((h.tryFetch_eq_none_iff hl).mp hf) hlt.ne
  | some x =>
    obtain ⟨i, m, v⟩ := x
    obtain ⟨-, -, hm, -, hnext⟩ := h.tryFetch_eq_some hsize hl hf
    rw [if_pos ⟨hpos, hunread⟩] at hnext
    subst hnext
    exact ⟨m, v, rfl, hm⟩

theorem delivery_order_of_overflow :
    let es : List (Event ℕ) := [.fill 7, .tryFetch, .fill 8, .fill 9, .tryFetch, .tryFetch]
    let s : Reading ℕ := (new 2).run es
    s.returned = [(1, 7), (2, 8), (3, 9)] ∧
      (s.visitor.tryFetch = none ↔ last s.returned = s.filled.length) := by
  refine ⟨by decide +kernel, ?_⟩
  exact (delivery_order 2 (by decide) (by decide) _ (by decide)).2.2.2.1

/-! ### More messages than positions -/

theorem exists_run_fills [Inhabited M] (hsize : size + 1 < 2 ^ 64) (value : M) {n : ℕ}
    (hn : n < 2 ^ 64) : ∃ buffer, (new size).run (List.replicate n (.fill value)) =
      ⟨⟨buffer, 0⟩, List.replicate n value, []⟩ ∧
      buffer.Holds size (List.replicate n value) := by
  induction n with
  | zero => exact ⟨.new size, rfl, CacheBuffer.holds_new hsize⟩
  | succ n ih =>
    obtain ⟨buffer, hrun, hholds⟩ := ih (by omega)
    refine ⟨buffer.fill value, ?_, ?_⟩
    · rw [run] at hrun
      rw [run, replicate_succ', foldl_concat, hrun, step, fill_mk,
        replicate_succ']
    · rw [replicate_succ']
      exact hholds.fill hsize (by rwa [length_replicate]) value

/-- The position after the last one of a `uint64_t` is `0`, which stands for a reader that has not
fetched anything. -/
theorem tryFetch_wrap {buffer : CacheBuffer M} {filled : List M} {returned : List (ℕ × M)} {m : M}
    (h : buffer.Holds size filled) (hsize : 1 ≤ size) (hl : filled.length + 1 = 2 ^ 64)
    (hm : filled.getLast? = some m) : tryFetch ⟨⟨buffer, 0⟩, filled, returned⟩ =
      ⟨⟨buffer, 0⟩, filled, returned ++ [(filled.length, m)]⟩ := by
  have hfetch : buffer.fetch 0 = some (filled.length, m) := by
    rw [CacheBuffer.fetch_zero, h.latest_eq hsize, hm, h.tail_eq, map_some]
  have hwrap : uint64 (filled.length + 1) = 0 := by
    rw [hl, uint64, Nat.mod_self]
  have hvisitor : DataVisitor.tryFetch ⟨buffer, 0⟩ = some (filled.length, m, ⟨buffer, 0⟩) := by
    rw [DataVisitor.tryFetch, hfetch, map_some, hwrap]
  rw [tryFetch, hvisitor]

theorem run_concat_two (es : List (Event M)) :
    s.run (es ++ [Event.tryFetch, .tryFetch]) = (s.run es).tryFetch.tryFetch := by
  rw [run, foldl_append]
  rfl

/-- After `2 ^ 64 - 1` messages the newest one is returned by every call of `TryFetch`. -/
theorem returned_wrap [Inhabited M] (m : M) :
    ((new 1).run (List.replicate (2 ^ 64 - 1) (Event.fill m) ++
      [Event.tryFetch, .tryFetch])).returned =
      [(2 ^ 64 - 1, m), (2 ^ 64 - 1, m)] := by
  obtain ⟨buffer, hrun, hholds⟩ := exists_run_fills (by decide : 1 + 1 < 2 ^ 64) m
    (show 2 ^ 64 - 1 < 2 ^ 64 by decide)
  generalize hfilled : List.replicate (2 ^ 64 - 1) m = filled at hrun hholds
  have hlen : filled.length = 2 ^ 64 - 1 := by rw [← hfilled, length_replicate]
  have hlast : filled.getLast? = some m := by
    rw [← hfilled, getLast?_replicate, if_neg (by decide)]
  rw [run_concat_two, hrun, tryFetch_wrap hholds le_rfl (by omega) hlast,
    tryFetch_wrap hholds le_rfl (by omega) hlast, hlen]
  rfl

/-- **A message that is fetched twice.** -/
theorem fetched_twice : ∃ s : Reading ℕ,
    s = (new 1).run (List.replicate (2 ^ 64 - 1) (.fill 7) ++ [.tryFetch, .tryFetch]) ∧
      s.returned = [(2 ^ 64 - 1, 7), (2 ^ 64 - 1, 7)] ∧
      ¬(s.returned.map Prod.fst).Pairwise (· < ·) := by
  refine ⟨_, rfl, returned_wrap 7, ?_⟩
  rw [returned_wrap]
  simp

end Reading

end Cyber
