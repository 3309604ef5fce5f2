import Notebook.Cyber.Data.CacheBuffer

/-!
# Fetching several messages

`ChannelBuffer::FetchMulti` (`data/channel_buffer.h`) appends the newest messages of a channel to a
vector. It takes their number from the size of the buffer and walks over the absolute positions
from `Tail() - num + 1` to `Tail()`.

The loop ends because the position after `Tail()` is larger than `Tail()`. It is not if `Tail()` is
the last `uint64_t`: then the loop never ends.
-/

open Container Interleaving List Option

namespace Cyber

namespace CacheBuffer

variable {M : Type*}

section

variable (b : CacheBuffer M)

/-- `Size` -/
def size : ℕ := sub64 b.tail b.head

/-- The loop of `FetchMulti` from a position on. There is no result if it has not ended after
`fuel` rounds. -/
def fetchLoop : ℕ → ℕ → List M → Option (List M)
  | 0, index, vec => if index ≤ b.tail then none else some vec
  | fuel + 1, index, vec =>
    if index ≤ b.tail then fetchLoop fuel (uint64 (index + 1)) (vec ++ [b.atPos index])
    else some vec

/-- `ChannelBuffer::FetchMulti`: its result and the vector afterwards. -/
def fetchMulti (fuel fetchSize : ℕ) (vec : List M) : Option (Bool × List M) :=
  if b.empty then some (false, vec)
  else
    let num := min b.size fetchSize
    (b.fetchLoop fuel (uint64 (sub64 b.tail num + 1)) vec).map (Prod.mk true)

end

variable {b : CacheBuffer M} {size : ℕ} {l : List M}

/-! ### The messages at the end -/

theorem Holds.size_eq (h : Holds size l b) (hl : l.length < 2 ^ 64) :
    b.size = min size l.length := by
  rw [CacheBuffer.size, h.tail_eq, h.head_eq, sub64_eq (Nat.sub_le _ _) hl]
  omega

/-- **The loop appends the last `n` messages**, if the buffer keeps as many. -/
theorem Holds.fetchLoop_eq (h : Holds size l b) (hl : l.length + 1 < 2 ^ 64) {n fuel : ℕ}
    (hn : n ≤ min size l.length) (hfuel : n ≤ fuel) (vec : List M) :
    b.fetchLoop fuel (l.length - n + 1) vec = some (vec ++ l.drop (l.length - n)) := by
  induction n generalizing fuel vec with
  | zero =>
    have hend : ¬l.length - 0 + 1 ≤ b.tail := by
      rw [h.tail_eq]
      omega
    rw [Nat.sub_zero, drop_length, append_nil]
    cases fuel with
    | zero | succ => exact if_neg hend
  | succ n ih =>
    obtain ⟨fuel, rfl⟩ : ∃ k, fuel = k + 1 := Nat.exists_eq_succ_of_ne_zero (by omega)
    have hpos : l.length - (n + 1) + 1 = l.length - n := by omega
    have hlt : l.length - (n + 1) < l.length := by omega
    -- the message at this position is the next one of the suffix
    have hmsg : l[l.length - (n + 1)] = b.atPos (l.length - n) := by
      have hat := h.atPos_eq (p := l.length - n) (by omega) (Nat.sub_le _ _)
      rw [← hpos, Nat.add_sub_cancel, getElem?_eq_getElem hlt] at hat
      rw [some.inj hat, hpos]
    have hle : l.length - n ≤ b.tail := by
      rw [h.tail_eq]
      omega
    rw [hpos, fetchLoop, if_pos hle, uint64_eq_self (by omega),
      ih (by omega) (Nat.le_of_succ_le_succ hfuel), drop_eq_getElem_cons hlt, hmsg, hpos,
      append_assoc, singleton_append]

theorem Holds.fetchMulti_eq (h : Holds size l b) (hl : l.length + 1 < 2 ^ 64) {fuel : ℕ}
    (hfuel : size ≤ fuel) (fetchSize : ℕ) (vec : List M) :
    b.fetchMulti fuel fetchSize vec = some (if l = [] then (false, vec) else
      (true, vec ++ l.drop (l.length - min fetchSize (min size l.length)))) := by
  by_cases hempty : b.empty
  · rw [fetchMulti, if_pos hempty, if_pos (h.empty_iff.mp hempty)]
  · have hnum : min b.size fetchSize = min fetchSize (min size l.length) := by
      rw [h.size_eq (by omega), min_comm]
    have hindex : uint64 (sub64 b.tail (min fetchSize (min size l.length)) + 1) =
        l.length - min fetchSize (min size l.length) + 1 := by
      rw [h.tail_eq, sub64_eq (by omega) (by omega), uint64_eq_self (by omega)]
    rw [fetchMulti, if_neg hempty, if_neg fun hnil => hempty (h.empty_iff.mpr hnil)]
    dsimp only
    rw [hnum, hindex, h.fetchLoop_eq hl (by omega) (by omega), map_some]

/-! ### Sequences of fills -/

/-- **Fills.** A new buffer keeps the end of what is filled. -/
theorem holds_foldl_fill [Inhabited M] (hsize : size + 1 < 2 ^ 64) (hl : l.length < 2 ^ 64) :
    Holds size l (l.foldl CacheBuffer.fill (new size)) := by
  induction l using List.reverseRecOn with
  | nil => exact holds_new hsize
  | append_singleton l value ih =>
    rw [length_append, length_singleton] at hl
    rw [foldl_append, foldl_cons, foldl_nil]
    exact (ih (by omega)).fill hsize hl value

/-- **Several messages at once.** For every buffer size of at least `1` and every sequence of fewer
than `2 ^ 64 - 1` fills, `FetchMulti` fails exactly if nothing was filled, and otherwise appends
the last `min fetchSize size` of the messages filled, or all if there are not as many, from the
oldest to the newest. `Latest` gives the last one. -/
theorem fetchMulti_fills [Inhabited M] (size : ℕ) (hsize : 1 ≤ size) (hsize' : size + 1 < 2 ^ 64)
    (l : List M) (hl : l.length < 2 ^ 64 - 1) (fetchSize : ℕ) (vec : List M) :
    let b : CacheBuffer M := l.foldl CacheBuffer.fill (new size)
    (∀ fuel, size ≤ fuel → b.fetchMulti fuel fetchSize vec = some (if l = [] then (false, vec) else
      (true, vec ++ l.drop (l.length - min fetchSize (min size l.length))))) ∧
      b.latest = l.getLast? := by
  intro b
  have h : Holds size l b := holds_foldl_fill hsize' (by omega)
  exact ⟨fun fuel hfuel => h.fetchMulti_eq (by omega) hfuel fetchSize vec, h.latest_eq hsize⟩

theorem fetchMulti_fills_of_overflow :
    let b : CacheBuffer ℕ := [4, 5, 6, 7].foldl CacheBuffer.fill (new 2)
    b.fetchMulti 2 3 [1] = some (true, [1, 6, 7]) ∧ b.latest = some 7 := by
  have h := fetchMulti_fills 2 (by decide) (by decide) [4, 5, 6, 7] (by decide) 3 [1]
  exact ⟨h.1 2 le_rfl, h.2⟩

/-! ### More messages than positions -/

theorem fetchLoop_eq_none (htail : b.tail = 2 ^ 64 - 1) (fuel : ℕ) {index : ℕ}
    (hindex : index < 2 ^ 64) (vec : List M) : b.fetchLoop fuel index vec = none := by
  have hle : index ≤ b.tail := by omega
  induction fuel generalizing index vec with
  | zero => exact if_pos hle
  | succ fuel ih =>
    have hnext := uint64_lt (index + 1)
    rw [fetchLoop, if_pos hle]
    exact ih hnext _ (by omega)

/-- After `2 ^ 64 - 1` messages the loop never ends, whatever the size of the buffer and the number
of messages asked for. -/
theorem Holds.fetchMulti_eq_none (h : Holds size l b) (hl : l.length = 2 ^ 64 - 1)
    (fuel fetchSize : ℕ) (vec : List M) : b.fetchMulti fuel fetchSize vec = none := by
  have htail : b.tail = 2 ^ 64 - 1 := h.tail_eq.trans hl
  have hempty : ¬b.empty := by
    rw [empty, htail]
    decide
  rw [fetchMulti, if_neg hempty]
  dsimp only
  rw [fetchLoop_eq_none htail fuel (uint64_lt _), map_none]

/-- **A call that does not return.** -/
theorem fetchMulti_hangs : ∃ b : CacheBuffer ℕ,
    b = (List.replicate (2 ^ 64 - 1) 7).foldl CacheBuffer.fill (new 1) ∧
      ∀ fuel, b.fetchMulti fuel 1 [] = none := by
  refine ⟨_, rfl, fun fuel => ?_⟩
  have hlen : (List.replicate (2 ^ 64 - 1) 7).length = 2 ^ 64 - 1 := length_replicate
  have hholds := holds_foldl_fill (by decide : 1 + 1 < 2 ^ 64)
    (hlen.trans_lt (by decide : 2 ^ 64 - 1 < 2 ^ 64))
  exact hholds.fetchMulti_eq_none hlen fuel 1 []

end CacheBuffer

end Cyber
