import Mathlib.Data.List.TakeWhile

/-!
# The part of a list before a terminator

A field of a record that is written as text ends with a terminator, and is read up to the first
terminator, wherever that stands. It is read back if it has no terminator in it.

A string in memory that is given by a pointer alone ends before the first zero byte.
-/

open List

namespace Container

section

variable {α : Type*} [DecidableEq α] {a : α} {l : List α}

theorem takeWhile_ne_append_cons (a : α) (l r : List α) :
    (l ++ a :: r).takeWhile (· ≠ a) = l.takeWhile (· ≠ a) := by
  rw [takeWhile_append]
  split_ifs with hall
  · rw [takeWhile_cons_of_neg (by simp), append_nil]
    exact ((List.takeWhile_prefix _).eq_of_length hall).symm
  · rfl

theorem takeWhile_ne_eq_self_iff : l.takeWhile (· ≠ a) = l ↔ a ∉ l := by
  rw [takeWhile_eq_self_iff]
  constructor
  · intro h hmem
    simpa using h a hmem
  · intro h x hx
    simpa using ne_of_mem_of_not_mem hx h

theorem dropWhile_ne_append_cons (r : List α) (h : a ∉ l) :
    (l ++ a :: r).dropWhile (· ≠ a) = a :: r := by
  have hall : l.takeWhile (· ≠ a) = l := takeWhile_ne_eq_self_iff.mpr h
  have hsplit := takeWhile_append_dropWhile (p := (· ≠ a)) (l := l ++ a :: r)
  rw [takeWhile_ne_append_cons, hall] at hsplit
  exact append_cancel_left hsplit

end

/-! ### Strings in memory -/

/-- The string at the beginning of `l`. There is none if the scan runs over the end. -/
def cString (l : List UInt8) : Option (List UInt8) :=
  if 0 ∈ l then some (l.takeWhile (· ≠ 0)) else none

/-- The number of bytes that are read to find the end of the string: one more than are in `l` if
there is no zero in it. -/
def cStringScan (l : List UInt8) : ℕ := (l.takeWhile (· ≠ 0)).length + 1

theorem cString_append_zero (l r : List UInt8) :
    cString (l ++ 0 :: r) = some (l.takeWhile (· ≠ 0)) := by
  rw [cString, if_pos (by simp), takeWhile_ne_append_cons]

/-- **A scan stays in the first `n` bytes exactly if there is a zero among them.** -/
theorem cStringScan_le_iff {l : List UInt8} {n : ℕ} (hn : n ≤ l.length) :
    cStringScan l ≤ n ↔ 0 ∈ l.take n := by
  induction l generalizing n with
  | nil =>
    obtain rfl : n = 0 := Nat.le_zero.mp hn
    simp [cStringScan]
  | cons b l ih =>
    cases n with
    | zero => simp [cStringScan]
    | succ n =>
      by_cases hb : b = 0
      · simp [cStringScan, hb]
      · have hscan : cStringScan (b :: l) = cStringScan l + 1 := by simp [cStringScan, hb]
        rw [hscan, Nat.add_le_add_iff_right, ih (Nat.le_of_succ_le_succ hn), take_succ_cons,
          mem_cons, or_iff_right (Ne.symm hb)]

end Container
