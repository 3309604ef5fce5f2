import Mathlib.Algebra.Order.Ring.Nat
import Mathlib.Data.List.Basic

/-!
# Bytes in memory

A memory is a function from offsets to bytes. `read` and `write` copy a block of bytes out of it
and into it, and `Stored src off bs` says that the bytes `bs` stand at the offset `off`. An
unsigned number is stored with its lowest byte first.
-/

open List

namespace ByteMemory

/-- The `n` bytes at the offset `off`. -/
def read (src : ℕ → UInt8) (off n : ℕ) : List UInt8 := (List.range n).map fun i => src (off + i)

/-- The bytes `bs` are copied to the offset `off`. -/
def write (dst : ℕ → UInt8) (off : ℕ) (bs : List UInt8) (i : ℕ) : UInt8 :=
  if i < off then dst i else bs[i - off]?.getD (dst i)

/-- The bytes `bs` stand at the offset `off`. -/
def Stored (src : ℕ → UInt8) (off : ℕ) (bs : List UInt8) : Prop := read src off bs.length = bs

variable {src dst : ℕ → UInt8} {off n k : ℕ} {bs cs : List UInt8}

@[simp] theorem length_read : (read src off n).length = n := by simp [read]

theorem read_add : read src off (n + k) = read src off n ++ read src (off + n) k := by
  simp [read, range_add, add_assoc, Function.comp_def]

theorem stored_append :
    Stored src off (bs ++ cs) ↔ Stored src off bs ∧ Stored src (off + bs.length) cs := by
  rw [Stored, length_append, read_add]
  constructor
  · intro h
    exact append_inj h length_read
  · rintro ⟨hb, hc⟩
    exact congrArg₂ (· ++ ·) hb hc

theorem stored_write : Stored (write dst off bs) off bs := by
  refine ext_getElem (by simp) fun i h _ => ?_
  have hi : i < bs.length := by simpa using h
  simp [read, write, hi]

theorem Stored.write_of_le (h : Stored src off bs) (hle : off + bs.length ≤ k) :
    Stored (write src k cs) off bs := by
  have hread : read (write src k cs) off bs.length = read src off bs.length := by
    refine map_congr_left fun i hi => ?_
    have hlt : off + i < k := by
      have := mem_range.mp hi
      omega
    exact if_pos hlt
  exact hread.trans h

/-! ### Numbers -/

/-- The lowest `k` bytes of a number. -/
def toBytes : ℕ → ℕ → List UInt8
  | 0, _ => []
  | k + 1, n => UInt8.ofNat n :: toBytes k (n / 256)

/-- The number with the given bytes. -/
def ofBytes : List UInt8 → ℕ
  | [] => 0
  | b :: bs => b.toNat + 256 * ofBytes bs

@[simp] theorem length_toBytes (k n : ℕ) : (toBytes k n).length = k := by
  induction k generalizing n with
  | zero => rfl
  | succ k ih => rw [toBytes, length_cons, ih]

theorem ofBytes_toBytes (k n : ℕ) : ofBytes (toBytes k n) = n % 256 ^ k := by
  induction k generalizing n with
  | zero => simp [toBytes, ofBytes, Nat.mod_one]
  | succ k ih =>
    have hbyte : (UInt8.ofNat n).toNat = n % 256 := UInt8.toNat_ofNat'
    rw [toBytes, ofBytes, ih, hbyte, pow_succ', Nat.mod_mul]

end ByteMemory
