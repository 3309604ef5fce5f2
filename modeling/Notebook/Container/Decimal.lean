import Mathlib.Data.Nat.Digits.Defs
import Mathlib.Data.List.TakeWhile

/-!
# Decimal renderings

`Nat.toDigits 10` is the decimal rendering of a number. Renderings of different numbers are
different, but two renderings one after the other do not say where the first one ends. `stoi` reads
a number from the beginning of a string, as the function of the C++ library does: it skips blanks,
takes an optional sign and the digits after it, and ignores what follows.
-/

open List

namespace Container

theorem toDigits_injective : Function.Injective (Nat.toDigits 10) :=
  Function.LeftInverse.injective (g := fun l => Nat.ofDigitChars 10 l 0) fun _ =>
    Nat.ofDigitChars_ten_toDigits

/-- **Two renderings one after the other** are those of another pair of numbers exactly if one of
the first numbers is continued by digits with which the other second number begins. -/
theorem toDigits_append_inj_iff {a b c d : ℕ} :
    Nat.toDigits 10 a ++ Nat.toDigits 10 b = Nat.toDigits 10 c ++ Nat.toDigits 10 d ↔
      (a = c ∧ b = d) ∨
      (∃ u ≠ [], Nat.toDigits 10 c = Nat.toDigits 10 a ++ u ∧
        Nat.toDigits 10 b = u ++ Nat.toDigits 10 d) ∨
      ∃ u ≠ [], Nat.toDigits 10 a = Nat.toDigits 10 c ++ u ∧
        Nat.toDigits 10 d = u ++ Nat.toDigits 10 b := by
  rw [append_eq_append_iff]
  constructor
  · rintro (⟨u, hc, hb⟩ | ⟨u, ha, hd⟩)
    · by_cases hu : u = []
      · subst hu
        rw [append_nil] at hc
        exact .inl ⟨toDigits_injective hc.symm, toDigits_injective hb⟩
      · exact .inr (.inl ⟨u, hu, hc, hb⟩)
    · by_cases hu : u = []
      · subst hu
        rw [append_nil] at ha
        exact .inl ⟨toDigits_injective ha, toDigits_injective hd.symm⟩
      · exact .inr (.inr ⟨u, hu, ha, hd⟩)
  · rintro (⟨rfl, rfl⟩ | ⟨u, -, hc, hb⟩ | ⟨u, -, ha, hd⟩)
    · exact .inl ⟨[], (append_nil _).symm, rfl⟩
    · exact .inl ⟨u, hc, hb⟩
    · exact .inr ⟨u, ha, hd⟩

/-! ### Reading -/

/-- `isspace` -/
def isSpace (c : Char) : Bool := c = ' ' || (9 ≤ c.toNat && c.toNat ≤ 13)

/-- The sign at the beginning of a string, and the rest. -/
def signOf : List Char → ℤ × List Char
  | '-' :: s => (-1, s)
  | '+' :: s => (1, s)
  | s => (1, s)

/-- `std::stoi`. There is no result if it throws: if there is no digit, or the number is not in the
range of an `int`. -/
def stoi (s : List Char) : Option ℤ :=
  let r := signOf (s.dropWhile isSpace)
  let digits := r.2.takeWhile Char.isDigit
  let value : ℤ := r.1 * Nat.ofDigitChars 10 digits 0
  if digits = [] then none
  else if value < -2 ^ 31 ∨ 2 ^ 31 ≤ value then none
  else some value

theorem isSpace_of_isDigit {c : Char} (h : c.isDigit = true) : isSpace c = false := by
  have hle : 48 ≤ c.toNat := by
    rw [Char.isDigit, Bool.and_eq_true, decide_eq_true_eq] at h
    exact UInt32.le_iff_toNat_le.mp h.1
  have hne : c ≠ ' ' := by
    rintro rfl
    exact absurd hle (by decide)
  simp only [isSpace, hne, decide_false, Bool.false_or, Bool.and_eq_false_iff,
    decide_eq_false_iff_not]
  omega

/-- A string of digits has no blanks to skip and no sign. -/
theorem signOf_dropWhile {s : List Char} (hs : s ≠ []) (h : ∀ c ∈ s, c.isDigit = true) :
    signOf (s.dropWhile isSpace) = (1, s) := by
  obtain ⟨c, s, rfl⟩ := exists_cons_of_ne_nil hs
  have hc : c.isDigit = true := h c mem_cons_self
  have hminus : c ≠ '-' := by
    rintro rfl
    exact absurd hc (by decide)
  have hplus : c ≠ '+' := by
    rintro rfl
    exact absurd hc (by decide)
  rw [dropWhile_cons_of_neg (by simp [isSpace_of_isDigit hc]), signOf]
  · exact fun t heq => hminus (List.cons.inj heq).1
  · exact fun t heq => hplus (List.cons.inj heq).1

/-- **A rendering is read back**, if it is that of an `int`. -/
theorem stoi_toDigits {n : ℕ} (hn : n < 2 ^ 31) : stoi (Nat.toDigits 10 n) = some (n : ℤ) := by
  have hdigit : ∀ c ∈ Nat.toDigits 10 n, c.isDigit = true := fun c hc =>
    Nat.isDigit_of_mem_toDigits (by decide) (by decide) hc
  have hsign := signOf_dropWhile Nat.toDigits_ne_nil hdigit
  have htake : (Nat.toDigits 10 n).takeWhile Char.isDigit = Nat.toDigits 10 n :=
    takeWhile_eq_self_iff.mpr hdigit
  have hvalue : (1 : ℤ) * Nat.ofDigitChars 10 (Nat.toDigits 10 n) 0 = n := by
    rw [Nat.ofDigitChars_ten_toDigits, one_mul]
  rw [stoi, hsign]
  dsimp only
  rw [htake, hvalue, if_neg Nat.toDigits_ne_nil, if_neg (by omega)]

end Container
