import Notebook.Interleaving.Run

/-!
# Threads over a shared memory

A thread program is a function `prog : M → L → A → Option (M × L)`: with the shared memory in the
state `m` and the thread at the local state `l`, the action `a` of the thread leads to a new
memory and a new local state, or is not possible. One action is one atomic operation on the
memory together with the local computation up to the next one. `Threads.step prog` lets any
number of threads, one for each element of `T`, run the program over one memory; an event names
the thread that moves and its action.
-/

open Function List

namespace Interleaving

/-- The shared memory `M` and the local state in `L` of every thread in `T`. -/
structure Threads (M T L : Type*) where
  mem : M
  pc : T → L

namespace Threads

variable {M T L A : Type*} [DecidableEq T] {prog : M → L → A → Option (M × L)}

/-- The event `(t, a)`: the thread `t` makes the action `a`. -/
def step (prog : M → L → A → Option (M × L)) (s : Threads M T L) (e : T × A) :
    Option (Threads M T L) :=
  (prog s.mem (s.pc e.1) e.2).map fun r => ⟨r.1, update s.pc e.1 r.2⟩

theorem step_eq_some {s s' : Threads M T L} {t : T} {a : A} :
    step prog s (t, a) = some s' ↔
      ∃ m l, prog s.mem (s.pc t) a = some (m, l) ∧ s' = ⟨m, update s.pc t l⟩ := by
  simp only [step, Option.map_eq_some_iff, Prod.exists]
  exact exists_congr fun m => exists_congr fun l => and_congr_right fun _ => eq_comm

section Step

variable {s s' : Threads M T L} {t : T} {a : A}

theorem prog_of_step (h : step prog s (t, a) = some s') :
    prog s.mem (s.pc t) a = some (s'.mem, s'.pc t) := by
  obtain ⟨m, l, hp, rfl⟩ := step_eq_some.mp h
  simpa only [update_self] using hp

theorem pc_of_ne (h : step prog s (t, a) = some s') {u : T} (hu : u ≠ t) : s'.pc u = s.pc u := by
  obtain ⟨m, l, -, rfl⟩ := step_eq_some.mp h
  exact update_of_ne hu _ _

theorem exec_pc_of_ne {es : List (T × A)} (hes : ∀ e ∈ es, e.1 ≠ t)
    (h : exec (step prog) s es = some s') : s'.pc t = s.pc t := by
  induction es generalizing s with
  | nil => exact Option.some.inj h ▸ rfl
  | cons e es ih =>
    obtain ⟨s₁, h₁, h₂⟩ := exec_cons_eq_some.mp h
    rw [ih (fun e' he' => hes e' (mem_cons_of_mem e he')) h₂]
    exact pc_of_ne h₁ (hes e mem_cons_self).symm

end Step

/-- **What the threads know of the memory**: the thread that moves learns it from its action, and
the other threads, which stay where they are, must not lose it. -/
theorem forall_guard_step {G : M → L → Prop} {s s' : Threads M T L} {t : T} {a : A}
    (h : step prog s (t, a) = some s')
    (hself : ∀ m l, prog s.mem (s.pc t) a = some (m, l) → G m l)
    (hothers : ∀ u, u ≠ t → G s'.mem (s.pc u)) : ∀ u, G s'.mem (s'.pc u) := by
  intro u
  by_cases hu : u = t
  · subst hu
    exact hself _ _ (prog_of_step h)
  · rw [pc_of_ne h hu]
    exact hothers u hu

/-- A property of local states that no action of any thread can break. -/
theorem forall_pc_step {P : L → Prop} {s s' : Threads M T L} {t : T} {a : A}
    (h : step prog s (t, a) = some s') (hs : ∀ u, P (s.pc u))
    (hP : ∀ m l, prog s.mem (s.pc t) a = some (m, l) → P l) : ∀ u, P (s'.pc u) :=
  forall_guard_step (G := fun _ l => P l) h hP fun u _ => hs u

/-- One thread runs alone: the other threads keep their local states. -/
theorem exec_alone {s : Threads M T L} {t : T} {as : List A} {m : M} {l : L}
    (h : exec (fun r a => prog r.1 r.2 a) (s.mem, s.pc t) as = some (m, l)) :
    exec (step prog) s (as.map (t, ·)) = some ⟨m, update s.pc t l⟩ := by
  induction as generalizing s with
  | nil =>
    cases h
    rw [update_eq_self]
    rfl
  | cons a as ih =>
    obtain ⟨⟨m₁, l₁⟩, h₁, h₂⟩ := exec_cons_eq_some.mp h
    refine exec_cons_eq_some.mpr ⟨⟨m₁, update s.pc t l₁⟩, step_eq_some.mpr
      ⟨m₁, l₁, h₁, rfl⟩, ?_⟩
    have hrest := ih (s := ⟨m₁, update s.pc t l₁⟩) (by simpa using h₂)
    rwa [update_idem] at hrest

end Threads

/-! ### Machine words -/

/-- The value of an `int32_t` after an operation with the exact result `z`. -/
def int32 (z : ℤ) : ℤ := (z + 2 ^ 31) % 2 ^ 32 - 2 ^ 31

/-- The value of an `int64_t` after an operation with the exact result `z`. -/
def int64 (z : ℤ) : ℤ := (z + 2 ^ 63) % 2 ^ 64 - 2 ^ 63

variable (n : ℕ)

/-- The value of a `uint32_t` after an operation with the exact result `n`. -/
def uint32 (n : ℕ) : ℕ := n % 2 ^ 32

/-- The value of a `uint64_t` after an operation with the exact result `n`. -/
def uint64 (n : ℕ) : ℕ := n % 2 ^ 64

/-- The value of a `uint64_t` after an operation with the exact result `z`, perhaps negative. -/
def uint64OfInt (z : ℤ) : ℕ := (z % 2 ^ 64).toNat

/-- The difference of two unsigned words of `w` bits. -/
def wordSub (w a b : ℕ) : ℕ := if b ≤ a then a - b else 2 ^ w + a - b

theorem int32_eq_self {z : ℤ} (h₁ : -2 ^ 31 ≤ z) (h₂ : z < 2 ^ 31) : int32 z = z := by
  unfold int32
  omega

theorem int32_le_self {z : ℤ} (h : 0 ≤ z) : int32 z ≤ z := by
  unfold int32
  omega

theorem int64_eq_self {z : ℤ} (h₁ : -2 ^ 63 ≤ z) (h₂ : z < 2 ^ 63) : int64 z = z := by
  unfold int64
  omega

theorem int64_bounds (z : ℤ) : -2 ^ 63 ≤ int64 z ∧ int64 z < 2 ^ 63 := by
  unfold int64
  omega

theorem uint64OfInt_eq_self {z : ℤ} (h₁ : 0 ≤ z) (h₂ : z < 2 ^ 64) : (uint64OfInt z : ℤ) = z := by
  unfold uint64OfInt
  omega

theorem uint32_lt : uint32 n < 2 ^ 32 := Nat.mod_lt n (Nat.two_pow_pos 32)

theorem uint32_eq_self {n : ℕ} (h : n < 2 ^ 32) : uint32 n = n := Nat.mod_eq_of_lt h

theorem foldl_uint32_add {α : Type*} (f : α → ℕ) (l : List α) {n : ℕ} (hn : n < 2 ^ 32) :
    l.foldl (fun m x => uint32 (m + f x)) n = uint32 (n + (l.map f).sum) := by
  induction l generalizing n with
  | nil => exact (uint32_eq_self hn).symm
  | cons x l ih =>
    rw [foldl_cons, ih (uint32_lt _), map_cons, sum_cons, ← add_assoc]
    exact Nat.mod_add_mod _ _ _

theorem uint64_lt : uint64 n < 2 ^ 64 := Nat.mod_lt n (Nat.two_pow_pos 64)

theorem wordSub_lt {w a b : ℕ} (ha : a < 2 ^ w) : wordSub w a b < 2 ^ w := by
  unfold wordSub
  split <;> omega

theorem wordSub_add_modEq {w a b : ℕ} (hb : b ≤ 2 ^ w) : wordSub w a b + b ≡ a [MOD 2 ^ w] := by
  unfold wordSub
  split
  · rename_i hle
    rw [Nat.sub_add_cancel hle]
  · rw [Nat.sub_add_cancel (hb.trans (Nat.le_add_right _ _))]
    exact Nat.add_modEq_left

theorem uint64_eq_self {n : ℕ} (h : n < 2 ^ 64) : uint64 n = n := Nat.mod_eq_of_lt h

end Interleaving
