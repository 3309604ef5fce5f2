import Notebook.Interleaving.Threads

/-!
# Reentrant read-write locks kept in one counter

A read-write lock that a thread may take more than once can be kept in one counter: it is the number
of read locks of all threads together, or minus the number of write locks that one thread has
nested. `Op` says which changes of the counter go with which changes of what a thread holds, `Sound`
what the counter means, and `Op.sound` that the changes keep the meaning.

The counter is an `int32_t`. The read locks cannot make it overflow beyond `2 ^ 31`, which the word
holds as `-2 ^ 31`: no further reader comes in then. The write locks of one thread can, so an
operation that nests them has room for one more.
-/

open Function

namespace Interleaving.NestedLock

/-- What a thread holds: `k` read locks, or `d + 1` write locks. -/
inductive Hold
  | reads (k : ℕ)
  | writes (d : ℕ)
deriving DecidableEq, Repr

/-- One atomic operation of a thread: the counter and what the thread holds before and after it. -/
inductive Op : ℤ → Hold → ℤ → Hold → Prop
  | keep (n : ℤ) (h : Hold) : Op n h n h
  | lockRead (n : ℤ) (k : ℕ) (hn : 0 ≤ n) : Op n (.reads k) (int32 (n + 1)) (.reads (k + 1))
  | unlockRead (n : ℤ) (k : ℕ) : Op n (.reads (k + 1)) (int32 (n - 1)) (.reads k)
  | lockWrite : Op 0 (.reads 0) (-1) (.writes 0)
  | nest (n : ℤ) (d : ℕ) (hd : d + 1 < 2 ^ 31) :
      Op n (.writes d) (int32 (n - 1)) (.writes (d + 1))
  | unnest (n : ℤ) (d : ℕ) : Op n (.writes (d + 1)) (int32 (n + 1)) (.writes d)
  | unlockWrite (n : ℤ) : Op n (.writes 0) (int32 (n + 1)) (.reads 0)

variable {T : Type*} [DecidableEq T]

/-- The meaning of the counter: `R` lists the threads with read locks, each as often as it holds
one, or the thread `w` has nested `d + 1` write locks and nobody else holds anything. -/
inductive Sound (n : ℤ) (hold : T → Hold) : Prop
  | shared (R : Multiset T) (hn : n = int32 R.card) (hle : R.card ≤ 2 ^ 31)
      (hR : ∀ t, hold t = .reads (R.count t)) : Sound n hold
  | exclusive (w : T) (d : ℕ) (hn : n = -(d + 1)) (hd : d + 1 ≤ 2 ^ 31) (hw : hold w = .writes d)
      (hothers : ∀ u, u ≠ w → hold u = .reads 0) : Sound n hold

theorem sound_free : Sound 0 fun _ : T => Hold.reads 0 :=
  .shared 0 (int32_eq_self (by simp) (by simp)).symm (Nat.zero_le _) fun t => by
    rw [Multiset.count_zero]

variable {n n' : ℤ} {hold : T → Hold} {t : T} {d : ℕ}

theorem Sound.of_writes (h : Sound n hold) (ht : hold t = .writes d) :
    n = -(d + 1) ∧ d + 1 ≤ 2 ^ 31 ∧ ∀ u, u ≠ t → hold u = .reads 0 := by
  cases h with
  | shared R hn hle hR => simp [hR t] at ht
  | exclusive w e hn hd hw hothers =>
    by_cases htw : t = w
    · subst htw
      obtain rfl : e = d := Hold.writes.inj (hw.symm.trans ht)
      exact ⟨hn, hd, hothers⟩
    · simp [hothers t htw] at ht

theorem Sound.of_reads {k : ℕ} (h : Sound n hold) (ht : hold t = .reads (k + 1)) :
    ∃ R : Multiset T, n = int32 R.card ∧ R.card ≤ 2 ^ 31 ∧ ∀ u, hold u = .reads (R.count u) := by
  cases h with
  | shared R hn hle hR => exact ⟨R, hn, hle, hR⟩
  | exclusive w e hn hd hw hothers =>
    by_cases htw : t = w
    · rw [htw, hw] at ht
      cases ht
    · simp [hothers t htw] at ht

/-- A counter that is not negative counts read locks, and the word has room for one more. -/
theorem Sound.of_nonneg (h : Sound n hold) (hn : 0 ≤ n) :
    ∃ R : Multiset T, n = R.card ∧ R.card < 2 ^ 31 ∧ ∀ u, hold u = .reads (R.count u) := by
  cases h with
  | shared R hn' hle hR =>
    unfold int32 at hn'
    exact ⟨R, by omega, by omega, hR⟩
  | exclusive w e hn' hd hw hothers => omega

theorem Sound.eq_reads_zero (h : Sound 0 hold) (u : T) : hold u = .reads 0 := by
  obtain ⟨R, hn, -, hR⟩ := h.of_nonneg le_rfl
  obtain rfl : R = 0 := Multiset.card_eq_zero.mp (by omega)
  rw [hR, Multiset.count_zero]

/-- The lock of the readers `R`, of which only the thread `t` is new or has left. -/
theorem sound_update_reads {R : Multiset T} (hn : n = int32 R.card) (hle : R.card ≤ 2 ^ 31)
    (hothers : ∀ u, u ≠ t → hold u = .reads (R.count u)) :
    Sound n (update hold t (.reads (R.count t))) := by
  refine .shared R hn hle fun u => ?_
  by_cases hu : u = t
  · subst hu
    rw [update_self]
  · rw [update_of_ne hu, hothers u hu]

theorem sound_update_writes (hn : n = -(d + 1)) (hd : d + 1 ≤ 2 ^ 31)
    (hothers : ∀ u, u ≠ t → hold u = .reads 0) :
    Sound n (update hold t (.writes d)) :=
  .exclusive t d hn hd (update_self ..) fun u hu => by
    rw [update_of_ne hu, hothers u hu]

/-- **Every operation keeps the meaning of the counter.** -/
theorem Op.sound {h' : Hold} (op : Op n (hold t) n' h') (h : Sound n hold) :
    Sound n' (update hold t h') := by
  generalize ht : hold t = h₀ at op
  cases op with
  | keep => rwa [← ht, update_eq_self]
  | lockRead n k hn =>
    obtain ⟨R, rfl, hlt, hR⟩ := h.of_nonneg hn
    obtain rfl : k = R.count t := Hold.reads.inj (ht.symm.trans (hR t))
    rw [← Multiset.count_cons_self t R]
    refine sound_update_reads ?_ ?_ fun u hu => ?_
    · rw [Multiset.card_cons]
      push_cast
      rfl
    · rw [Multiset.card_cons]
      omega
    · rw [Multiset.count_cons_of_ne hu, hR]
  | unlockRead n k =>
    obtain ⟨R, hn, hle, hR⟩ := h.of_reads ht
    have hk : R.count t = k + 1 := Hold.reads.inj ((hR t).symm.trans ht)
    have hmem : t ∈ R := Multiset.count_pos.mp (by omega)
    have hcard := Multiset.card_erase_add_one hmem
    obtain rfl : (R.erase t).count t = k := by
      rw [Multiset.count_erase_self, hk, Nat.add_sub_cancel]
    refine sound_update_reads ?_ (by omega) fun u hu => ?_
    · rw [hn]
      unfold int32
      omega
    · rw [Multiset.count_erase_of_ne hu, hR]
  | lockWrite => exact sound_update_writes rfl (by decide) fun u _ => h.eq_reads_zero u
  | nest n d hd =>
    obtain ⟨rfl, -, hothers⟩ := h.of_writes ht
    refine sound_update_writes ?_ hd hothers
    rw [int32_eq_self (by omega) (by omega)]
    push_cast
    omega
  | unnest n d =>
    obtain ⟨rfl, hd, hothers⟩ := h.of_writes ht
    refine sound_update_writes ?_ (by omega) hothers
    rw [int32_eq_self (by omega) (by omega)]
    push_cast
    omega
  | unlockWrite n =>
    obtain ⟨rfl, -, hothers⟩ := h.of_writes ht
    rw [← Multiset.count_zero t]
    refine sound_update_reads rfl (Nat.zero_le _) fun u hu => ?_
    rw [hothers u hu, Multiset.count_zero]

end Interleaving.NestedLock
