import Notebook.Interleaving.Threads

/-!
# Read-write locks kept in one counter

A read-write lock can be kept in one integer: `0` when nobody holds it, `-1` when one thread holds
it for writing, and the number of readers otherwise. `Op` says which changes of the counter go with
which changes of what a thread holds, `Sound` what the counter means, and `Op.sound` that the
changes keep the meaning. The counter lives in a machine word of which `word` is the reduction; the
meaning is kept as long as the word can hold the number of threads.

A thread program over a memory with such a counter is connected to the lock by showing that each of
its atomic operations is an `Op` (`sound_of_exec`).
-/

open Function

namespace Interleaving.CountedLock

/-- What a thread holds of the lock. -/
inductive Role
  | free
  | reader
  | writer
deriving DecidableEq, Repr

/-- One atomic operation of a thread: the counter and the role of the thread before and after it.
A reader comes in only when the counter is not negative, a writer only when it is `0`. -/
inductive Op (word : ℤ → ℤ) : ℤ → Role → ℤ → Role → Prop
  | keep (n : ℤ) (r : Role) : Op word n r n r
  | lockRead (n : ℤ) (h : 0 ≤ n) : Op word n .free (word (n + 1)) .reader
  | lockWrite : Op word 0 .free (-1) .writer
  | unlockRead (n : ℤ) : Op word n .reader (word (n - 1)) .free
  | unlockWrite (n : ℤ) : Op word n .writer (word (n + 1)) .free

variable {T : Type*}

/-- The counter counts the holders: no writer and as many readers as it says, or `-1` with one
writer alone. -/
inductive Sound (n : ℤ) (role : T → Role) : Prop
  | shared (k : ℕ) (hn : n = k) (hr : InPhase (· = .reader) role k)
      (hw : InPhase (· = .writer) role 0) : Sound n role
  | exclusive (hn : n = -1) (hr : InPhase (· = .reader) role 0)
      (hw : InPhase (· = .writer) role 1) : Sound n role

/-- What the counter `n` of a lock says about the threads that hold a read lock, `rd`, and those
that hold the write lock, `wr`: it is `-1` exactly when one thread holds the write lock and none a
read lock, it is the number of readers otherwise, and no writer coexists with another holder. -/
def Counts (n : ℤ) (rd wr : Set T) : Prop :=
  (n = -1 ↔ (∃ t, wr = {t}) ∧ rd = ∅) ∧ (n ≠ -1 → n = rd.ncard) ∧
    ∀ t ∈ wr, ∀ u, u ∈ wr ∨ u ∈ rd → u = t

theorem sound_free : Sound 0 fun _ : T => Role.free :=
  .shared 0 rfl (inPhase_zero_iff.mpr fun _ => by simp) (inPhase_zero_iff.mpr fun _ => by simp)

namespace Sound

variable {n : ℤ} {role : T → Role}

/-- **The reading of a sound counter.** -/
theorem counts (h : Sound n role) : Counts n {t | role t = .reader} {t | role t = .writer} := by
  cases h with
  | shared k hn hr hw =>
    have hw' : {t | role t = .writer} = ∅ := Set.encard_eq_zero.mp hw
    rw [hw']
    refine ⟨⟨fun h => by omega, fun ⟨⟨t, ht⟩, _⟩ => ?_⟩, fun _ => ?_, fun t ht => ?_⟩
    · exact absurd ht.symm (Set.singleton_ne_empty t)
    · rw [hn, Set.ncard, show {t | role t = .reader}.encard = k from hr, ENat.toNat_natCast]
    · exact absurd ht (Set.notMem_empty t)
  | exclusive hn hr hw =>
    have hr' : {t | role t = .reader} = ∅ := Set.encard_eq_zero.mp hr
    obtain ⟨t, hw'⟩ : ∃ t, {t | role t = .writer} = {t} := Set.encard_eq_one.mp hw
    rw [hr', hw']
    refine ⟨⟨fun _ => ⟨⟨t, rfl⟩, rfl⟩, fun _ => hn⟩, fun h => absurd hn h, fun u hu v hv => ?_⟩
    rcases hv with hv | hv
    · exact (Set.mem_singleton_iff.mp hv).trans (Set.mem_singleton_iff.mp hu).symm
    · exact absurd hv (Set.notMem_empty v)

theorem eq_of_writer (h : Sound n role) {t u : T} (ht : role t = .writer) (hu : role u ≠ .free) :
    u = t := by
  refine h.counts.2.2 t ht u ?_
  cases hr : role u with
  | free => exact absurd hr hu
  | reader => exact .inr hr
  | writer => exact .inl hr

theorem eq_free (h : Sound 0 role) (u : T) : role u = .free := by
  cases h with
  | shared k hn hr hw =>
    obtain rfl : k = 0 := by omega
    cases hu : role u with
    | free => rfl
    | reader => exact absurd hu (inPhase_zero_iff.mp hr u)
    | writer => exact absurd hu (inPhase_zero_iff.mp hw u)
  | exclusive hn hr hw => omega

end Sound

variable [DecidableEq T]

/-- **Every operation keeps the meaning of the counter**, provided that the word of the counter
holds every number up to the number of threads. -/
theorem Op.sound {word : ℤ → ℤ} {N : ℕ} (hN : ENat.card T ≤ N)
    (hword : ∀ z : ℤ, -1 ≤ z → z ≤ N → word z = z) {n n' : ℤ} {role : T → Role} {t : T}
    {r' : Role} (op : Op word n (role t) n' r') (h : Sound n role) :
    Sound n' (update role t r') := by
  generalize hr₀ : role t = r₀ at op
  cases op with
  | keep => rwa [← hr₀, update_eq_self]
  | lockRead n h0 =>
    cases h with
    | shared k hn hr hw =>
      have hr' := hr.enter (t := t) (v := Role.reader) (by simp [hr₀]) rfl
      have hk := hr'.le_card hN
      rw [hword (n + 1) (by omega) (by omega)]
      exact .shared (k + 1) (by push_cast; omega) hr' (hw.stay (by simp [hr₀]))
    | exclusive hn hr hw => omega
  | lockWrite =>
    cases h with
    | shared k hn hr hw =>
      obtain rfl : k = 0 := by omega
      exact .exclusive rfl (hr.stay (by simp [hr₀])) (hw.enter (by simp [hr₀]) rfl)
    | exclusive hn hr hw => omega
  | unlockRead n =>
    cases h with
    | shared k hn hr hw =>
      have hk := hr.le_card hN
      -- the reader that leaves shows that the count is positive
      obtain ⟨j, rfl⟩ : ∃ j, k = j + 1 := Nat.exists_eq_succ_of_ne_zero (hr.pos hr₀).ne'
      rw [hword (n - 1) (by omega) (by omega)]
      exact .shared j (by push_cast at hn; omega) (hr.leave hr₀ (by decide))
        (hw.stay (by simp [hr₀]))
    | exclusive hn hr hw => exact absurd hr₀ (inPhase_zero_iff.mp hr t)
  | unlockWrite n =>
    cases h with
    | shared k hn hr hw => exact absurd hr₀ (inPhase_zero_iff.mp hw t)
    | exclusive hn hr hw =>
      rw [hword (n + 1) (by omega) (by omega)]
      exact .shared 0 (by omega) (hr.stay (by simp [hr₀])) (hw.leave hr₀ (by decide))

section Program

variable {M L A : Type*} {prog : M → L → A → Option (M × L)} {word : ℤ → ℤ} {N : ℕ}
  (num : M → ℤ) {role : L → Role} {Guarded : L → Prop}

/-- **The meaning of the counter along every run.** A thread program each of whose actions is an
operation of the lock, from the local states that satisfy `Guarded`, keeps the counter sound. -/
theorem sound_of_exec (hN : ENat.card T ≤ N) (hword : ∀ z : ℤ, -1 ≤ z → z ≤ N → word z = z)
    (hguard : ∀ {m l a m' l'}, prog m l a = some (m', l') → Guarded l')
    (hop : ∀ {m l a m' l'}, prog m l a = some (m', l') → Guarded l →
      Op word (num m) (role l) (num m') (role l'))
    {s s' : Threads M T L} {es : List (T × A)} (hs : Sound (num s.mem) (role ∘ s.pc))
    (hG : ∀ t, Guarded (s.pc t)) (h : exec (Threads.step prog) s es = some s') :
    Sound (num s'.mem) (role ∘ s'.pc) := by
  refine (exec_invariant (fun s => Sound (num s.mem) (role ∘ s.pc) ∧ ∀ t, Guarded (s.pc t))
    ?_ ⟨hs, hG⟩ h).1
  rintro s ⟨t, a⟩ s' ⟨hs, hG⟩ hstep
  refine ⟨?_, Threads.forall_pc_step hstep hG fun m l hp => hguard hp⟩
  obtain ⟨m, l, hp, rfl⟩ := Threads.step_eq_some.mp hstep
  rw [comp_update]
  exact (hop hp (hG t)).sound hN hword hs

end Program

end Interleaving.CountedLock
