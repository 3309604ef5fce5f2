import Notebook.ShmTest.AllocMemory

/-!
# When `Create` returns

`AllocMemory::Create` (`shm_src/alloc_memory.cpp`) calls `Recreate` when the name of its object is
taken, and `Recreate` (`shm_src/alloc_memory_base.cpp`) unlinks the name and calls `Create` again.
The result of the unlink is not looked at. As long as the unlink fails the two functions call each
other.

The system calls of the rounds are given by a sequence, and `Create` returns when finitely many
rounds are enough. The name belongs to this process alone: it exists until one of its own unlinks
succeeds, and `shm_open` reports `EEXIST` as long as it exists.
-/

open Option

namespace ShmTest

/-- The system calls of the first `n` rounds. -/
def rounds (os : ℕ → Os) (n : ℕ) : List Os := (List.range n).map os

theorem rounds_succ (os : ℕ → Os) (n : ℕ) :
    rounds os (n + 1) = os 0 :: rounds (fun k => os (k + 1)) n := by
  simp [rounds, List.range_succ_eq_map, Function.comp_def]

/-- `shm_open` fails with `EEXIST`, and not with another error, in every round that finds the name
in use. These are the rounds up to the first in which the unlink succeeds. -/
def ReportsExist (os : ℕ → Os) : Prop :=
  ∀ n, (∀ k < n, (os k).unlink = false) → (os n).shmOpen = true

/-- `Create` returns after finitely many rounds. -/
def Returns (os : ℕ → Os) (m : Store) (h : Handle) : Prop :=
  ∃ n, (create (rounds os n) m h).isSome = true

variable {os : ℕ → Os} {m : Store} {h : Handle}

/-- The handle in the `Create` that `Recreate` calls. -/
def Handle.again (h : Handle) : Handle :=
  { h.reset with conf := h.conf.update h.conf.getMsgSize h.conf.blockNum }

theorem recreate_isSome (create : Store → Handle → Option (Bool × Store × Handle)) (o : Os)
    (msgSize blockNum : ℕ) :
    (recreate create o m h msgSize blockNum).isSome =
      (create (if o.unlink then m.unlink h.shmName else m)
        { h.reset with conf := h.conf.update msgSize blockNum }).isSome := by
  rw [recreate]
  split
  · rename_i hnone
    exact (congrArg Option.isSome hnone).symm
  · rename_i ok m' h' hsome
    refine Eq.trans ?_ (congrArg Option.isSome hsome).symm
    cases ok <;> rfl

theorem create_isSome_of_named (o : Os) (rest : List Os) (hinit : h.init = false)
    (hname : (m.named h.shmName).isSome = true) (hopen : o.shmOpen = true) :
    (create (o :: rest) m h).isSome =
      (create rest (if o.unlink then m.unlink h.shmName else m) h.again).isSome := by
  obtain ⟨obj, hobj⟩ := isSome_iff_exists.mp hname
  have hround : create (o :: rest) m h =
      recreate (create rest) o m h h.conf.getMsgSize h.conf.blockNum := by
    rw [create, if_neg (by simp [hinit]), hobj]
    simp only [hopen, if_true]
  rw [hround, recreate_isSome]
  rfl

theorem create_isSome_of_free (o : Os) (rest : List Os)
    (hfree : h.init = true ∨ m.named h.shmName = none ∨ o.shmOpen = false) :
    (create (o :: rest) m h).isSome = true := by
  rw [create]
  split
  · rfl
  rename_i hinit
  split
  · rfl
  rename_i obj hname
  rw [hname] at hfree
  rcases hfree with hinit' | hnone | hopen
  · exact absurd hinit' hinit
  · cases hnone
  · simp [hopen]

theorem continues_of_not_free {o : Os}
    (hfree : ¬(h.init = true ∨ m.named h.shmName = none ∨ o.shmOpen = false)) :
    h.init = false ∧ (m.named h.shmName).isSome = true ∧ o.shmOpen = true := by
  simpa [isSome_iff_ne_none] using hfree

theorem create_isSome_of_unlink {k : ℕ} (hunlink : (os k).unlink = true) :
    (create (rounds os (k + 2)) m h).isSome = true := by
  induction k generalizing os m h with
  | zero =>
    rw [rounds_succ, rounds_succ]
    by_cases hfree : h.init = true ∨ m.named h.shmName = none ∨ (os 0).shmOpen = false
    · exact create_isSome_of_free _ _ hfree
    obtain ⟨hinit, hname, hopen⟩ := continues_of_not_free hfree
    rw [create_isSome_of_named _ _ hinit hname hopen, if_pos hunlink]
    exact create_isSome_of_free _ _ (.inr (.inl (Function.update_self ..)))
  | succ k ih =>
    rw [rounds_succ]
    by_cases hfree : h.init = true ∨ m.named h.shmName = none ∨ (os 0).shmOpen = false
    · exact create_isSome_of_free _ _ hfree
    obtain ⟨hinit, hname, hopen⟩ := continues_of_not_free hfree
    rw [create_isSome_of_named _ _ hinit hname hopen]
    exact ih hunlink

theorem create_eq_none_of_unlink (hinit : h.init = false)
    (hname : (m.named h.shmName).isSome = true) (hopen : ∀ n, (os n).shmOpen = true)
    (hunlink : ∀ n, (os n).unlink = false) (n : ℕ) : create (rounds os n) m h = none := by
  induction n generalizing os h with
  | zero => rfl
  | succ n ih =>
    refine isSome_eq_false_iff.mp ?_ |> isNone_iff_eq_none.mp
    rw [rounds_succ, create_isSome_of_named _ _ hinit hname (hopen 0), hunlink 0, if_neg (by simp),
      ih (h := h.again) rfl hname (fun k => hopen (k + 1)) fun k => hunlink (k + 1)]
    rfl

/-- **When `Create` returns.** While `shm_open` reports `EEXIST` as long as the name exists,
`Create` returns after finitely many rounds exactly when the handle is initialised, the name is
free, or one of the unlinks succeeds. -/
theorem returns_iff (hexist : ReportsExist os) :
    Returns os m h ↔
      h.init = true ∨ m.named h.shmName = none ∨ ∃ n, (os n).unlink = true := by
  constructor
  · rintro ⟨n, hsome⟩
    by_contra hnot
    obtain ⟨hinit, hname, hunlink⟩ : h.init = false ∧ (m.named h.shmName).isSome = true ∧
        ∀ n, (os n).unlink = false := by simpa [isSome_iff_ne_none] using hnot
    have hopen (k : ℕ) : (os k).shmOpen = true := hexist k fun j _ => hunlink j
    rw [create_eq_none_of_unlink hinit hname hopen hunlink] at hsome
    cases hsome
  · rintro (hinit | hname | ⟨n, hunlink⟩)
    · exact ⟨1, create_isSome_of_free _ _ (.inl hinit)⟩
    · exact ⟨1, create_isSome_of_free _ _ (.inr (.inl hname))⟩
    · exact ⟨n + 2, create_isSome_of_unlink hunlink⟩

/-! ### A name that cannot be removed -/

/-- The name `5` stands for an object without content. -/
def taken : Store :=
  ⟨fun _ => none, 1, fun name => if name = 5 then some 0 else none, fun _ => false⟩

/-- The theorem applies when the second unlink succeeds. -/
theorem returns_iff_second :
    Returns (fun n => { unlink := n == 1 }) taken (.new 1 5 .default) :=
  (returns_iff fun _ _ => rfl).mpr (.inr (.inr ⟨1, rfl⟩))

/-- Without permission to remove the name `Create` does not return. -/
theorem not_returns_taken :
    ReportsExist (fun _ => { unlink := false }) ∧
      ¬Returns (fun _ => { unlink := false }) taken (.new 1 5 .default) := by
  refine ⟨fun _ _ => rfl, ?_⟩
  rintro ⟨n, hsome⟩
  rw [create_eq_none_of_unlink rfl rfl (fun _ => rfl) fun _ => rfl] at hsome
  cases hsome

end ShmTest
