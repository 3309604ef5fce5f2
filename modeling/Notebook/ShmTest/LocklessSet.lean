import Notebook.ShmTest.AllocMemoryAcquire

/-!
# The set of process ids as a set

`LocklessSet` (`lockless.h`) keeps its elements in an array of slots, in which `0` is a free slot.
`Insert` takes the first slot that is free or holds the element already. A removal can open a hole
in front of an element, and an `Insert` of that element then stops at the hole and stores it a
second time; a `Remove` that returns `true` afterwards leaves the other copy in the set.

The calls do not overlap here, so every `compare_exchange_strong` succeeds. Then the result of
`Insert` is always right.
-/

open Interleaving List

namespace ShmTest

namespace LocklessSet

/-! ### The calls -/

/-- The result of `LocklessSet::Remove`: that of the exchange at the first slot that holds the
element, or `false` after the loop. -/
def removeReturn (elem : ℕ) : List ℕ → Bool
  | [] => false
  | probedElem :: slots => if probedElem = elem then true else removeReturn elem slots

/-- A call of a member function of the set. -/
inductive Call
  | insert (elem : ℕ)
  | remove (elem : ℕ)
deriving DecidableEq, Repr

namespace Call

/-- The element a call is about. -/
def elem : Call → ℕ
  | insert elem => elem
  | remove elem => elem

/-- What a call returns. -/
def returns : Call → List ℕ → Bool
  | insert elem, slots => (LocklessSet.insert elem slots).isSome
  | remove elem, slots => removeReturn elem slots

/-- The slots after a call. -/
def slots : Call → List ℕ → List ℕ
  | insert elem, slots => (LocklessSet.insert elem slots).getD slots
  | remove elem, slots => LocklessSet.remove elem slots

end Call

/-- One call. `0` stands for a free slot and is not an element. -/
def step (slots : List ℕ) (c : Call) : Option (List ℕ) :=
  if c.elem = 0 then none else some (c.slots slots)

/-- The set is a set: no element is in two slots, `Insert` returns `true` exactly when the element
is present or a slot is free, and an element is absent after a `Remove` that returns `true`. -/
structure IsSet (slots : List ℕ) : Prop where
  count_le_one : ∀ x ≠ 0, slots.count x ≤ 1
  insert_returns : ∀ x ≠ 0, (Call.insert x).returns slots = true ↔ x ∈ slots ∨ 0 ∈ slots
  remove_absent : ∀ x ≠ 0, (Call.remove x).returns slots = true → x ∉ (Call.remove x).slots slots

/-- The call is not an `Insert` of an element that is present with a free slot before it. -/
def NoHole (slots : List ℕ) : Call → Prop
  | .insert x => x ∈ slots → 0 ∉ slots.take (slots.idxOf x)
  | .remove _ => True

instance (slots : List ℕ) (c : Call) : Decidable (NoHole slots c) := by
  cases c <;> unfold NoHole <;> infer_instance

/-! ### What the calls do -/

variable {x y : ℕ} {slots : List ℕ}

/-- **What `Insert` does.** It fails on a full set without the element, it finds the element and
changes nothing, or it fills the first free slot; in the last case the element can still stand in a
later slot. -/
theorem insert_cases (x : ℕ) (slots : List ℕ) :
    x ∉ slots ∧ 0 ∉ slots ∧ insert x slots = none ∨
    (∃ before after, slots = before ++ x :: after ∧ 0 ∉ before ∧ x ∉ before ∧
      insert x slots = some slots) ∨
    ∃ before after, slots = before ++ 0 :: after ∧ 0 ∉ before ∧ x ∉ before ∧ x ≠ 0 ∧
      insert x slots = some (before ++ x :: after) := by
  induction slots with
  | nil => exact .inl ⟨by simp, by simp, rfl⟩
  | cons p slots ih =>
    by_cases hp : p = x
    · subst hp
      exact .inr (.inl ⟨[], slots, rfl, by simp, by simp, by simp [insert]⟩)
    by_cases h0 : p = 0
    · subst h0
      exact .inr (.inr ⟨[], slots, rfl, by simp, by simp, Ne.symm hp, by simp [insert, hp]⟩)
    -- the slot is passed over, and the rest of the loop decides
    have hrec : insert x (p :: slots) = (insert x slots).map (p :: ·) := by
      rw [insert, if_pos hp, if_pos h0]
    rcases ih with ⟨hx, hfree, hnone⟩ | ⟨before, after, hslots, hfree, hx, hsome⟩ |
      ⟨before, after, hslots, hfree, hx, hne, hsome⟩
    · refine .inl ⟨?_, ?_, by rw [hrec, hnone]; rfl⟩
      · simp [hx, Ne.symm hp]
      · simp [hfree, Ne.symm h0]
    · refine .inr (.inl ⟨p :: before, after, by rw [hslots]; rfl, ?_, ?_, by rw [hrec, hsome]; rfl⟩)
      · simp [hfree, Ne.symm h0]
      · simp [hx, Ne.symm hp]
    · refine .inr (.inr ⟨p :: before, after, by rw [hslots]; rfl, ?_, ?_, hne, ?_⟩)
      · simp [hfree, Ne.symm h0]
      · simp [hx, Ne.symm hp]
      · rw [hrec, hsome]
        rfl

theorem count_remove_self (hx : x ≠ 0) : (remove x slots).count x = slots.count x - 1 := by
  induction slots with
  | nil => rfl
  | cons p slots ih =>
    rw [remove]
    by_cases hp : p = x
    · subst hp
      simp [Ne.symm hx]
    · simp [hp, ih]

theorem count_remove_le (hy : y ≠ 0) : (remove x slots).count y ≤ slots.count y := by
  induction slots with
  | nil => rfl
  | cons p slots ih =>
    rw [remove]
    by_cases hp : p = x
    · rw [if_pos hp, count_cons_of_ne (Ne.symm hy)]
      exact count_le_count_cons
    · rw [if_neg hp, count_cons, count_cons]
      omega

theorem not_noHole_of_append {before after : List ℕ} (hx : x ∉ before) (hne : x ≠ 0)
    (hmem : x ∈ after) : ¬NoHole (before ++ 0 :: after) (.insert x) := by
  intro h
  refine h (by simp [hmem]) ?_
  rw [idxOf_append_of_notMem hx, idxOf_cons_ne _ (Ne.symm hne), take_append]
  simp

theorem noHole_of_append {before after : List ℕ} (hx : x ∉ before) (hfree : 0 ∉ before) :
    NoHole (before ++ x :: after) (.insert x) := by
  intro _
  rw [idxOf_append_of_notMem hx, idxOf_cons_self, add_zero, take_left]
  exact hfree

/-! ### Runs -/

/-- The result of `Insert` is right in every state, and a `Remove` that returns `true` leaves no
occurrence when there was only one. -/
theorem isSet_of_count_le_one (h : ∀ x ≠ 0, slots.count x ≤ 1) : IsSet slots where
  count_le_one := h
  insert_returns := fun _ _ => insert_isSome_iff
  remove_absent := by
    intro x hx _
    have hcount : (remove x slots).count x = 0 := by
      rw [count_remove_self hx]
      have := h x hx
      omega
    exact count_eq_zero.mp hcount

theorem count_le_one_slots {c : Call} (h : ∀ x ≠ 0, slots.count x ≤ 1) (hhole : NoHole slots c) :
    ∀ x ≠ 0, (c.slots slots).count x ≤ 1 := by
  intro y hy
  cases c with
  | remove x => exact (count_remove_le hy).trans (h y hy)
  | insert x =>
    rcases insert_cases x slots with ⟨-, -, hcall⟩ | ⟨-, -, -, -, -, hcall⟩ |
      ⟨before, after, rfl, -, hx, hne, hcall⟩
    · rw [Call.slots, hcall]
      exact h y hy
    · rw [Call.slots, hcall]
      exact h y hy
    -- the element is neither before the free slot nor, without a hole, after it
    have hafter : x ∉ after := fun hmem => not_noHole_of_append hx hne hmem hhole
    rw [Call.slots, hcall, Option.getD_some, count_append]
    by_cases hyx : y = x
    · subst hyx
      rw [count_eq_zero.mpr hx, count_cons_self, count_eq_zero.mpr hafter]
    · have := h y hy
      rw [count_append, count_cons_of_ne (Ne.symm hy)] at this
      rwa [count_cons_of_ne (Ne.symm hyx)]

theorem two_le_count_of_hole {c : Call} (hhole : ¬NoHole slots c) :
    2 ≤ (c.slots slots).count c.elem := by
  cases c with
  | remove x => exact absurd trivial hhole
  | insert x =>
    rcases insert_cases x slots with ⟨hx, -, -⟩ | ⟨before, after, rfl, hfree, hx, -⟩ |
      ⟨before, after, rfl, -, hx, hx0, hcall⟩
    · exact absurd (fun hmem => absurd hmem hx) hhole
    · exact absurd (noHole_of_append hx hfree) hhole
    have hmem : x ∈ after := by
      by_contra hafter
      have habsent : x ∉ before ++ 0 :: after := by simp [hx, hafter, hx0]
      exact hhole fun hmem => absurd hmem habsent
    have hpos : 0 < after.count x := count_pos_iff.mpr hmem
    simp only [Call.slots, hcall, Option.getD_some, Call.elem, count_append,
      count_cons_self]
    omega

theorem step_eq_some {slots' : List ℕ} {c : Call} :
    step slots c = some slots' ↔ c.elem ≠ 0 ∧ c.slots slots = slots' := by
  by_cases h : c.elem = 0 <;> simp [step, h]

/-- **When the set is a set.** The set is empty at first, with any number of slots. It is a set
after every call of a run exactly when no `Insert` of the run meets a free slot before a slot that
holds its element. -/
theorem isSet_iff_noHole (size : ℕ) {calls : List Call} {slots : List ℕ}
    (h : exec step (List.replicate size 0) calls = some slots) :
    (∀ cs, cs <+: calls → ∀ slots', exec step (List.replicate size 0) cs = some slots' →
      IsSet slots') ↔ AllSteps step NoHole (List.replicate size 0) calls := by
  refine forall_prefix_iff_allSteps (fun slots => ∀ x ≠ 0, slots.count x ≤ 1)
    (fun _ => isSet_of_count_le_one) ?_ ?_ ?_ h
  · rintro slots c slots' hcount hhole hstep
    obtain ⟨-, rfl⟩ := step_eq_some.mp hstep
    exact count_le_one_slots hcount hhole
  · rintro slots c slots' - hhole hstep hset
    obtain ⟨hne, rfl⟩ := step_eq_some.mp hstep
    exact absurd (two_le_count_of_hole hhole) (hset.count_le_one c.elem hne).not_gt
  · intro x hx
    rw [count_eq_zero.mpr]
    · exact Nat.zero_le 1
    · exact fun hmem => hx (eq_of_mem_replicate hmem)

/-- Two elements, and the first is removed. -/
def hole : List Call := [.insert 1, .insert 2, .remove 1]

/-- The theorem applies to a run that opens a hole and fills it with a new element. -/
theorem isSet_iff_noHole_refill :
    exec step (List.replicate 2 0) (hole ++ [.insert 3]) = some [3, 2] ∧
      ∀ cs, cs <+: hole ++ [.insert 3] → ∀ slots', exec step (List.replicate 2 0) cs = some slots' →
        IsSet slots' := by
  have hrun : exec step (List.replicate 2 0) (hole ++ [.insert 3]) = some [3, 2] := by decide
  exact ⟨hrun, (isSet_iff_noHole 2 hrun).mpr (by decide)⟩

/-- The second element is inserted again and is in both slots; a `Remove` that returns `true` leaves
one of them. -/
theorem stored_twice :
    exec step (List.replicate 2 0) (hole ++ [.insert 2]) = some [2, 2] ∧
      (Call.remove 2).returns [2, 2] = true ∧ 2 ∈ (Call.remove 2).slots [2, 2] ∧
      ¬IsSet [2, 2] := by
  refine ⟨by decide, by decide, by decide, fun h => ?_⟩
  exact absurd (h.count_le_one 2 (by decide)) (by decide)

end LocklessSet

end ShmTest
