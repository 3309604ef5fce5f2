import Mathlib.Data.List.Count
import Mathlib.Data.List.Perm.Basic

/-!
# Items in queues

A number of queues, one for each element of a type `P` of places, hold items. A *placement* says
where each item is: an item has one place and is once in the queue of that place, or it has none
and is in no queue. Enqueueing an item without a place and removing an item from the queue of its
place keep a placement.
-/

open Function List

namespace Container

variable {R P : Type*} [DecidableEq R] [DecidableEq P]

/-- Every item is once in the queue of its place and in no other queue. -/
def Placement (place : R → Option P) (queue : P → List R) : Prop :=
  ∀ r p, (queue p).count r = if place r = some p then 1 else 0

variable {place : R → Option P} {queue : P → List R} {r : R} {p : P} {q : List R}

theorem Placement.mem_iff (h : Placement place queue) : r ∈ queue p ↔ place r = some p := by
  rw [← count_pos_iff, h r p]
  split_ifs with hp <;> simp [hp]

/-- An item without a place is put into the queue of `p`, at any position. -/
theorem Placement.enqueue (h : Placement place queue) (hr : place r = none)
    (hq : q.Perm (r :: queue p)) :
    Placement (update place r (some p)) (update queue p q) := by
  intro r' p'
  by_cases hp : p' = p
  · subst hp
    rw [update_self, hq.count_eq]
    by_cases hr' : r' = r
    · subst hr'
      simp [h r' p', hr]
    · rw [count_cons_of_ne (Ne.symm hr'), update_of_ne hr', h r' p']
  · rw [update_of_ne hp, h r' p']
    by_cases hr' : r' = r
    · subst hr'
      simp [hr, Ne.symm hp]
    · rw [update_of_ne hr']

theorem Placement.remove (h : Placement place queue) (hr : place r = some p)
    (hq : (queue p).Perm (r :: q)) :
    Placement (update place r none) (update queue p q) := by
  intro r' p'
  by_cases hp : p' = p
  · subst hp
    rw [update_self]
    have hcount := h r' p'
    rw [hq.count_eq] at hcount
    by_cases hr' : r' = r
    · subst hr'
      simpa [hr] using hcount
    · rwa [count_cons_of_ne (Ne.symm hr'), ← update_of_ne hr' none place] at hcount
  · rw [update_of_ne hp, h r' p']
    by_cases hr' : r' = r
    · subst hr'
      simp [hr, Ne.symm hp]
    · rw [update_of_ne hr']

omit [DecidableEq P] in
/-- The first item that passes a test, when one item alone passes it. -/
theorem perm_cons_eraseP {test : R → Bool} {l : List R} (hr : r ∈ l)
    (htest : ∀ r' ∈ l, test r' = true ↔ r' = r) : l.Perm (r :: l.eraseP test) := by
  induction l with
  | nil => exact absurd hr not_mem_nil
  | cons x l ih =>
    by_cases hx : x = r
    · subst hx
      rw [eraseP_cons_of_pos ((htest x hr).mpr rfl)]
    · have hfalse : ¬test x = true := fun h => hx ((htest x mem_cons_self).mp h)
      have hmem : r ∈ l := (mem_cons.mp hr).resolve_left (Ne.symm hx)
      rw [eraseP_cons_of_neg hfalse]
      have hl := ih hmem fun r' h => htest r' (mem_cons_of_mem x h)
      exact (hl.cons x).trans (List.Perm.swap r x _)

end Container
