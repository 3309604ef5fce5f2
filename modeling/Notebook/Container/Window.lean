import Mathlib.Order.Interval.Finset.Nat

/-!
# The end of a growing list in a ring

A ring of `cap` slots keeps the last elements of a list that only grows: the element at the
position `p`, counted from `1`, lives in the slot `p % cap`. `Window cap lo l slots` says that the
slots hold the elements of `l` at all positions after `lo`.
-/

open Function List

namespace Container

variable {V : Type*} {cap lo : ℕ} {l : List V} {slots : ℕ → V}

/-- The slots hold the elements of `l` at the positions after `lo`. -/
def Window (cap lo : ℕ) (l : List V) (slots : ℕ → V) : Prop :=
  ∀ p, lo < p → p ≤ l.length → l[p - 1]? = some (slots (p % cap))

theorem window_nil : Window cap lo [] slots := by
  intro p hlo hp
  rw [length_nil] at hp
  omega

/-- **One more element.** The slot of the new position is free as long as no more than `cap`
positions are kept. -/
theorem Window.push (h : Window cap lo l slots) {lo' : ℕ} (hlo : lo ≤ lo')
    (hcap : l.length + 1 ≤ lo' + cap) (v : V) :
    Window cap lo' (l ++ [v]) (update slots ((l.length + 1) % cap) v) := by
  intro p hp hle
  rw [length_append, length_singleton] at hle
  rcases lt_or_eq_of_le hle with hold | rfl
  · -- positions less than a turn apart live in different slots
    have hne : p % cap ≠ (l.length + 1) % cap := by
      intro heq
      have hinj := Nat.mod_injOn_Ico (lo' + 1) cap
        (Finset.mem_coe.mpr (Finset.mem_Ico.mpr ⟨hp, by omega⟩))
        (Finset.mem_coe.mpr (Finset.mem_Ico.mpr ⟨by omega, by omega⟩)) heq
      omega
    rw [update_of_ne hne, getElem?_append_left (by omega)]
    exact h p (by omega) (Nat.le_of_lt_succ hold)
  · rw [Nat.add_sub_cancel, update_self, getElem?_concat_length]

end Container
