import Mathlib.Order.Interval.Finset.Nat

/-!
# Tickets of a counter that wraps around

A counter modulo `wrap` hands out tickets, and the ticket `t` belongs to the slot `t % n`. While the
counter does not wrap around, `n` consecutive tickets belong to `n` different slots. Across the
wrap-around they do so exactly when `n` divides `wrap`.
-/

open List

namespace Container

variable {wrap n start : ℕ}

/-- The slot of the ticket that is handed out `i` tickets after `start`. -/
def ticketSlot (wrap n start i : ℕ) : ℕ := (start + i) % wrap % n

/-- The slots of `k` consecutive tickets. -/
def ticketSlots (wrap n start k : ℕ) : List ℕ := (List.range k).map (ticketSlot wrap n start)

theorem ticketSlots_succ (hstart : start < wrap) (k : ℕ) :
    ticketSlots wrap n start (k + 1) =
      start % n :: ticketSlots wrap n ((start + 1) % wrap) k := by
  have hshift (i : ℕ) :
      ticketSlot wrap n start (i + 1) = ticketSlot wrap n ((start + 1) % wrap) i := by
    rw [ticketSlot, ticketSlot, Nat.mod_add_mod, Nat.add_assoc, Nat.add_comm 1 i]
  rw [ticketSlots, range_succ_eq_map, map_cons, map_map, ticketSlot, add_zero,
    Nat.mod_eq_of_lt hstart]
  exact congrArg _ (map_congr_left fun i _ => hshift i)

theorem nodup_ticketSlots_iff_injOn :
    (ticketSlots wrap n start n).Nodup ↔
      ∀ i < n, ∀ j < n, ticketSlot wrap n start i = ticketSlot wrap n start j → i = j := by
  rw [ticketSlots, nodup_map_iff_inj_on nodup_range]
  simp only [mem_range]

/-- Without a wrap-around, and with one that `n` does not notice, the slots are those of consecutive
numbers. -/
theorem injOn_ticketSlot (h : start + n ≤ wrap ∨ n ∣ wrap) {i j : ℕ} (hi : i < n) (hj : j < n)
    (hij : ticketSlot wrap n start i = ticketSlot wrap n start j) : i = j := by
  have hslot {k : ℕ} (hk : k < n) : ticketSlot wrap n start k = (start + k) % n := by
    rcases h with hle | hdvd
    · have hlt : start + k < wrap := by omega
      rw [ticketSlot, Nat.mod_eq_of_lt hlt]
    · rw [ticketSlot, Nat.mod_mod_of_dvd _ hdvd]
  rw [hslot hi, hslot hj] at hij
  have hinj := Nat.mod_injOn_Ico start n
    (Finset.mem_coe.mpr (Finset.mem_Ico.mpr ⟨Nat.le_add_right start i, by omega⟩))
    (Finset.mem_coe.mpr (Finset.mem_Ico.mpr ⟨Nat.le_add_right start j, by omega⟩)) hij
  exact add_left_cancel hinj

/-- The tickets before the wrap-around end with the slot `wrap % n - 1`, those after it start with
the slot `0`. Two of them have the same slot unless `wrap % n = 0`. -/
theorem exists_ticketSlot_eq (hstart : start < wrap) (hle : wrap < start + n) (hdvd : ¬n ∣ wrap) :
    ∃ i < n, ∃ j < n, i ≠ j ∧ ticketSlot wrap n start i = ticketSlot wrap n start j := by
  have hr : 0 < wrap % n := Nat.pos_of_ne_zero fun hzero => hdvd (Nat.dvd_of_mod_eq_zero hzero)
  have hrn : wrap % n < n := Nat.mod_lt _ (by omega)
  have hdiv := Nat.div_add_mod wrap n
  obtain ⟨left, hleft⟩ := Nat.exists_eq_add_of_le (Nat.le_of_lt hstart)
  by_cases hlr : wrap % n ≤ left
  · -- the last multiple of `n` before the wrap-around, and the `0` after it
    refine ⟨left - wrap % n, by omega, left, by omega, by omega, ?_⟩
    have hmul : start + (left - wrap % n) = n * (wrap / n) := by omega
    have hlt : n * (wrap / n) < wrap := by omega
    rw [ticketSlot, ticketSlot, hmul, ← hleft, Nat.mod_self, Nat.zero_mod, Nat.mod_eq_of_lt hlt,
      Nat.mul_mod_right]
  · -- the first ticket, and the one after the wrap-around with its slot
    refine ⟨0, by omega, wrap % n, hrn, by omega, ?_⟩
    have hfirst : start = n * (wrap / n) + (wrap % n - left) := by omega
    have hlast : start + wrap % n = wrap % n - left + wrap := by omega
    have hmod : (wrap % n - left) % wrap = wrap % n - left :=
      Nat.mod_eq_of_lt (by have := Nat.mod_le wrap n; omega)
    rw [ticketSlot, ticketSlot, hlast, Nat.add_mod_right, hmod, Nat.add_zero,
      Nat.mod_eq_of_lt hstart]
    conv_lhs => rw [hfirst, Nat.mul_add_mod]

/-- **Different slots.** -/
theorem nodup_ticketSlots_iff (hstart : start < wrap) :
    (ticketSlots wrap n start n).Nodup ↔ start + n ≤ wrap ∨ n ∣ wrap := by
  rw [nodup_ticketSlots_iff_injOn]
  constructor
  · intro hinj
    by_contra h
    obtain ⟨hle, hdvd⟩ := not_or.mp h
    obtain ⟨i, hi, j, hj, hne, heq⟩ := exists_ticketSlot_eq hstart (Nat.lt_of_not_le hle) hdvd
    exact hne (hinj i hi j hj heq)
  · intro h i hi j hj hij
    exact injOn_ticketSlot h hi hj hij

/-- **All slots.** Of `n` slots, `n` tickets with different slots have all, and conversely. -/
theorem forall_mem_ticketSlots_iff (hn : 0 < n) :
    (∀ slot < n, slot ∈ ticketSlots wrap n start n) ↔ (ticketSlots wrap n start n).Nodup := by
  let slot (i : Fin n) : Fin n := ⟨ticketSlot wrap n start i, Nat.mod_lt _ hn⟩
  have hsurj : (∀ b < n, b ∈ ticketSlots wrap n start n) ↔ Function.Surjective slot := by
    simp only [ticketSlots, mem_map, mem_range]
    constructor
    · rintro h ⟨b, hb⟩
      obtain ⟨i, hi, heq⟩ := h b hb
      exact ⟨⟨i, hi⟩, Fin.ext heq⟩
    · intro h b hb
      obtain ⟨i, heq⟩ := h ⟨b, hb⟩
      exact ⟨i, i.isLt, congrArg Fin.val heq⟩
  have hinj : (ticketSlots wrap n start n).Nodup ↔ Function.Injective slot := by
    rw [nodup_ticketSlots_iff_injOn]
    constructor
    · intro h i j heq
      exact Fin.ext (h i i.isLt j j.isLt (congrArg Fin.val heq))
    · intro h i hi j hj heq
      exact congrArg Fin.val (h (Fin.ext heq : slot ⟨i, hi⟩ = slot ⟨j, hj⟩))
  rw [hsurj, hinj, Finite.injective_iff_surjective]

end Container
