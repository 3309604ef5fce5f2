import Notebook.Interleaving.Threads
import Mathlib.Data.Int.ModEq

/-!
# A ring between producers and consumers

A bounded queue over a ring of slots, with three counters: `head` counts the elements taken,
`commit` the positions that are published and `tail` the positions that are reserved. A producer
reserves a position, writes its slot and publishes it in three separate operations; a consumer
takes the element at the position after `head`. The position `p` lives in the slot
`p % (size + 2)`, and the positions start at `1`.

The order of the queue is the order of the reservations: `enqueued` lists the elements in that
order. `Sound` says what the counters and the slots mean, and `Op.sound` that every operation of
any thread keeps it.
-/

open Function List Option

namespace Interleaving

/-- The counters and the slots of a ring, with the elements put into it in the order of the
reservations and the elements taken from it. -/
structure SlotRing (V : Type*) where
  head : ℕ
  commit : ℕ
  tail : ℕ
  pool : ℕ → V
  enqueued : List V
  dequeued : List V

namespace SlotRing

variable {V T : Type*} {size : ℕ} {r r' : SlotRing V}

/-- What a thread has under way: a position that it reserved for a value and has not yet written,
or one that it wrote and has not yet published. -/
inductive Role (V : Type*)
  | free
  | reserved (p : ℕ) (v : V)
  | written (p : ℕ)

/-- The position that a thread has reserved and not yet published. -/
def Role.pos : Role V → Option ℕ
  | .free => none
  | .reserved p _ => some p
  | .written p => some p

/-- One operation on a ring for `size` elements, with the role of the thread before and after. -/
inductive Op (size : ℕ) : SlotRing V → Role V → SlotRing V → Role V → Prop
  | keep (r : SlotRing V) (ρ : Role V) : Op size r ρ r ρ
  | reserve (r : SlotRing V) (v : V) (h : r.tail ≤ r.head + size) :
      Op size r .free { r with tail := r.tail + 1, enqueued := r.enqueued ++ [v] }
        (.reserved r.tail v)
  | write (r : SlotRing V) (p : ℕ) (v : V) :
      Op size r (.reserved p v) { r with pool := update r.pool (p % (size + 2)) v }
        (.written p)
  | publish (r : SlotRing V) :
      Op size r (.written r.commit) { r with commit := r.commit + 1 } .free
  | take (r : SlotRing V) (v : V) (h : r.head + 1 < r.commit) (hv : r.enqueued[r.head]? = some v) :
      Op size r .free { r with head := r.head + 1, dequeued := r.dequeued ++ [v] } .free

/-- The position that a thread has under way is reserved for its value and not published, and the
slot of a written position holds the value. -/
def Role.Sound (size : ℕ) (r : SlotRing V) : Role V → Prop
  | .free => True
  | .reserved p v => r.commit ≤ p ∧ p < r.tail ∧ r.enqueued[p - 1]? = some v
  | .written p =>
    r.commit ≤ p ∧ p < r.tail ∧ r.enqueued[p - 1]? = some (r.pool (p % (size + 2)))

/-- The meaning of a ring for `size` elements. -/
structure Sound (size : ℕ) (r : SlotRing V) (role : T → Role V) : Prop where
  head_lt : r.head < r.commit
  commit_le : r.commit ≤ r.tail
  tail_le : r.tail ≤ r.head + size + 1
  tail_eq : r.tail = r.enqueued.length + 1
  dequeued_eq : r.dequeued = r.enqueued.take r.head
  /-- The slots of the published positions hold their elements. -/
  slots : ∀ p, r.head < p → p < r.commit →
    r.enqueued[p - 1]? = some (r.pool (p % (size + 2)))
  roles : ∀ t, (role t).Sound size r
  /-- No two threads have the same position under way. -/
  distinct : ∀ t u p, (role t).pos = some p → (role u).pos = some p → t = u

/-- The ring `r'` is `r` after some operations. -/
structure Le (r r' : SlotRing V) : Prop where
  head : r.head ≤ r'.head
  commit : r.commit ≤ r'.commit
  tail : r.tail ≤ r'.tail
  enqueued : r.enqueued <+: r'.enqueued

theorem Op.le {ρ ρ' : Role V} (op : Op size r ρ r' ρ') : Le r r' := by
  cases op <;> constructor <;> simp

/-- Positions less than a turn of the ring apart live in different slots. -/
theorem eq_of_mod_eq {n p q : ℕ} (h : p % n = q % n) (hpq : p < q + n) (hqp : q < p + n) :
    p = q := by
  have habs : |(q : ℤ) - p| < n := by
    rw [abs_lt]
    omega
  exact Nat.ModEq.eq_of_abs_lt h habs

theorem sound_init (pool : ℕ → V) :
    Sound size ⟨0, 1, 1, pool, [], []⟩ fun _ : T => Role.free where
  head_lt := zero_lt_one
  commit_le := le_rfl
  tail_le := Nat.le_add_left _ _
  tail_eq := rfl
  dequeued_eq := rfl
  slots p h₁ h₂ := by simp only at h₁ h₂; omega
  roles _ := trivial
  distinct _ _ _ h := by simp [Role.pos] at h

/-- **First in, first out.** The elements taken are the first ones of the elements put in, and
they were all published. -/
theorem Sound.dequeued_prefix {role : T → Role V} (h : Sound size r role) :
    r.dequeued <+: r.enqueued.take (r.commit - 1) := by
  rw [h.dequeued_eq]
  have := h.head_lt
  exact take_prefix_take_left (by omega)

theorem Sound.dequeued_length {role : T → Role V} (h : Sound size r role) :
    r.dequeued.length = r.head := by
  have h₁ := h.head_lt
  have h₂ := h.commit_le
  have h₃ := h.tail_eq
  rw [h.dequeued_eq, length_take]
  omega

variable {ρ : Role V}

theorem Role.Sound.pos {p : ℕ} (h : ρ.Sound size r) (hp : ρ.pos = some p) :
    r.commit ≤ p ∧ p < r.tail := by
  cases ρ with
  | free => exact absurd hp (by simp [Role.pos])
  | reserved q v =>
    obtain rfl : q = p := some.inj hp
    exact ⟨h.1, h.2.1⟩
  | written q =>
    obtain rfl : q = p := some.inj hp
    exact ⟨h.1, h.2.1⟩

/-- What a thread has under way is not touched by an operation that leaves its position
unpublished and its slot alone. -/
theorem Role.Sound.of_le (h : ρ.Sound size r) (hle : Le r r')
    (hcommit : ∀ p, ρ.pos = some p → r'.commit ≤ p)
    (hpool : ∀ p, ρ.pos = some p → r'.pool (p % (size + 2)) = r.pool (p % (size + 2))) :
    ρ.Sound size r' := by
  cases ρ with
  | free => trivial
  | reserved p v =>
    exact ⟨hcommit p rfl, h.2.1.trans_le hle.tail, getElem?_mono hle.enqueued h.2.2⟩
  | written p =>
    refine ⟨hcommit p rfl, h.2.1.trans_le hle.tail, ?_⟩
    rw [hpool p rfl]
    exact getElem?_mono hle.enqueued h.2.2

variable [DecidableEq T] {role : T → Role V} {t : T}

/-- The roles stay sound when the new role of one thread is, and the operation left the roles of
the others alone. -/
private theorem roles_update (ht : ρ.Sound size r')
    (hu : ∀ u, u ≠ t → (role u).Sound size r') (u : T) :
    (update role t ρ u).Sound size r' :=
  (forall_update_iff role fun _ ρ => ρ.Sound size r').mpr ⟨ht, hu⟩ u

variable (h : Sound size r role)

include h

/-- The positions under way stay distinct when the position of one thread is kept, given up or
new. -/
private theorem distinct_update (hρ : ∀ p, ρ.pos = some p → (role t).pos = some p ∨ r.tail ≤ p)
    (u v : T) (p : ℕ)
    (hu : (update role t ρ u).pos = some p)
    (hv : (update role t ρ v).pos = some p) : u = v := by
  have key : ∀ w, w ≠ t → ρ.pos = some p → (role w).pos = some p → False := by
    intro w hw hp hwp
    rcases hρ p hp with hp | hp
    · exact hw (h.distinct w t p hwp hp)
    · exact absurd ((h.roles w).pos hwp).2 (not_lt.mpr hp)
  by_cases hut : u = t <;> by_cases hvt : v = t
  · rw [hut, hvt]
  · subst hut
    rw [update_self] at hu
    rw [update_of_ne hvt] at hv
    exact (key v hvt hu hv).elim
  · subst hvt
    rw [update_self] at hv
    rw [update_of_ne hut] at hu
    exact (key u hut hv hu).elim
  · rw [update_of_ne hut] at hu
    rw [update_of_ne hvt] at hv
    exact h.distinct u v p hu hv

private theorem sound_reserve (v : V) (hroom : r.tail ≤ r.head + size) :
    Sound size { r with tail := r.tail + 1, enqueued := r.enqueued ++ [v] }
      (update role t (.reserved r.tail v)) := by
  have hle : Le r { r with tail := r.tail + 1, enqueued := r.enqueued ++ [v] } :=
    ⟨le_rfl, le_rfl, Nat.le_succ _, prefix_append _ _⟩
  have hlast : (r.enqueued ++ [v])[r.tail - 1]? = some v := by
    rw [h.tail_eq, Nat.add_sub_cancel, getElem?_concat_length]
  have hhead : r.head ≤ r.enqueued.length := by
    have := h.head_lt
    have := h.commit_le
    have := h.tail_eq
    omega
  refine ⟨h.head_lt, h.commit_le.trans (Nat.le_succ _), ?_, ?_, ?_, ?_, ?_, ?_⟩
  · exact Nat.succ_le_succ hroom
  · simp only [length_append, length_singleton, h.tail_eq]
  · simp only [h.dequeued_eq, take_append_of_le_length hhead]
  · exact fun p h₁ h₂ => getElem?_mono hle.enqueued (h.slots p h₁ h₂)
  · refine roles_update ⟨h.commit_le, Nat.lt_succ_self _, hlast⟩ fun u _ => ?_
    exact (h.roles u).of_le hle (fun p hp => ((h.roles u).pos hp).1) fun _ _ => rfl
  · exact distinct_update h fun p hp => .inr (some.inj hp).le

private theorem sound_write {p : ℕ} {v : V} (ht : role t = .reserved p v) :
    Sound size { r with pool := update r.pool (p % (size + 2)) v }
      (update role t (.written p)) := by
  obtain ⟨hp₁, hp₂, hv⟩ : r.commit ≤ p ∧ p < r.tail ∧ r.enqueued[p - 1]? = some v := by
    simpa only [ht, Role.Sound] using h.roles t
  have hhead := h.head_lt
  have htail := h.tail_le
  -- the slot belongs to no other position between the head and the tail
  have hslot : ∀ q, r.head < q → q < r.tail → q ≠ p →
      update r.pool (p % (size + 2)) v (q % (size + 2)) = r.pool (q % (size + 2)) := by
    intro q hq₁ hq₂ hqp
    refine update_of_ne (fun hmod => hqp ?_) _ _
    exact eq_of_mod_eq hmod (by omega) (by omega)
  refine ⟨hhead, h.commit_le, htail, h.tail_eq, h.dequeued_eq, ?_, ?_, ?_⟩
  · intro q hq₁ hq₂
    simp only at hq₁ hq₂ ⊢
    rw [hslot q hq₁ (by omega) (by omega)]
    exact h.slots q hq₁ hq₂
  · refine roles_update ⟨hp₁, hp₂, by simpa only [update_self] using hv⟩ fun u hu => ?_
    refine (h.roles u).of_le ⟨le_rfl, le_rfl, le_rfl, prefix_rfl⟩
      (fun q hq => ((h.roles u).pos hq).1) fun q hq => ?_
    have hq' := (h.roles u).pos hq
    refine hslot q (by omega) hq'.2 fun hqp => hu (h.distinct u t q hq ?_)
    rw [ht, hqp, Role.pos]
  · exact distinct_update h fun q hq => .inl (by rw [ht, ← hq, Role.pos, Role.pos])

private theorem sound_publish (ht : role t = .written r.commit) :
    Sound size { r with commit := r.commit + 1 } (update role t .free) := by
  obtain ⟨-, hlt, hv⟩ : r.commit ≤ r.commit ∧ r.commit < r.tail ∧
      r.enqueued[r.commit - 1]? = some (r.pool (r.commit % (size + 2))) := by
    simpa only [ht, Role.Sound] using h.roles t
  refine ⟨h.head_lt.trans (Nat.lt_succ_self _), hlt, h.tail_le, h.tail_eq, h.dequeued_eq,
    ?_, ?_, ?_⟩
  · intro p h₁ h₂
    rcases Nat.lt_succ_iff_lt_or_eq.mp h₂ with hp | rfl
    · exact h.slots p h₁ hp
    · exact hv
  · refine roles_update trivial fun u hu => ?_
    refine (h.roles u).of_le ⟨le_rfl, Nat.le_succ _, le_rfl, prefix_rfl⟩ (fun p hp => ?_)
      fun _ _ => rfl
    refine lt_of_le_of_ne ((h.roles u).pos hp).1 fun hcp => hu (h.distinct u t p hp ?_)
    rw [ht, hcp, Role.pos]
  · exact distinct_update h fun p hp => absurd hp (by simp [Role.pos])

private theorem sound_take (ht : role t = .free) {v : V}
    (hlt : r.head + 1 < r.commit) (hv : r.enqueued[r.head]? = some v) :
    Sound size { r with head := r.head + 1, dequeued := r.dequeued ++ [v] }
      (update role t .free) := by
  rw [← ht, update_eq_self]
  refine ⟨hlt, h.commit_le, h.tail_le.trans (by simp only; omega), h.tail_eq, ?_, ?_, ?_,
    h.distinct⟩
  · simp only [h.dequeued_eq, take_add_one, hv, toList_some]
  · exact fun p h₁ h₂ => h.slots p (Nat.lt_of_succ_lt h₁) h₂
  · exact fun u => (h.roles u).of_le ⟨Nat.le_succ _, le_rfl, le_rfl, prefix_rfl⟩
      (fun p hp => ((h.roles u).pos hp).1) fun _ _ => rfl

/-- **Every operation keeps the meaning of the ring.** -/
theorem Op.sound {ρ' : Role V} (op : Op size r (role t) r' ρ') :
    Sound size r' (update role t ρ') := by
  generalize hρ : role t = ρ at op
  cases op with
  | keep => rwa [← hρ, update_eq_self]
  | reserve v hroom => exact sound_reserve h v hroom
  | write p v => exact sound_write h hρ
  | publish => exact sound_publish h hρ
  | take v hlt hv => exact sound_take h hρ hlt hv

end SlotRing

end Interleaving
