import Mathlib.Data.List.AList
import Mathlib.Algebra.BigOperators.Group.List.Basic
import Mathlib.Algebra.GroupWithZero.Nat

/-!
# Maps of maps

A finite map whose values are finite maps holds a value for some pairs of keys. This module has
the operations that programs make on such maps through the outer map: read the inner map at a key,
which is empty for a key without an entry, and put it back with one inner key inserted or erased.
Each operation is described by its effect on `lookup₂`, the value at a pair of keys, and the number
of pairs is the sum of the sizes of the inner maps.
-/

open List Option

namespace Container

variable {κ κ' β : Type*} [DecidableEq κ] [DecidableEq κ']

/-- A finite map. -/
abbrev Map (κ β : Type*) : Type _ := AList fun _ : κ => β

/-! ### Entries after an update -/

section Entries

variable {m : Map κ β} {k i : κ} {b c : β}

theorem lookup_insert_eq_some_iff :
    (m.insert k b).lookup i = some c ↔ (i = k ∧ b = c) ∨ (i ≠ k ∧ m.lookup i = some c) := by
  by_cases hi : i = k
  · subst hi
    simp
  · simp [hi]

theorem lookup_erase_eq_some_iff :
    (m.erase k).lookup i = some c ↔ i ≠ k ∧ m.lookup i = some c := by
  by_cases hi : i = k
  · subst hi
    simp
  · simp [hi]

end Entries

/-! ### Reading with a default -/

section Default

variable [Inhabited β] (m : Map κ β) (k : κ) (b : β)

/-- The value at a key; a key without an entry has the default value. -/
def valueAt : β := (m.lookup k).getD default

variable {m k}

theorem valueAt_of_lookup {b : β} (h : m.lookup k = some b) : valueAt m k = b := by
  rw [valueAt, h, getD_some]

theorem valueAt_of_notMem (h : k ∉ m) : valueAt m k = default := by
  rw [valueAt, AList.lookup_eq_none.mpr h, getD_none]

variable (m k)

@[simp] theorem valueAt_insert_self : valueAt (m.insert k b) k = b :=
  valueAt_of_lookup (AList.lookup_insert m)

variable {k}

theorem valueAt_insert_of_ne {i : κ} (h : i ≠ k) : valueAt (m.insert k b) i = valueAt m i := by
  rw [valueAt, AList.lookup_insert_ne h, valueAt]

variable (k)

theorem valueAt_enter (i : κ) :
    valueAt (if k ∈ m then m else m.insert k default) i = valueAt m i := by
  split_ifs with hk
  · rfl
  · by_cases hi : i = k
    · subst hi
      rw [valueAt_insert_self, valueAt_of_notMem hk]
    · rw [valueAt_insert_of_ne m _ hi]

end Default

/-! ### Pairs of keys -/

/-- The value at a pair of keys. -/
def lookup₂ (m : Map κ (Map κ' β)) (k : κ) (k' : κ') : Option β := (valueAt m k).lookup k'

variable (m : Map κ (Map κ' β)) (k i : κ) (k' j : κ') (b : β)

theorem lookup₂_insert :
    lookup₂ (m.insert k ((valueAt m k).insert k' b)) i j =
      if i = k ∧ j = k' then some b else lookup₂ m i j := by
  by_cases hi : i = k
  · subst hi
    by_cases hj : j = k'
    · subst hj
      simp [lookup₂]
    · simp [lookup₂, hj]
  · simp [lookup₂, valueAt_insert_of_ne m _ hi, hi]

theorem lookup₂_erase :
    lookup₂ (m.insert k ((valueAt m k).erase k')) i j =
      if i = k ∧ j = k' then none else lookup₂ m i j := by
  by_cases hi : i = k
  · subst hi
    by_cases hj : j = k'
    · subst hj
      simp [lookup₂]
    · simp [lookup₂, hj]
  · simp [lookup₂, valueAt_insert_of_ne m _ hi, hi]

theorem lookup₂_insert_empty {m : Map κ (Map κ' β)} {k : κ} (h : k ∉ m) :
    lookup₂ (m.insert k ∅) i j = lookup₂ m i j := by
  by_cases hi : i = k
  · subst hi
    rw [lookup₂, lookup₂, valueAt_insert_self, valueAt_of_notMem h]
    rfl
  · rw [lookup₂, lookup₂, valueAt_insert_of_ne m _ hi]

/-- The pairs of keys that have a value. -/
def pairs : List (κ × κ') := m.entries.flatMap fun e => e.2.keys.map (Prod.mk e.1)

/-- The number of values in all inner maps. -/
def size₂ : ℕ := (m.entries.map fun e => e.2.entries.length).sum

omit [DecidableEq κ] [DecidableEq κ'] in
theorem length_pairs : (pairs m).length = size₂ m := by
  simp [pairs, size₂, AList.keys, length_flatMap, List.keys]

omit [DecidableEq κ] [DecidableEq κ'] in
theorem nodup_pairs : (pairs m).Nodup := by
  refine nodup_flatMap.mpr ⟨fun e _ => ?_, ?_⟩
  · exact e.2.keys_nodup.map fun _ _ h => (Prod.mk.inj h).2
  · -- lists of pairs with different first components are disjoint
    refine (nodupKeys_iff_pairwise.mp m.nodupKeys).imp fun {e e'} hne => ?_
    rintro ⟨k, k'⟩ hk hk'
    obtain ⟨_, -, hk⟩ := mem_map.mp hk
    obtain ⟨_, -, hk'⟩ := mem_map.mp hk'
    exact hne ((Prod.mk.inj hk).1.trans (Prod.mk.inj hk').1.symm)

variable {m k k'}

theorem mem_pairs : (k, k') ∈ pairs m ↔ ∃ b, lookup₂ m k k' = some b := by
  constructor
  · intro h
    obtain ⟨⟨i, inner⟩, he, hk⟩ := mem_flatMap.mp h
    obtain ⟨j, hj, hij⟩ := mem_map.mp hk
    obtain ⟨rfl, rfl⟩ := Prod.mk.inj hij
    have hinner : valueAt m i = inner := valueAt_of_lookup (AList.mem_lookup_iff.mpr he)
    rw [lookup₂, hinner]
    exact isSome_iff_exists.mp (AList.lookup_isSome.mpr hj)
  · rintro ⟨b, hb⟩
    have hk : k ∈ m := by
      by_contra hk
      rw [lookup₂, valueAt_of_notMem hk] at hb
      exact some_ne_none b hb.symm
    obtain ⟨inner, hinner⟩ := isSome_iff_exists.mp (AList.lookup_isSome.mpr hk)
    rw [lookup₂, valueAt_of_lookup hinner] at hb
    refine mem_flatMap.mpr ⟨⟨k, inner⟩, AList.mem_lookup_iff.mp hinner, ?_⟩
    exact mem_map.mpr ⟨k', AList.lookup_isSome.mp (hb ▸ rfl), rfl⟩

end Container
