import Notebook.Container.NestedMap
import Mathlib.Data.Fintype.Card

/-!
# Probing in a map

A value is given a key by probing: starting from a key that depends on the value, the next key is
tried as long as the key at hand holds another value. The search stops at a key that is free or that
already holds the value.

`Probed next m v k k'` says that a search for `v` which is at `k` can come to `k'` in the map `m`;
`probe` is the search itself, with a bound on the number of keys that it tries. The lemmas apply to
a map that other searches change between two trials, as long as the values that it holds stay
(`Probed.mono`).
-/

open Option

namespace Container

variable {K V : Type*} {next : K → K} {m m' : K → Option V} {v : V} {k k₁ k₂ : K}

/-- One trial of a search for `v`: the key `k` holds another value. -/
def ProbeStep (next : K → K) (m : K → Option V) (v : V) (k k' : K) : Prop :=
  (∃ w, m k = some w ∧ w ≠ v) ∧ k' = next k

/-- A search for `v` that is at the first key can come to the second. -/
def Probed (next : K → K) (m : K → Option V) (v : V) : K → K → Prop :=
  Relation.ReflTransGen (ProbeStep next m v)

theorem Probed.pass {w : V} (h : Probed next m v k k₁) (hw : m k₁ = some w) (hne : w ≠ v) :
    Probed next m v k (next k₁) :=
  Relation.ReflTransGen.tail h ⟨⟨w, hw, hne⟩, rfl⟩

theorem Probed.mono (h : Probed next m v k k₁) (hm : ∀ j w, m j = some w → m' j = some w) :
    Probed next m' v k k₁ := by
  refine Relation.ReflTransGen.mono (fun i j => ?_) k k₁ h
  rintro ⟨⟨w, hw, hne⟩, hj⟩
  exact ⟨⟨w, hm i w hw, hne⟩, hj⟩

theorem Probed.eq_of_stop (h : Probed next m v k k₁) (hk : ∀ w, m k = some w → w = v) :
    k₁ = k := by
  rcases Relation.ReflTransGen.cases_head h with rfl | ⟨_, ⟨⟨w, hw, hne⟩, -⟩, -⟩
  · rfl
  · exact absurd (hk w hw) hne

/-- Two searches for one value from one key end at the same key. -/
theorem Probed.eq_of_holds (h₁ : Probed next m v k k₁) (h₂ : Probed next m v k k₂)
    (hk₁ : ∀ w, m k₁ = some w → w = v) (hk₂ : ∀ w, m k₂ = some w → w = v) : k₁ = k₂ := by
  have hunique : Relator.RightUnique (ProbeStep next m v) := by
    rintro a b c ⟨-, rfl⟩ ⟨-, rfl⟩
    rfl
  rcases Relation.ReflTransGen.total_of_right_unique hunique h₁ h₂ with h | h
  · exact (Probed.eq_of_stop h hk₁).symm
  · exact Probed.eq_of_stop h hk₂

/-! ### Values where their searches end -/

section Reached

variable [DecidableEq K] {next : K → K} {start : V → K} {m : Map K V}

/-- Every value of the map is found by a search that starts from its own key. -/
def Reached (next : K → K) (start : V → K) (m : Map K V) : Prop :=
  ∀ k v, m.lookup k = some v → Probed next m.lookup v (start v) k

theorem Reached.key_unique (h : Reached next start m) {v : V} {k₁ k₂ : K}
    (h₁ : m.lookup k₁ = some v) (h₂ : m.lookup k₂ = some v) : k₁ = k₂ := by
  refine Probed.eq_of_holds (h k₁ v h₁) (h k₂ v h₂) ?_ ?_
  · exact fun w hw => some.inj (hw.symm.trans h₁)
  · exact fun w hw => some.inj (hw.symm.trans h₂)

/-- A value that is stored at a free key, or again at its own, leaves the others as they are. -/
theorem lookup_insert_mono {k : K} {v : V} (hfree : ∀ w ∈ m.lookup k, w = v) (j : K) (w : V)
    (h : m.lookup j = some w) : (m.insert k v).lookup j = some w := by
  by_cases hj : j = k
  · subst hj
    rw [AList.lookup_insert, hfree w h]
  · rwa [AList.lookup_insert_ne hj]

/-- A value is stored where its search has come to. -/
theorem Reached.insert (h : Reached next start m) {k : K} {v : V}
    (hprobed : Probed next m.lookup v (start v) k) (hfree : ∀ w ∈ m.lookup k, w = v) :
    Reached next start (m.insert k v) := by
  intro j w hw
  rcases lookup_insert_eq_some_iff.mp hw with ⟨rfl, rfl⟩ | ⟨-, hw⟩
  · exact hprobed.mono (lookup_insert_mono hfree)
  · exact (h j w hw).mono (lookup_insert_mono hfree)

end Reached

/-! ### The search -/

/-- A search for `v` from a key, over a bounded number of keys. -/
def probe [DecidableEq V] (next : K → K) (m : K → Option V) (v : V) : ℕ → K → Option K
  | 0, _ => none
  | bound + 1, k =>
    match m k with
    | none => some k
    | some w => if w = v then some k else probe next m v bound (next k)

variable [DecidableEq V] {bound : ℕ}

theorem probe_spec (h : probe next m v bound k = some k₁) :
    Probed next m v k k₁ ∧ ∀ w, m k₁ = some w → w = v := by
  induction bound generalizing k with
  | zero => exact absurd h (by simp [probe])
  | succ bound ih =>
    unfold probe at h
    split at h
    · next hk =>
      obtain rfl := some.inj h
      exact ⟨.refl, by simp [hk]⟩
    · next w hk =>
      split_ifs at h with hw
      · obtain rfl := some.inj h
        exact ⟨.refl, fun w' hw' => some.inj (hk.symm.trans hw') ▸ hw⟩
      · obtain ⟨hprobed, hend⟩ := ih h
        exact ⟨Relation.ReflTransGen.head ⟨⟨w, hk, hw⟩, rfl⟩ hprobed, hend⟩

/-- A search that does not end has found all its keys taken by other values. -/
theorem taken_of_probe_eq_none (h : probe next m v bound k = none) (i : ℕ) (hi : i < bound) :
    ∃ w, m (next^[i] k) = some w ∧ w ≠ v := by
  induction bound generalizing k i with
  | zero => exact absurd hi (Nat.not_lt_zero i)
  | succ bound ih =>
    unfold probe at h
    split at h
    · cases h
    · next w hk =>
      split_ifs at h with hw
      cases i with
      | zero => exact ⟨w, hk, hw⟩
      | succ i => exact ih h i (Nat.lt_of_succ_lt_succ hi)

/-- A search over more keys than the map holds ends, if its keys are different. -/
theorem exists_probe [DecidableEq K] {next : K → K} (m : Map K V) (v : V) (k : K)
    (hinj : Set.InjOn (fun i : ℕ => next^[i] k) (Set.Iic m.entries.length)) :
    ∃ k₁, probe next m.lookup v (m.entries.length + 1) k = some k₁ := by
  refine ne_none_iff_exists'.mp fun hnone => ?_
  have hmaps : ∀ i ∈ Finset.range (m.entries.length + 1), next^[i] k ∈ m.keys.toFinset := by
    intro i hi
    obtain ⟨w, hw, -⟩ := taken_of_probe_eq_none hnone i (Finset.mem_range.mp hi)
    exact List.mem_toFinset.mpr (AList.lookup_isSome.mp (hw ▸ rfl))
  have hcard : m.keys.toFinset.card < (Finset.range (m.entries.length + 1)).card := by
    rw [Finset.card_range, List.toFinset_card_of_nodup m.keys_nodup]
    simp [AList.keys, List.keys]
  obtain ⟨i, hi, j, hj, hne, heq⟩ :=
    Finset.exists_ne_map_eq_of_card_lt_of_maps_to hcard hmaps
  exact hne (hinj (Nat.lt_succ_iff.mp (Finset.mem_range.mp hi))
    (Nat.lt_succ_iff.mp (Finset.mem_range.mp hj)) heq)

end Container
