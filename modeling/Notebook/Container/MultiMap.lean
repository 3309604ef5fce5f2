import Mathlib.Data.List.Perm.Basic

/-!
# Multimaps as indexes

A multimap is a list of keys with values. Used as an index it stores every value under a key that
the value determines (`Keyed`), and values are removed by key together with a further test. Two
indexes over the same values, with different keys, may then remove different values;
`perm_filter_iff` says when they still hold the same multiset afterwards, if one of them never
removes more than the other.
-/

/-- Keys with values; a key may occur several times. -/
abbrev MultiMap (K V : Type*) : Type _ := List (K × V)

open List

namespace MultiMap

variable {K V A : Type*}

/-- The values, as a list of which only the multiset matters. -/
def values (w : MultiMap K V) : List V := w.map Prod.snd

/-- A value is stored under a key. -/
def add (w : MultiMap K V) (k : K) (v : V) : MultiMap K V := w ++ [(k, v)]

/-- Every value is stored under its own key. -/
def Keyed (key : V → K) (w : MultiMap K V) : Prop := ∀ item ∈ w, item.1 = key item.2

variable {key : V → K} {w : MultiMap K V} {k : K} {v : V}

@[simp] theorem values_add (w : MultiMap K V) (k : K) (v : V) :
    (w.add k v).values = w.values ++ [v] := map_append ..

theorem Keyed.add (h : Keyed key w) (v : V) : Keyed key (w.add (key v) v) := by
  intro item hitem
  rcases mem_append.mp hitem with hitem | hitem
  · exact h item hitem
  · obtain rfl := mem_singleton.mp hitem
    rfl

variable [DecidableEq K]

/-- The values under a key that pass a test are removed. -/
def remove (w : MultiMap K V) (k : K) (test : V → Bool) : MultiMap K V :=
  w.filter fun item => !(decide (item.1 = k) && test item.2)

/-- A removal for each element of a list. -/
def removeAll (w : MultiMap K V) (k : A → K) (test : A → V → Bool) (as : List A) : MultiMap K V :=
  as.foldl (fun w a => w.remove (k a) (test a)) w

theorem Keyed.remove (h : Keyed key w) (k : K) (test : V → Bool) : Keyed key (w.remove k test) :=
  fun item hitem => h item (mem_of_mem_filter hitem)

theorem Keyed.values_remove (h : Keyed key w) (k : K) (test : V → Bool) :
    (w.remove k test).values = w.values.filter fun v => !(decide (key v = k) && test v) := by
  have hfilter : w.remove k test =
      w.filter ((fun v => !(decide (key v = k) && test v)) ∘ Prod.snd) := by
    refine filter_congr fun item hitem => ?_
    rw [h item hitem]
    rfl
  rw [hfilter, values, values, filter_map]

theorem Keyed.removeAll (h : Keyed key w) (k : A → K) (test : A → V → Bool) (as : List A) :
    Keyed key (w.removeAll k test as) := by
  induction as generalizing w with
  | nil => exact h
  | cons a as ih => exact ih (h.remove (k a) (test a))

/-- **What a sequence of removals leaves in an index.** -/
theorem Keyed.values_removeAll (h : Keyed key w) (k : A → K) (test : A → V → Bool) (as : List A) :
    (w.removeAll k test as).values =
      w.values.filter fun v => as.all fun a => !(decide (key v = k a) && test a v) := by
  induction as generalizing w with
  | nil => simp [MultiMap.removeAll]
  | cons a as ih =>
    have hstep : w.removeAll k test (a :: as) =
        (w.remove (k a) (test a)).removeAll k test as := rfl
    rw [hstep, ih (h.remove (k a) (test a)), h.values_remove, filter_filter]
    refine filter_congr fun v _ => ?_
    rw [all_cons, Bool.and_comm]

omit [DecidableEq K] in
/-- **Two filtered copies of one multiset.** Where whatever `q` keeps `p` keeps too, the copies
agree exactly when `p` keeps no more of the values than `q`. -/
theorem perm_filter_iff {l l' : List V} {p q : V → Bool} (h : l.Perm l') (hqp : ∀ v, q v → p v) :
    (l.filter p).Perm (l'.filter q) ↔ ∀ v ∈ l', p v → q v := by
  constructor
  · intro hperm
    have hsub : (l'.filter q).Sublist (l'.filter p) := monotone_filter_right l' hqp
    have hlen : (l'.filter p).length = (l'.filter q).length :=
      ((h.filter p).symm.trans hperm).length_eq
    have heq : l'.filter q = l'.filter p := hsub.eq_of_length hlen.symm
    intro v hv hp
    exact (mem_filter.mp (heq ▸ mem_filter.mpr ⟨hv, hp⟩)).2
  · intro hall
    have heq : l'.filter p = l'.filter q :=
      filter_congr fun v hv => Bool.eq_iff_iff.mpr ⟨hall v hv, hqp v⟩
    exact heq ▸ h.filter p

end MultiMap
