import Mathlib.Data.Set.Card

/-!
# Runs of a guarded step function

A component is given by a partial step function `step : σ → α → Option σ`: `step s a` is `none` when
the event `a` cannot happen in the state `s`. A *run* is a list of events, and `exec` takes it from
a state to the state it ends in; `none` says that some event of the list was not possible when its
turn came. The events of several threads stand in one list, so a statement about every list of
events is one about every interleaving.

A property that holds only of the runs whose steps avoid a bad situation is stated with `AllSteps
step C s as`: the condition `C` holds of every event of the run at the state in which the event
happens.
-/

open Function List Option

namespace Interleaving

variable {σ α : Type*} {step : σ → α → Option σ}

/-! ### Runs -/

/-- The state in which a run ends, or `none` when one of its events is not possible. -/
def exec (step : σ → α → Option σ) : σ → List α → Option σ
  | s, [] => some s
  | s, a :: as => (step s a).bind fun s' => exec step s' as

@[simp] theorem exec_nil (s : σ) : exec step s [] = some s := rfl

theorem exec_cons (s : σ) (a : α) (as : List α) :
    exec step s (a :: as) = (step s a).bind fun s' => exec step s' as := rfl

variable {as : List α} {a : α}

theorem exec_cons_eq_some {s s'' : σ} :
    exec step s (a :: as) = some s'' ↔ ∃ s', step s a = some s' ∧ exec step s' as = some s'' := by
  rw [exec_cons, bind_eq_some_iff]

theorem exec_append (s : σ) (as bs : List α) :
    exec step s (as ++ bs) = (exec step s as).bind fun s' => exec step s' bs := by
  induction as generalizing s with
  | nil => rfl
  | cons a as ih =>
    rw [cons_append, exec_cons, exec_cons]
    cases step s a with
    | none => rfl
    | some s' => exact ih s'

theorem exec_append_eq_some {s s'' : σ} {as bs : List α} :
    exec step s (as ++ bs) = some s'' ↔
      ∃ s', exec step s as = some s' ∧ exec step s' bs = some s'' := by
  rw [exec_append, bind_eq_some_iff]

theorem exec_concat_eq_some {s s'' : σ} : exec step s (as ++ [a]) = some s'' ↔
      ∃ s', exec step s as = some s' ∧ step s' a = some s'' := by
  simp only [exec_append_eq_some, exec_cons_eq_some, exec_nil, some.injEq, exists_eq_right]

variable {s s' : σ} (I : σ → Prop)

/-- **Invariants of runs.** A property that every step keeps holds at the end of every run from
a state that has it. -/
theorem exec_invariant (hstep : ∀ s a s', I s → step s a = some s' → I s')
    (hs : I s) (h : exec step s as = some s') : I s' := by
  induction as generalizing s with
  | nil => exact some.inj h ▸ hs
  | cons a as ih =>
    obtain ⟨s₁, h₁, h₂⟩ := exec_cons_eq_some.mp h
    exact ih (hstep s a s₁ hs h₁) h₂

theorem exec_total (f : σ → α → σ) (s : σ) (as : List α) :
    exec (fun s a => some (f s a)) s as = some (as.foldl f s) := by
  induction as generalizing s with
  | nil => rfl
  | cons a as ih => exact ih (f s a)

instance decidableExistsExec (step : σ → α → Option σ) (P : σ → Prop) [DecidablePred P] (s : σ)
    (as : List α) : Decidable (∃ s', exec step s as = some s' ∧ P s') :=
  inferInstanceAs (Decidable (∃ s' ∈ exec step s as, P s'))

/-- What is found out about the end of a run by evaluating it, and what follows. -/
theorem exists_exec_mono {P Q : σ → Prop} {s : σ} (h : ∃ s', exec step s as = some s' ∧ P s')
    (hQ : ∀ s', exec step s as = some s' → P s' → Q s') :
    ∃ s', exec step s as = some s' ∧ Q s' := by
  obtain ⟨s', hs', hP⟩ := h
  exact ⟨s', hs', hQ s' hs' hP⟩

/-! ### Conditions on the steps of a run -/

/-- Every step of the run `as` from `s` meets the condition `C`. -/
def AllSteps (step : σ → α → Option σ) (C : σ → α → Prop) : σ → List α → Prop
  | _, [] => True
  | s, a :: as => C s a ∧ ∀ s' ∈ step s a, AllSteps step C s' as

instance decidableAllSteps (step : σ → α → Option σ) (C : σ → α → Prop)
    [∀ s a, Decidable (C s a)] : (s : σ) → (as : List α) → Decidable (AllSteps step C s as)
  | _, [] => .isTrue trivial
  | s, a :: as =>
    have : ∀ s', Decidable (AllSteps step C s' as) := fun s' => decidableAllSteps step C s' as
    inferInstanceAs (Decidable (C s a ∧ ∀ s' ∈ step s a, AllSteps step C s' as))

variable {C : σ → α → Prop}

@[simp] theorem allSteps_nil (s : σ) : AllSteps step C s [] := trivial

theorem allSteps_cons (h : step s a = some s') :
    AllSteps step C s (a :: as) ↔ C s a ∧ AllSteps step C s' as := by
  simp only [AllSteps, h, mem_def, some.injEq, forall_eq']

theorem allSteps_append {as bs : List α} (h : exec step s as = some s') :
    AllSteps step C s (as ++ bs) ↔ AllSteps step C s as ∧ AllSteps step C s' bs := by
  induction as generalizing s with
  | nil =>
    obtain rfl := some.inj h
    simp
  | cons a as ih =>
    obtain ⟨s₁, h₁, h₂⟩ := exec_cons_eq_some.mp h
    rw [cons_append, allSteps_cons h₁, allSteps_cons h₁, ih h₂, and_assoc]

theorem allSteps_of_forall_mem (h : ∀ s, ∀ a ∈ as, C s a) (s : σ) : AllSteps step C s as := by
  induction as generalizing s with
  | nil => trivial
  | cons a as ih =>
    exact ⟨h s a mem_cons_self,
      fun s' _ => ih (fun s b hb => h s b (mem_cons_of_mem a hb)) s'⟩

theorem AllSteps.and_forall_mem {D : α → Prop} {s : σ} (h : AllSteps step C s as)
    (hD : ∀ a ∈ as, D a) : AllSteps step (fun s a => C s a ∧ D a) s as := by
  induction as generalizing s with
  | nil => trivial
  | cons a as ih =>
    exact ⟨⟨h.1, hD a mem_cons_self⟩,
      fun s' hs' => ih (h.2 s' hs') fun b hb => hD b (mem_cons_of_mem a hb)⟩

/-- **Invariants of restricted runs.** A property kept by the steps that meet `C` holds at the
end of every run all of whose steps meet `C`. -/
theorem exec_invariant_of_allSteps (hstep : ∀ s a s', I s → C s a → step s a = some s' → I s')
    (hs : I s) (hC : AllSteps step C s as)
    (h : exec step s as = some s') : I s' := by
  induction as generalizing s with
  | nil => exact some.inj h ▸ hs
  | cons a as ih =>
    obtain ⟨s₁, h₁, h₂⟩ := exec_cons_eq_some.mp h
    obtain ⟨hCa, hCas⟩ := (allSteps_cons h₁).mp hC
    exact ih (hstep s a s₁ hs hCa h₁) hCas h₂

/-- **Exact conditions.** Let the steps that meet `C` keep an invariant that implies `P`, and the
other steps lead out of `P`. Then `P` holds after every part of a run exactly when all steps of
the run meet `C`. -/
theorem forall_prefix_iff_allSteps {P : σ → Prop} (hI : ∀ s, I s → P s)
    (hstep : ∀ s a s', I s → C s a → step s a = some s' → I s')
    (hbad : ∀ s a s', I s → ¬C s a → step s a = some s' → ¬P s') (hs : I s)
    (h : exec step s as = some s') :
    (∀ bs, bs <+: as → ∀ t, exec step s bs = some t → P t) ↔ AllSteps step C s as := by
  induction as generalizing s with
  | nil =>
    refine ⟨fun _ => trivial, fun _ bs hbs t ht => ?_⟩
    obtain rfl := prefix_nil.mp hbs
    exact some.inj ht ▸ hI s hs
  | cons a as ih =>
    obtain ⟨s₁, h₁, h₂⟩ := exec_cons_eq_some.mp h
    rw [allSteps_cons h₁]
    constructor
    · intro hall
      have hC : C s a := by
        by_contra hC
        exact hbad s a s₁ hs hC h₁
          (hall [a] ⟨as, rfl⟩ s₁ (exec_cons_eq_some.mpr ⟨s₁, h₁, rfl⟩))
      refine ⟨hC, (ih (hstep s a s₁ hs hC h₁) h₂).mp fun bs hbs t ht => ?_⟩
      exact hall (a :: bs) (cons_prefix_cons.mpr ⟨rfl, hbs⟩) t
        (exec_cons_eq_some.mpr ⟨s₁, h₁, ht⟩)
    · rintro ⟨hC, hCs⟩ bs hbs t ht
      cases bs with
      | nil => exact some.inj ht ▸ hI s hs
      | cons b bs =>
        obtain ⟨rfl, hbs'⟩ := cons_prefix_cons.mp hbs
        obtain ⟨s₂, h₃, h₄⟩ := exec_cons_eq_some.mp ht
        obtain rfl : s₁ = s₂ := some.inj (h₁.symm.trans h₃)
        exact (ih (hstep s b s₁ hs hC h₁) h₂).mpr hCs bs hbs' t h₄

/-- Conditions that agree on the states of an invariant. -/
theorem allSteps_iff_of_invariant {D : σ → α → Prop}
    (hiff : ∀ s a s', I s → step s a = some s' → (D s a ↔ C s a))
    (hstep : ∀ s a s', I s → C s a → step s a = some s' → I s') (hs : I s)
    (h : exec step s as = some s') : AllSteps step D s as ↔ AllSteps step C s as := by
  induction as generalizing s with
  | nil => exact Iff.rfl
  | cons a as ih =>
    obtain ⟨s₁, h₁, h₂⟩ := exec_cons_eq_some.mp h
    rw [allSteps_cons h₁, allSteps_cons h₁, hiff s a s₁ hs h₁]
    exact and_congr_right fun hC => ih (hstep s a s₁ hs hC h₁) h₂

/-- Conditions that can be read off the end of a run: a step leads to a state of `B` exactly if it
starts from one and meets `C`. -/
theorem and_allSteps_iff {B : σ → Prop} (hI : ∀ s a s', I s → step s a = some s' → I s')
    (hstep : ∀ s a s', I s → step s a = some s' → (B s' ↔ B s ∧ C s a)) (hs : I s)
    (h : exec step s as = some s') : B s' ↔ B s ∧ AllSteps step C s as := by
  induction as generalizing s with
  | nil =>
    obtain rfl := some.inj h
    exact (and_iff_left trivial).symm
  | cons a as ih =>
    obtain ⟨s₁, h₁, h₂⟩ := exec_cons_eq_some.mp h
    rw [allSteps_cons h₁, ih (hI s a s₁ hs h₁) h₂, hstep s a s₁ hs h₁, and_assoc]

/-! ### Histories -/

/-- A position of a list keeps its element when the list grows. -/
theorem getElem?_mono {V : Type*} {l l' : List V} (h : l <+: l') {i : ℕ} {v : V}
    (hi : l[i]? = some v) : l'[i]? = some v := by
  obtain ⟨hlt, rfl⟩ := List.getElem?_eq_some_iff.mp hi
  exact prefix_iff_getElem?.mp h i hlt

/-! ### One event over and over -/

/-- Let the event `a`, repeated from `s`, lead to `s'` through states without the property `Q`, and
let it not be possible in `s'` unless `s'` has the property. Then some number of repetitions leads
to a state with the property exactly when `s'` has it. -/
theorem exists_exec_replicate_iff {Q : σ → Prop}
    (hpath : Relation.ReflTransGen (fun s s' => ¬Q s ∧ step s a = some s') s s')
    (hend : ¬Q s' → step s' a = none) :
    (∃ n z, exec step s (List.replicate n a) = some z ∧ Q z) ↔ Q s' := by
  induction hpath using Relation.ReflTransGen.head_induction_on with
  | refl =>
    refine ⟨?_, fun hQ => ⟨0, s', rfl, hQ⟩⟩
    rintro ⟨n, z, hz, hQ⟩
    by_contra hQ'
    cases n with
    | zero => exact hQ' (some.inj hz ▸ hQ)
    | succ n =>
      obtain ⟨s₁, h₁, -⟩ := exec_cons_eq_some.mp hz
      simp [hend hQ'] at h₁
  | head hstep hpath ih =>
    obtain ⟨hQ₀, h₀⟩ := hstep
    rw [← ih]
    constructor
    · rintro ⟨n, z, hz, hQ⟩
      cases n with
      | zero => exact absurd (some.inj hz ▸ hQ) hQ₀
      | succ n =>
        obtain ⟨s₁, h₁, h₂⟩ := exec_cons_eq_some.mp hz
        exact ⟨n, z, some.inj (h₁.symm.trans h₀) ▸ h₂, hQ⟩
    · rintro ⟨n, z, hz, hQ⟩
      exact ⟨n + 1, z, exec_cons_eq_some.mpr ⟨_, h₀, hz⟩, hQ⟩

/-! ### The threads in a phase -/

section Phases

variable {T φ : Type*} {P : φ → Prop} {f : T → φ} {t : T} {v : φ} {k : ℕ}

/-- Exactly `k` threads are in the phase `P`, where `f t` is the local state of the thread `t`. -/
def InPhase (P : φ → Prop) (f : T → φ) (k : ℕ) : Prop := {t | P (f t)}.encard = k

theorem inPhase_zero_iff : InPhase P f 0 ↔ ∀ t, ¬P (f t) := by
  rw [InPhase, Nat.cast_zero, Set.encard_eq_zero, Set.eq_empty_iff_forall_notMem]
  rfl

theorem InPhase.unique {j : ℕ} (hk : InPhase P f k) (hj : InPhase P f j) : k = j := by
  have hcast : (k : ℕ∞) = j := hk.symm.trans hj
  exact_mod_cast hcast

theorem InPhase.pos (h : InPhase P f k) (ht : P (f t)) : 0 < k := by
  rcases eq_zero_or_pos k with rfl | hk
  · exact absurd ht (inPhase_zero_iff.mp h t)
  · exact hk

theorem InPhase.exists_of_pos (h : InPhase P f k) (hk : 0 < k) : ∃ t, P (f t) := by
  by_contra hnone
  have hzero : InPhase P f 0 := inPhase_zero_iff.mpr fun t ht => hnone ⟨t, ht⟩
  exact hk.ne' (h.unique hzero)

theorem InPhase.le_card {N : ℕ} (hN : ENat.card T ≤ N) (h : InPhase P f k) : k ≤ N := by
  have : (k : ℕ∞) ≤ N := h ▸ Set.encard_le_card.trans hN
  exact_mod_cast this

theorem InPhase.eq_of_one (h : InPhase P f 1) {u : T} (hu : P (f u)) (ht : P (f t)) : u = t := by
  obtain ⟨w, hw⟩ := Set.encard_eq_one.mp h
  have hu' : u ∈ ({w} : Set T) := hw ▸ hu
  have ht' : t ∈ ({w} : Set T) := hw ▸ ht
  exact (Set.mem_singleton_iff.mp hu').trans (Set.mem_singleton_iff.mp ht').symm

theorem InPhase.eq_one_iff (h : InPhase P f k) (ht : P (f t)) : k = 1 ↔ ∀ u, P (f u) → u = t := by
  constructor
  · rintro rfl u hu
    exact h.eq_of_one hu ht
  · intro hall
    have hset : {u | P (f u)} = {t} := Set.ext fun u => ⟨hall u, fun hu => hu ▸ ht⟩
    have hone : InPhase P f 1 := by rw [InPhase, hset, Set.encard_singleton, Nat.cast_one]
    exact h.unique hone

/-- Threads that are in a phase only if they were in it before. -/
theorem InPhase.of_imp {f' : T → φ} (h : InPhase P f k) (hf : ∀ t, P (f' t) → P (f t)) :
    ∃ k' ≤ k, InPhase P f' k' := by
  have hle : {t | P (f' t)}.encard ≤ (k : ℕ∞) := h ▸ Set.encard_le_encard hf
  obtain ⟨k', hk'⟩ := ENat.ne_top_iff_exists.mp (ne_top_of_le_ne_top (ENat.natCast_ne_top k) hle)
  refine ⟨k', ?_, hk'.symm⟩
  rw [← hk'] at hle
  exact_mod_cast hle

variable [DecidableEq T]

theorem InPhase.enter (h : InPhase P f k) (ht : ¬P (f t)) (hv : P v) :
    InPhase P (update f t v) (k + 1) := by
  have hset : {u | P (update f t v u)} = insert t {u | P (f u)} := by
    ext u
    by_cases hu : u = t
    · subst hu
      simp [hv]
    · simp [hu]
  have hnot : t ∉ {u | P (f u)} := ht
  rw [InPhase, hset, Set.encard_insert_of_notMem hnot, h, Nat.cast_add, Nat.cast_one]

theorem InPhase.leave (h : InPhase P f (k + 1)) (ht : P (f t)) (hv : ¬P v) :
    InPhase P (update f t v) k := by
  have hset : {u | P (update f t v u)} = {u | P (f u)} \ {t} := by
    ext u
    by_cases hu : u = t
    · subst hu
      simp [hv]
    · simp [hu]
  have hadd : ({u | P (f u)} \ {t}).encard + 1 = {u | P (f u)}.encard :=
    Set.encard_sdiff_singleton_add_one ht
  rw [InPhase, Nat.cast_add, Nat.cast_one] at h
  rw [h] at hadd
  rw [InPhase, hset]
  exact ENat.add_left_injective_of_ne_top ENat.one_ne_top hadd

theorem InPhase.stay (h : InPhase P f k) (hv : P v ↔ P (f t)) :
    InPhase P (update f t v) k := by
  have hset : {u | P (update f t v u)} = {u | P (f u)} := by
    ext u
    by_cases hu : u = t
    · subst hu
      simp [hv]
    · simp [hu]
  rw [InPhase, hset, h]

/-- Any move of a thread changes the number of threads in the phase by its own share. -/
theorem InPhase.move [DecidablePred P] (h : InPhase P f k) (t : T) (v : φ) :
    ∃ k', InPhase P (update f t v) k' ∧
      k' + (if P (f t) then 1 else 0) = k + if P v then 1 else 0 := by
  by_cases ht : P (f t) <;> by_cases hv : P v
  · exact ⟨k, h.stay (iff_of_true hv ht), by simp [ht, hv]⟩
  · obtain ⟨j, rfl⟩ : ∃ j, k = j + 1 := Nat.exists_eq_succ_of_ne_zero (h.pos ht).ne'
    exact ⟨j, h.leave ht hv, by simp [ht, hv]⟩
  · exact ⟨k + 1, h.enter ht hv, by simp [ht, hv]⟩
  · exact ⟨k, h.stay (iff_of_false hv ht), by simp [ht, hv]⟩

/-- A budget of one unit for each thread in a phase is kept by a move that pays for its own
change. -/
theorem InPhase.budget [DecidablePred P] {a a' b b' : ℕ} (h : ∃ k, InPhase P f k ∧ a + k ≤ b)
    (hmove : a' + (if P v then 1 else 0) + b ≤ a + (if P (f t) then 1 else 0) + b') :
    ∃ k, InPhase P (update f t v) k ∧ a' + k ≤ b' := by
  obtain ⟨k, hk, hle⟩ := h
  obtain ⟨k', hk', hsum⟩ := hk.move t v
  exact ⟨k', hk', by omega⟩

/-- A balance of one unit for each thread in a phase. -/
theorem InPhase.balance [DecidablePred P] {a a' b b' : ℕ} (h : ∃ k, InPhase P f k ∧ a + k = b)
    (hmove : a' + (if P v then 1 else 0) + b = a + (if P (f t) then 1 else 0) + b') :
    ∃ k, InPhase P (update f t v) k ∧ a' + k = b' := by
  obtain ⟨k, hk, heq⟩ := h
  obtain ⟨k', hk', hsum⟩ := hk.move t v
  exact ⟨k', hk', by omega⟩

end Phases

/-! ### Histories

The history of a component is the list of what has happened, the oldest first. A statement about the
moment at which an entry was recorded is one about the parts of the history before and after it. -/

/-- **One more entry.** A place in the longer history is the new entry or a place in the old one. -/
theorem forall_split_concat {P : List α → α → List α → Prop} {l : List α} {y : α} :
    (∀ pre x post, l ++ [y] = pre ++ x :: post → P pre x post) ↔
      P l y [] ∧ ∀ pre x post, l = pre ++ x :: post → P pre x (post ++ [y]) := by
  constructor
  · intro h
    refine ⟨h l y [] rfl, fun pre x post heq => h pre x (post ++ [y]) ?_⟩
    rw [heq, append_assoc, cons_append]
  · rintro ⟨hnew, hold⟩ pre x post heq
    rcases eq_nil_or_concat post with rfl | ⟨post, z, rfl⟩
    · obtain ⟨rfl, hxy⟩ := append_inj' heq rfl
      obtain rfl := singleton_inj.mp hxy
      exact hnew
    · rw [concat_eq_append] at heq ⊢
      rw [← cons_append, ← append_assoc] at heq
      obtain ⟨hl, hyz⟩ := append_inj' heq rfl
      obtain rfl := singleton_inj.mp hyz
      exact hold pre x post hl

/-- Every entry stands in the relation `P` to the part of the history before it. -/
def Always (P : List α → α → Prop) (l : List α) : Prop :=
  ∀ pre x post, l = pre ++ x :: post → P pre x

variable {P : List α → α → Prop} {l : List α} {y : α}

theorem always_nil : Always P [] := by
  intro pre x post heq
  simp at heq

theorem always_concat : Always P (l ++ [y]) ↔ Always P l ∧ P l y := by
  rw [Always, forall_split_concat, and_comm]
  rfl

theorem Always.of_append {l' : List α} (h : Always P (l ++ l')) : Always P l := by
  intro pre x post heq
  refine h pre x (post ++ l') ?_
  rw [heq, append_assoc, cons_append]

end Interleaving
