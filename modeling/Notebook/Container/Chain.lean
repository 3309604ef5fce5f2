import Mathlib.Data.List.Nodup
import Mathlib.Data.List.Pairwise
import Mathlib.Order.Lattice

/-!
# Linked chains

The links `next : N → Option N` of a set of nodes, and the chain of nodes that they lead through
from a pointer to the null pointer. `Chain next p l` says that the chain from `p` is the list `l`. A
pointer has at most one chain (`Chain.unique`), and a chain meets no node twice (`Chain.nodup`): the
links that end in the null pointer have no cycle.

A `SortedChain` stands behind a head node without a key. A search for a key `k` walks along the
links while the keys are below `k`, so it stands on the head or on a node with a key below `k`
(`Before`), and the next link tells it whether `k` is in the chain. A node with the key `k` that is
linked in at this place keeps the chain sorted.
-/

open Function List

namespace Container

variable {N : Type*} {next next' : N → Option N}

/-- The links lead from the pointer `p` through the nodes `l` to the null pointer. -/
def Chain (next : N → Option N) : Option N → List N → Prop
  | p, [] => p = none
  | p, a :: l => p = some a ∧ Chain next (next a) l

namespace Chain

variable {p : Option N} {a b : N} {l l' : List N}

theorem cons_iff : Chain next p (a :: l) ↔ p = some a ∧ Chain next (next a) l := Iff.rfl

theorem eq_nil (h : Chain next none l) : l = [] := by
  cases l with
  | nil => rfl
  | cons a l => cases h.1

theorem eq_cons (h : Chain next (some a) l) : ∃ l', l = a :: l' ∧ Chain next (next a) l' := by
  cases l with
  | nil => cases h
  | cons b l =>
    obtain ⟨hb, hl⟩ := h
    obtain rfl := Option.some.inj hb
    exact ⟨l, rfl, hl⟩

theorem unique (h : Chain next p l) (h' : Chain next p l') : l = l' := by
  induction l generalizing p l' with
  | nil =>
    obtain rfl : p = none := h
    exact h'.eq_nil.symm
  | cons a l ih =>
    obtain ⟨rfl, hl⟩ := h
    obtain ⟨l'', rfl, hl''⟩ := h'.eq_cons
    rw [ih hl hl'']

theorem of_append {l₁ l₂ : List N} (h : Chain next p (l₁ ++ a :: l₂)) :
    Chain next (some a) (a :: l₂) := by
  induction l₁ generalizing p with
  | nil =>
    obtain ⟨rfl, hl⟩ := h
    exact ⟨rfl, hl⟩
  | cons b l₁ ih => exact ih h.2

/-- **A chain has no cycle.** -/
theorem nodup (h : Chain next p l) : l.Nodup := by
  induction l generalizing p with
  | nil => exact nodup_nil
  | cons a l ih =>
    refine nodup_cons.mpr ⟨fun hmem => ?_, ih h.2⟩
    -- the chain from the second occurrence would be the whole chain and a proper part of it
    obtain ⟨l₁, l₂, rfl⟩ := append_of_mem hmem
    obtain ⟨rfl, hl⟩ := h
    have heq := (of_append hl).unique (cons_iff.mpr ⟨rfl, hl⟩)
    have hlen := congrArg List.length heq
    simp only [length_cons, length_append] at hlen
    omega

theorem congr (h : Chain next p l) (heq : ∀ a ∈ l, next' a = next a) : Chain next' p l := by
  induction l generalizing p with
  | nil => exact h
  | cons a l ih =>
    obtain ⟨rfl, hl⟩ := h
    refine ⟨rfl, ?_⟩
    rw [heq a mem_cons_self]
    exact ih hl fun b hb => heq b (mem_cons_of_mem a hb)

variable [DecidableEq N]

theorem update_of_notMem (h : Chain next p l) (hb : b ∉ l) (q : Option N) :
    Chain (update next b q) p l :=
  h.congr fun a ha => update_of_ne (fun hab : a = b => hb (hab ▸ ha)) ..

/-- **A node is linked in** after the node `a` of the chain, with the link that `a` had. -/
theorem insert {l₁ l₂ : List N} (h : Chain next p (l₁ ++ a :: l₂)) (hb : b ∉ l₁ ++ a :: l₂)
    (hnext : next b = next a) :
    Chain (update next a (some b)) p (l₁ ++ a :: b :: l₂) := by
  induction l₁ generalizing p with
  | nil =>
    have hab : b ≠ a := fun hba => hb (hba ▸ mem_cons_self)
    have hal : a ∉ l₂ := (nodup_cons.mp h.nodup).1
    refine ⟨h.1, update_self .., ?_⟩
    rw [update_of_ne hab, hnext]
    exact h.2.update_of_notMem hal _
  | cons c l₁ ih =>
    have hca : c ≠ a := fun hca => (nodup_cons.mp h.nodup).1 (by simp [hca])
    refine ⟨h.1, ?_⟩
    rw [update_of_ne hca]
    exact ih h.2 fun hmem => hb (mem_cons_of_mem c hmem)

/-- The list of the nodes that a pointer leads to, at most `fuel` of them. -/
def follow (next : N → Option N) : ℕ → Option N → List N
  | 0, _ => []
  | _ + 1, none => []
  | fuel + 1, some a => a :: follow next fuel (next a)

omit [DecidableEq N] in
theorem follow_eq {fuel : ℕ} (h : Chain next p l) (hlen : l.length ≤ fuel) :
    follow next fuel p = l := by
  induction l generalizing p fuel with
  | nil =>
    obtain rfl : p = none := h
    cases fuel <;> rfl
  | cons a l ih =>
    obtain ⟨rfl, hl⟩ := h
    obtain ⟨fuel, rfl⟩ : ∃ k, fuel = k + 1 := Nat.exists_eq_add_of_le' (by simp at hlen; omega)
    rw [follow, ih hl (by simpa using hlen)]

end Chain

/-! ### Sorted chains -/

variable {K : Type*} [LinearOrder K]

/-- The links lead from the node `head` through the nodes `l`, whose keys increase. -/
structure SortedChain (next : N → Option N) (key : N → K) (head : N) (l : List N) : Prop where
  chain : Chain next (some head) (head :: l)
  sorted : l.Pairwise (key · < key ·)

/-- The node `a` is the head, or a node of the list with a key below `k`. -/
def Before (key : N → K) (head : N) (l : List N) (k : K) (a : N) : Prop :=
  a = head ∨ a ∈ l ∧ key a < k

namespace SortedChain

variable {key key' : N → K} {head a b n : N} {l l' : List N} {k : K}

theorem eq_of_key_eq (h : SortedChain next key head l) (ha : a ∈ l) (hb : b ∈ l)
    (hab : key a = key b) : a = b := by
  have hne : l.Pairwise (key · ≠ key ·) := h.sorted.imp fun hlt => hlt.ne
  have : Std.Symm fun a b : N => key a ≠ key b := ⟨fun _ _ h => h.symm⟩
  by_contra hab'
  exact hne.forall ha hb hab' hab

/-- The place of a search splits the list: the keys up to it are below `k`, and the next link leads
to the rest. -/
theorem split (h : SortedChain next key head l) (ha : Before key head l k a) :
    ∃ l₀ l₁ l₂, l = l₁ ++ l₂ ∧ head :: l₁ = l₀ ++ [a] ∧ (∀ c ∈ l₁, key c < k) ∧
      Chain next (next a) l₂ := by
  rcases ha with rfl | ⟨hmem, hlt⟩
  · exact ⟨[], [], l, rfl, rfl, by simp, h.chain.2⟩
  · obtain ⟨l₀, l₂, rfl⟩ := append_of_mem hmem
    refine ⟨head :: l₀, l₀ ++ [a], l₂, by simp, by simp, fun c hc => ?_, ?_⟩
    · rcases mem_append.mp hc with hc | hc
      · exact ((pairwise_append.mp h.sorted).2.2 c hc a mem_cons_self).trans hlt
      · rwa [mem_singleton.mp hc]
    · exact (Chain.of_append h.chain.2).2

/-- The nodes behind a link whose node has a key above `k`. -/
theorem lt_of_chain {l₂ : List N} (hchain : Chain next (next a) l₂)
    (hsorted : l₂.Pairwise (key · < key ·)) (hnext : ∀ b ∈ next a, k < key b) :
    ∀ c ∈ l₂, k < key c := by
  cases l₂ with
  | nil => simp
  | cons b l₂ =>
    have hb : k < key b := hnext b hchain.1
    intro c hc
    rcases mem_cons.mp hc with rfl | hc
    · exact hb
    · exact hb.trans ((pairwise_cons.mp hsorted).1 c hc)

variable (h : SortedChain next key head l)

include h

theorem mem_of_next (ha : Before key head l k a) (hnext : next a = some b) : b ∈ l := by
  obtain ⟨-, l₁, l₂, rfl, -, -, hchain⟩ := h.split ha
  rw [hnext] at hchain
  obtain ⟨l₃, rfl, -⟩ := hchain.eq_cons
  simp

/-- **A search that ends without success.** If the next link is null or leads to a larger key, then
`k` is not in the list. -/
theorem ne_of_next (ha : Before key head l k a)
    (hnext : ∀ b ∈ next a, k < key b) : ∀ c ∈ l, key c ≠ k := by
  obtain ⟨-, l₁, l₂, rfl, -, hlt, hchain⟩ := h.split ha
  have hsorted := (pairwise_append.mp h.sorted).2.1
  intro c hc
  rcases mem_append.mp hc with hc | hc
  · exact (hlt c hc).ne
  · exact (lt_of_chain hchain hsorted hnext c hc).ne'

theorem congr (hnext : ∀ a ∈ head :: l, next' a = next a)
    (hkey : ∀ a ∈ l, key' a = key a) : SortedChain next' key' head l where
  chain := h.chain.congr hnext
  sorted := h.sorted.imp_of_mem fun ha hb hlt => by rwa [hkey _ ha, hkey _ hb]

/-- **A node is linked in at its place.** -/
theorem insert [DecidableEq N] (ha : Before key head l k a)
    (hnext : ∀ b ∈ next a, k < key b) (hn : n ∉ head :: l) :
    ∃ l₁ l₂, l = l₁ ++ l₂ ∧
      SortedChain (update (update next n (next a)) a (some n))
        (update key n k) head (l₁ ++ n :: l₂) := by
  obtain ⟨l₀, l₁, l₂, rfl, hl₀, hlt, hchain⟩ := h.split ha
  have hsplit (l : List N) : head :: (l₁ ++ l) = l₀ ++ a :: l := by
    rw [← cons_append, hl₀, append_assoc, singleton_append]
  have hkey {c : N} (hc : c ∈ l₁ ++ l₂) : update key n k c = key c :=
    update_of_ne (fun hcn : c = n => hn (hcn ▸ mem_cons_of_mem head hc)) ..
  obtain ⟨hs₁, hs₂, hs₁₂⟩ := pairwise_append.mp h.sorted
  refine ⟨l₁, l₂, rfl, ?_, ?_⟩
  · -- the new node gets the link of `a`, and then `a` leads to it
    have hna : a ≠ n := by
      rintro rfl
      rw [hsplit l₂] at hn
      simp at hn
    rw [hsplit]
    rw [hsplit] at hn
    refine ((hsplit l₂ ▸ h.chain).update_of_notMem hn _).insert hn ?_
    rw [update_self, update_of_ne hna]
  · have hgt := lt_of_chain hchain hs₂ hnext
    refine pairwise_append.mpr ⟨?_, pairwise_cons.mpr ⟨fun c hc => ?_, ?_⟩, ?_⟩
    · exact hs₁.imp_of_mem fun ha hb hab => by
        rwa [hkey (mem_append_left _ ha), hkey (mem_append_left _ hb)]
    · rw [update_self, hkey (mem_append_right _ hc)]
      exact hgt c hc
    · exact hs₂.imp_of_mem fun ha hb hab => by
        rwa [hkey (mem_append_right _ ha), hkey (mem_append_right _ hb)]
    · intro c hc d hd
      rw [hkey (mem_append_left _ hc)]
      rcases mem_cons.mp hd with rfl | hd
      · rw [update_self]
        exact hlt c hc
      · rw [hkey (mem_append_right _ hd)]
        exact hs₁₂ c hc d hd

theorem find?_eq_some (ha : a ∈ l) (hk : key a = k) :
    l.find? (fun b => decide (key b = k)) = some a := by
  obtain ⟨b, hb⟩ : ∃ b, l.find? (fun b => decide (key b = k)) = some b :=
    Option.isSome_iff_exists.mp (find?_isSome.mpr ⟨a, ha, decide_eq_true hk⟩)
  have hkb : key b = k := by simpa using find?_some hb
  rw [hb, h.eq_of_key_eq (mem_of_find?_eq_some hb) ha (hkb.trans hk.symm)]

end SortedChain

end Container
