import Notebook.Interleaving.Threads

/-!
# A linked queue with a tail that runs ahead

A queue of linked nodes between any number of producers and consumers. A producer makes a node,
appends it by moving the tail to it, and only then links the node before it to the new one; until
then the list is broken there, and producers that are stalled in between can have broken it in many
places. A consumer moves the head to the node that is linked after it.

The order of the queue is the order in which the tail has been moved: `order` lists the nodes in
that order, with the first node of the queue in front, which holds no element.
-/

open Function List Option

namespace Interleaving

/-- The pointers and the nodes of a queue, numbered from `0` to `fresh`, with the nodes and the
elements in the order in which the tail has been moved, and the number of moves of the head. -/
structure LinkedQueue (V : Type*) where
  head : ℕ
  tail : ℕ
  fresh : ℕ
  data : ℕ → V
  next : ℕ → Option ℕ
  order : List ℕ
  enqueued : List V
  taken : ℕ

namespace LinkedQueue

variable {V T : Type*} {q q' : LinkedQueue V}

/-- What a thread has under way: a node that it has not yet appended, or one that it has appended
and not yet linked to the node before it. -/
inductive Role (V : Type*)
  | free
  | owner (node : ℕ) (v : V)
  | linking (old node : ℕ)

/-- The node that a thread has not yet appended. -/
def Role.node : Role V → Option ℕ
  | .owner node _ => some node
  | _ => none

/-- The node `node` comes directly after `old`. -/
def Follows (order : List ℕ) (old node : ℕ) : Prop :=
  ∃ i, order[i]? = some old ∧ order[i + 1]? = some node

/-- One operation on the queue, with the role of the thread before and after. -/
inductive Op : LinkedQueue V → Role V → LinkedQueue V → Role V → Prop
  | keep (q : LinkedQueue V) (ρ : Role V) : Op q ρ q ρ
  | alloc (q : LinkedQueue V) (v : V) :
      Op q .free
        { q with
          fresh := q.fresh + 1
          data := update q.data q.fresh v
          next := update q.next q.fresh none }
        (.owner q.fresh v)
  | append (q : LinkedQueue V) (node : ℕ) (v : V) :
      Op q (.owner node v)
        { q with tail := node, order := q.order ++ [node], enqueued := q.enqueued ++ [v] }
        (.linking q.tail node)
  | link (q : LinkedQueue V) (old node : ℕ) :
      Op q (.linking old node) { q with next := update q.next old (some node) } .free
  | take (q : LinkedQueue V) (node : ℕ) (h : Follows q.order q.head node) :
      Op q .free { q with head := node, taken := q.taken + 1 } .free

/-- A node that has not been appended is not in the order, holds its element and has no link; one
that is to be linked comes after the node it is to be linked to. -/
def Role.Sound (q : LinkedQueue V) : Role V → Prop
  | .free => True
  | .owner node v => node < q.fresh ∧ node ∉ q.order ∧ q.data node = v ∧ q.next node = none
  | .linking old node => Follows q.order old node

/-- The meaning of the queue. -/
structure Sound (q : LinkedQueue V) (role : T → Role V) : Prop where
  nodup : q.order.Nodup
  lt_fresh : ∀ node ∈ q.order, node < q.fresh
  length : q.order.length = q.enqueued.length + 1
  tail : q.order[q.enqueued.length]? = some q.tail
  head : q.order[q.taken]? = some q.head
  /-- A link leads to the next node. -/
  links : ∀ i node node', q.order[i]? = some node → q.next node = some node' →
    q.order[i + 1]? = some node'
  data : ∀ i node, q.order[i + 1]? = some node → q.enqueued[i]? = some (q.data node)
  roles : ∀ t, (role t).Sound q
  /-- No two threads have the same node. -/
  distinct : ∀ t u node, (role t).node = some node → (role u).node = some node → t = u

/-- The queue `q'` is `q` after some operations. -/
structure Le (q q' : LinkedQueue V) : Prop where
  order : q.order <+: q'.order
  enqueued : q.enqueued <+: q'.enqueued
  taken : q.taken ≤ q'.taken

theorem Op.le {ρ ρ' : Role V} (op : Op q ρ q' ρ') : Le q q' := by
  cases op <;> constructor <;> simp

theorem Follows.mono {order order' : List ℕ} {old node : ℕ} (h : Follows order old node)
    (hle : order <+: order') : Follows order' old node := by
  obtain ⟨i, hold, hnode⟩ := h
  exact ⟨i, getElem?_mono hle hold, getElem?_mono hle hnode⟩

theorem sound_init (data : ℕ → V) :
    Sound ⟨0, 0, 1, data, fun _ => none, [0], [], 0⟩ fun _ : T => Role.free where
  nodup := nodup_singleton 0
  lt_fresh node h := by simp_all
  length := rfl
  tail := rfl
  head := rfl
  links _ _ _ _ h := by cases h
  data _ _ h := by cases h
  roles _ := trivial
  distinct _ _ _ h := by cases h

variable {node : ℕ}

section Facts

variable {role : T → Role V}

theorem Sound.index_unique (h : Sound q role) {i j node : ℕ} (hi : q.order[i]? = some node)
    (hj : q.order[j]? = some node) : i = j := by
  obtain ⟨hlt, -⟩ := List.getElem?_eq_some_iff.mp hi
  exact (getElem?_inj hlt h.nodup).mp (hi.trans hj.symm)

/-- **What a link means.** -/
theorem Sound.follows (h : Sound q role) {old node : ℕ} (hold : old ∈ q.order)
    (hnext : q.next old = some node) : Follows q.order old node := by
  obtain ⟨i, hi⟩ := mem_iff_getElem?.mp hold
  exact ⟨i, hi, h.links i old node hi hnext⟩

theorem Sound.getElem?_taken (h : Sound q role) (hnode : Follows q.order q.head node) :
    q.order[q.taken + 1]? = some node := by
  obtain ⟨i, hi, hsucc⟩ := hnode
  rwa [h.index_unique hi h.head] at hsucc

theorem Sound.taken_le (h : Sound q role) : q.taken ≤ q.enqueued.length := by
  obtain ⟨hlt, -⟩ := List.getElem?_eq_some_iff.mp h.head
  have := h.length
  omega

end Facts

/-! ### The operations keep the invariant -/

section Operations

variable [DecidableEq T] {role : T → Role V} {t : T} {ρ : Role V}

private theorem roles_update_linked (ht : ρ.Sound q')
    (hu : ∀ u, u ≠ t → (role u).Sound q') (u : T) : (update role t ρ u).Sound q' :=
  (forall_update_iff role fun _ ρ => ρ.Sound q').mpr ⟨ht, hu⟩ u

/-- The nodes of the threads stay distinct when the node of one thread is given up or new. -/
private theorem distinct_update_linked (h : Sound q role)
    (hρ : ∀ node, ρ.node = some node → ∀ u, (role u).node ≠ some node) (u v : T) (node : ℕ)
    (hu : (update role t ρ u).node = some node)
    (hv : (update role t ρ v).node = some node) : u = v := by
  by_cases hut : u = t <;> by_cases hvt : v = t
  · rw [hut, hvt]
  · subst hut
    rw [update_self] at hu
    rw [update_of_ne hvt] at hv
    exact absurd hv (hρ node hu v)
  · subst hvt
    rw [update_self] at hv
    rw [update_of_ne hut] at hu
    exact absurd hu (hρ node hv u)
  · rw [update_of_ne hut] at hu
    rw [update_of_ne hvt] at hv
    exact h.distinct u v node hu hv

theorem Role.Sound.node_lt (h : ρ.Sound q) (hnode : ρ.node = some node) :
    node < q.fresh ∧ node ∉ q.order := by
  cases ρ with
  | free => cases hnode
  | owner n v =>
    obtain rfl : n = node := some.inj hnode
    exact ⟨h.1, h.2.1⟩
  | linking old n => cases hnode

variable (h : Sound q role)

include h

private theorem sound_alloc (v : V) : Sound
      { q with
        fresh := q.fresh + 1
        data := update q.data q.fresh v
        next := update q.next q.fresh none }
      (update role t (.owner q.fresh v)) := by
  have hfresh : q.fresh ∉ q.order := fun hmem => (h.lt_fresh _ hmem).ne rfl
  have hne {node : ℕ} (hnode : node < q.fresh) : node ≠ q.fresh := hnode.ne
  refine ⟨h.nodup, fun node hnode => (h.lt_fresh node hnode).trans (Nat.lt_succ_self _), h.length,
    h.tail, h.head, fun i node node' hi hnext => ?_, fun i node hi => ?_, ?_, ?_⟩
  · have hnode := h.lt_fresh node (mem_of_getElem? hi)
    simp only [update_of_ne (hne hnode)] at hnext
    exact h.links i node node' hi hnext
  · have hnode := h.lt_fresh node (mem_of_getElem? hi)
    simp only [update_of_ne (hne hnode)]
    exact h.data i node hi
  · refine roles_update_linked ⟨Nat.lt_succ_self _, hfresh, update_self ..,
      update_self ..⟩ fun u _ => ?_
    have hu := h.roles u
    cases hrole : role u with
    | free => trivial
    | owner node w =>
      rw [hrole] at hu
      obtain ⟨hlt, hmem, hdata, hnext⟩ := hu
      exact ⟨hlt.trans (Nat.lt_succ_self _), hmem,
        (update_of_ne (hne hlt) ..).trans hdata,
        (update_of_ne (hne hlt) ..).trans hnext⟩
    | linking old node =>
      rw [hrole] at hu
      exact hu
  · refine distinct_update_linked h fun node hnode u hu => ?_
    obtain rfl : q.fresh = node := some.inj hnode
    exact ((h.roles u).node_lt hu).1.ne rfl

private theorem sound_append {v : V} (ht : role t = .owner node v) :
    Sound { q with tail := node, order := q.order ++ [node], enqueued := q.enqueued ++ [v] }
      (update role t (.linking q.tail node)) := by
  obtain ⟨hlt, hmem, hdata, hnext⟩ : Role.Sound q (.owner node v) := ht ▸ h.roles t
  have hle : q.order <+: q.order ++ [node] := prefix_append ..
  have hnode : (q.order ++ [node])[q.enqueued.length + 1]? = some node := by
    rw [← h.length, getElem?_concat_length]
  refine ⟨?_, ?_, ?_, ?_, getElem?_mono hle h.head, ?_, ?_, ?_, ?_⟩
  · exact nodup_append.mpr ⟨h.nodup, nodup_singleton node,
      fun a ha b hb hab => hmem (mem_singleton.mp hb ▸ hab ▸ ha)⟩
  · intro n hn
    rcases mem_append.mp hn with hn | hn
    · exact h.lt_fresh n hn
    · exact mem_singleton.mp hn ▸ hlt
  · simp only [length_append, length_singleton, h.length]
  · simpa only [length_append, length_singleton] using hnode
  · intro i n n' hi hn
    rw [getElem?_append] at hi
    split at hi
    · exact getElem?_mono hle (h.links i n n' hi hn)
    · -- the new node is not linked yet
      obtain rfl := mem_singleton.mp (mem_of_getElem? hi)
      rw [hnext] at hn
      cases hn
  · intro i n hi
    rw [getElem?_append] at hi
    split at hi
    · exact getElem?_mono (prefix_append ..) (h.data i n hi)
    · rename_i hlen
      obtain rfl := mem_singleton.mp (mem_of_getElem? hi)
      have hi : i + 1 < (q.order ++ [n]).length :=
        (List.getElem?_eq_some_iff.mp
          ((getElem?_append_right (Nat.le_of_not_lt hlen)).trans hi)).1
      obtain rfl : i = q.enqueued.length := by
        rw [length_append, length_singleton] at hi
        have := h.length
        omega
      rw [getElem?_concat_length, hdata]
  · refine roles_update_linked ⟨q.enqueued.length, getElem?_mono hle h.tail, hnode⟩ fun u hu => ?_
    have hsound := h.roles u
    cases hrole : role u with
    | free => trivial
    | owner n w =>
      rw [hrole] at hsound
      refine ⟨hsound.1, fun hn => ?_, hsound.2.2⟩
      rcases mem_append.mp hn with hn | hn
      · exact hsound.2.1 hn
      · obtain rfl := mem_singleton.mp hn
        exact hu (h.distinct u t n (by rw [hrole]; rfl) (by rw [ht]; rfl))
    | linking old n =>
      rw [hrole] at hsound
      exact Follows.mono hsound hle
  · exact distinct_update_linked h fun n hn => by cases hn

private theorem sound_link {old node : ℕ} (ht : role t = .linking old node) :
    Sound { q with next := update q.next old (some node) }
      (update role t .free) := by
  obtain ⟨j, hold, hnode⟩ : Role.Sound q (.linking old node) := ht ▸ h.roles t
  refine ⟨h.nodup, h.lt_fresh, h.length, h.tail, h.head, fun i n n' hi hn => ?_, h.data, ?_, ?_⟩
  · simp only at hi hn ⊢
    by_cases hn' : n = old
    · subst hn'
      rw [update_self] at hn
      obtain rfl := some.inj hn
      rwa [h.index_unique hi hold]
    · rw [update_of_ne hn'] at hn
      exact h.links i n n' hi hn
  · refine roles_update_linked trivial fun u _ => ?_
    have hsound := h.roles u
    cases hrole : role u with
    | free => trivial
    | owner n w =>
      rw [hrole] at hsound
      obtain ⟨hlt, hmem, hdata, hnext⟩ := hsound
      have hne : n ≠ old := fun heq => hmem (heq ▸ mem_of_getElem? hold)
      exact ⟨hlt, hmem, hdata, (update_of_ne hne ..).trans hnext⟩
    | linking old' n =>
      rw [hrole] at hsound
      exact hsound
  · exact distinct_update_linked h fun n hn => by cases hn

private theorem sound_take (hnode : Follows q.order q.head node) (ht : role t = .free) :
    Sound { q with head := node, taken := q.taken + 1 } (update role t .free) := by
  rw [← ht, update_eq_self]
  refine ⟨h.nodup, h.lt_fresh, h.length, h.tail, h.getElem?_taken hnode, h.links, h.data,
    fun u => ?_, h.distinct⟩
  have hsound := h.roles u
  cases hrole : role u with
  | free => trivial
  | owner | linking => rwa [hrole] at hsound

/-- **Every operation keeps the invariant.** -/
theorem Op.sound {ρ' : Role V} (op : Op q (role t) q' ρ') : Sound q' (update role t ρ') := by
  generalize hrole : role t = ρ at op
  cases op with
  | keep => rwa [← hrole, update_eq_self]
  | alloc v => exact sound_alloc h v
  | append node v => exact sound_append h hrole
  | link old node => exact sound_link h hrole
  | take node hnode => exact sound_take h hnode hrole

end Operations

end LinkedQueue

end Interleaving
