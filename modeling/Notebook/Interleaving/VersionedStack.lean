import Notebook.Container.Chain
import Mathlib.Data.Finset.Basic

/-!
# A free list with a version

The free nodes of an arena are linked into a list that any number of threads pop from and push to,
by exchanges on its head. A thread reads the link of a node before it knows whether the node is
still free, and writes the link of a node that it releases before it knows whether the head is still
the one it has loaded. Every exchange increments the version of the head, so if an exchange
succeeds, nothing has happened to the list since the head was loaded.

Every node of the arena is free, or handed out, or being released by one thread (`Sound`), and every
operation keeps that (`Op.sound`). What a thread has read of the list stays true as long as the
version does (`Op.frame`).
-/

open Container Function List

namespace Interleaving

/-- The head of a free list and its version, the links of the nodes and the nodes that are handed
out. -/
structure VersionedStack (N : Type*) where
  version : ℕ
  head : Option N
  next : N → Option N
  handed : Finset N

namespace VersionedStack

variable {N T : Type*}

/-- What a thread has under way: a node that it has taken back and not yet pushed. -/
inductive Role (N : Type*)
  | free
  | releasing (node : N)
deriving DecidableEq, Repr

/-- One operation, with the role of the thread before and after. -/
inductive Op [DecidableEq N] :
    VersionedStack N → Role N → VersionedStack N → Role N → Prop
  | keep (f : VersionedStack N) (ρ : Role N) : Op f ρ f ρ
  | pop (f : VersionedStack N) (n : N) (hn : f.head = some n) :
      Op f .free
        { f with version := f.version + 1, head := f.next n, handed := insert n f.handed } .free
  | takeBack (f : VersionedStack N) (n : N) (hn : n ∈ f.handed) :
      Op f .free { f with handed := f.handed.erase n } (.releasing n)
  | link (f : VersionedStack N) (n : N) (p : Option N) :
      Op f (.releasing n) { f with next := update f.next n p } (.releasing n)
  | push (f : VersionedStack N) (n : N) (hn : f.next n = f.head) :
      Op f (.releasing n) { f with version := f.version + 1, head := some n } .free

/-- The free list is `free`, and every node of the arena is either free, or handed out, or being
released by one thread. -/
structure Sound (arena : Set N) (f : VersionedStack N) (role : T → Role N) (free : List N) :
    Prop where
  chain : Chain f.next f.head free
  mem_arena : ∀ n, n ∈ arena ↔ n ∈ free ∨ n ∈ f.handed ∨ ∃ t, role t = .releasing n
  free_handed : ∀ n ∈ free, n ∉ f.handed
  free_releasing : ∀ n ∈ free, ∀ t, role t ≠ .releasing n
  handed_releasing : ∀ n ∈ f.handed, ∀ t, role t ≠ .releasing n
  releasing_unique : ∀ t u n, role t = .releasing n → role u = .releasing n → t = u

variable {f f' : VersionedStack N} {arena : Set N} {role : T → Role N} {t : T} {ρ' : Role N}
  {free : List N}

theorem sound_init (h : Chain f.next f.head free) (hhanded : f.handed = ∅) :
    Sound {n | n ∈ free} f (fun _ : T => .free) free where
  chain := h
  mem_arena n := by simp [hhanded]
  free_handed n _ := by simp [hhanded]
  free_releasing _ _ _ := by simp
  handed_releasing _ _ _ := by simp
  releasing_unique _ _ _ ht := by simp at ht

variable [DecidableEq T] {n : N}

/-- The threads that release the node `n` after one thread has changed its role. -/
theorem update_eq_releasing {u : T} : update role t ρ' u = .releasing n ↔
      u = t ∧ ρ' = .releasing n ∨ u ≠ t ∧ role u = .releasing n := by
  by_cases hu : u = t
  · subst hu
    simp
  · simp [hu]

theorem exists_update_eq_releasing : (∃ u, update role t ρ' u = .releasing n) ↔
      ρ' = .releasing n ∨ ∃ u, u ≠ t ∧ role u = .releasing n := by
  simp only [update_eq_releasing, exists_or, exists_eq_left]

theorem exists_eq_releasing : (∃ u, role u = .releasing n) ↔
      role t = .releasing n ∨ ∃ u, u ≠ t ∧ role u = .releasing n := by
  rw [← exists_update_eq_releasing, update_eq_self]

theorem Sound.push (h : Sound arena f role free) (hρ : role t = .releasing n)
    (hn : f.next n = f.head) :
    Sound arena { f with version := f.version + 1, head := some n }
      (update role t .free) (n :: free) := by
  -- the others release what they have released before
  have hothers : ∀ {u k}, update role t .free u = .releasing k →
      u ≠ t ∧ role u = .releasing k := fun hu =>
    (update_eq_releasing.mp hu).resolve_left fun hfree => by cases hfree.2
  refine ⟨⟨rfl, hn ▸ h.chain⟩, fun k => ?_, fun k hk hk' => ?_, fun k hk u hu => ?_,
    fun k hk u hu => ?_, fun u v k hu hv => ?_⟩
  · rw [h.mem_arena, exists_eq_releasing (t := t), exists_update_eq_releasing, mem_cons, hρ,
      Role.releasing.injEq]
    simp only [reduceCtorEq, false_or, eq_comm (a := n)]
    tauto
  · rcases mem_cons.mp hk with rfl | hk
    · exact h.handed_releasing k hk' t hρ
    · exact h.free_handed k hk hk'
  · obtain ⟨hut, hu⟩ := hothers hu
    rcases mem_cons.mp hk with rfl | hk
    · exact hut (h.releasing_unique u t k hu hρ)
    · exact h.free_releasing k hk u hu
  · exact h.handed_releasing k hk u (hothers hu).2
  · exact h.releasing_unique u v k (hothers hu).2 (hothers hv).2

variable [DecidableEq N]

/-- **What an operation leaves alone**: the head, as long as the version stays, and the links of all
nodes that the thread does not release. -/
theorem Op.frame {ρ ρ' : Role N} (op : Op f ρ f' ρ') :
    f.version ≤ f'.version ∧ (f'.version = f.version → f'.head = f.head) ∧
      ∀ n, ρ ≠ .releasing n → f'.next n = f.next n := by
  cases op with
  | keep => exact ⟨le_rfl, fun _ => rfl, fun _ _ => rfl⟩
  | pop n hn => exact ⟨Nat.le_succ _, fun h => absurd h (Nat.succ_ne_self _), fun _ _ => rfl⟩
  | takeBack n hn => exact ⟨le_rfl, fun _ => rfl, fun _ _ => rfl⟩
  | link n p =>
    refine ⟨le_rfl, fun _ => rfl, fun k hk => update_of_ne (fun hkn => hk ?_) _ _⟩
    rw [hkn]
  | push n hn => exact ⟨Nat.le_succ _, fun h => absurd h (Nat.succ_ne_self _), fun _ _ => rfl⟩

omit [DecidableEq T] in
theorem Sound.pop (h : Sound arena f role free) (hn : f.head = some n) : ∃ free', Sound arena
      { f with version := f.version + 1, head := f.next n, handed := insert n f.handed }
      role free' := by
  have hchain := h.chain
  rw [hn] at hchain
  obtain ⟨rest, rfl, hrest⟩ := hchain.eq_cons
  have hnot : n ∉ rest := (nodup_cons.mp hchain.nodup).1
  refine ⟨rest, hrest, fun k => ?_, fun k hk => ?_, fun k hk => ?_, fun k hk => ?_,
    h.releasing_unique⟩
  · rw [h.mem_arena, mem_cons, Finset.mem_insert]
    tauto
  · rw [Finset.mem_insert, not_or]
    exact ⟨fun hkn => hnot (hkn ▸ hk), h.free_handed k (mem_cons_of_mem n hk)⟩
  · exact h.free_releasing k (mem_cons_of_mem n hk)
  · rcases Finset.mem_insert.mp hk with rfl | hk
    · exact h.free_releasing k mem_cons_self
    · exact h.handed_releasing k hk

theorem Sound.takeBack (h : Sound arena f role free) (hρ : role t = .free) (hn : n ∈ f.handed) :
    Sound arena { f with handed := f.handed.erase n } (update role t (.releasing n))
      free := by
  refine ⟨h.chain, fun k => ?_, fun k hk hk' => ?_, fun k hk u hu => ?_, fun k hk u hu => ?_,
    fun u v k hu hv => ?_⟩
  · rw [h.mem_arena, exists_eq_releasing (t := t), exists_update_eq_releasing, Finset.mem_erase,
      hρ, Role.releasing.injEq]
    by_cases hkn : k = n
    · subst hkn
      simp [hn]
    · simp [hkn, Ne.symm hkn]
  · exact h.free_handed k hk (Finset.mem_of_mem_erase hk')
  · rcases update_eq_releasing.mp hu with ⟨rfl, hkn⟩ | ⟨-, hu⟩
    · obtain rfl := Role.releasing.inj hkn
      exact h.free_handed n hk hn
    · exact h.free_releasing k hk u hu
  · obtain ⟨hkn, hk⟩ := Finset.mem_erase.mp hk
    rcases update_eq_releasing.mp hu with ⟨rfl, hkn'⟩ | ⟨-, hu⟩
    · exact hkn (Role.releasing.inj hkn').symm
    · exact h.handed_releasing k hk u hu
  · -- no other thread releases a node that is handed out
    rcases update_eq_releasing.mp hu with ⟨hut, hkn⟩ | ⟨-, hu'⟩ <;>
      rcases update_eq_releasing.mp hv with ⟨hvt, hkn'⟩ | ⟨-, hv'⟩
    · rw [hut, hvt]
    · obtain rfl := Role.releasing.inj hkn
      exact absurd hv' (h.handed_releasing n hn v)
    · obtain rfl := Role.releasing.inj hkn'
      exact absurd hu' (h.handed_releasing n hn u)
    · exact h.releasing_unique u v k hu' hv'

/-- **Every operation keeps the invariant.** -/
theorem Op.sound (op : Op f (role t) f' ρ') (h : Sound arena f role free) :
    ∃ free', Sound arena f' (update role t ρ') free' := by
  generalize hρ : role t = ρ at op
  cases op with
  | keep => exact ⟨free, by rwa [← hρ, update_eq_self]⟩
  | pop n hn =>
    rw [← hρ, update_eq_self]
    exact h.pop hn
  | takeBack n hn => exact ⟨free, h.takeBack hρ hn⟩
  | link n p =>
    have hnot : n ∉ free := fun hmem => h.free_releasing n hmem t hρ
    rw [← hρ, update_eq_self]
    exact ⟨free, h.chain.update_of_notMem hnot p, h.mem_arena, h.free_handed, h.free_releasing,
      h.handed_releasing, h.releasing_unique⟩
  | push n hn => exact ⟨n :: free, h.push hρ hn⟩

end VersionedStack

end Interleaving
