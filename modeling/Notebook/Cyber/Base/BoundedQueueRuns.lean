import Notebook.Cyber.Base.BoundedQueue

/-!
# Runs of the bounded queue

The queue is first in, first out, and never holds more elements than `Init` asked for. A call of
`Enqueue` that returns `false` is another matter: it compares the slot of an `old_tail` that may be
out of date with the slot of the current `head_`, so consumers that have passed `old_tail` by a
multiple of `pool_size_` make a queue with free slots look full.
-/

open Interleaving

namespace Cyber.BoundedQueue

variable (size : ℕ)

section Fifo

variable {V T : Type*} [Inhabited V] [DecidableEq T]

/-- **First in, first out.** In every run with fewer than `2 ^ 64` calls, the elements taken by
`Dequeue`, in the order of the exchanges on `head_`, are the first of the elements put in by
`Enqueue`, in the order of the exchanges on `tail_`, and all of these were published; and the
queue never holds more elements than `Init` asked for. -/
theorem dequeued_prefix_enqueued (hsize : size < 2 ^ 64) (es : List (T × Act V))
    (s : State V T) (h : exec step (init V T size) es = some s) (hcalls : s.mem.calls < 2 ^ 64) :
    s.mem.dequeued <+: s.mem.enqueued.take (s.mem.commit - 1) ∧
      s.mem.head + 1 ≤ s.mem.tail ∧ s.mem.tail - s.mem.head - 1 ≤ size := by
  by_cases hwrap : size + 2 < 2 ^ 64
  · have hs := (inv_of_exec hwrap h hcalls).sound
    have hhead : s.mem.head < s.mem.commit := hs.head_lt
    have hcommit : s.mem.commit ≤ s.mem.tail := hs.commit_le
    have htail : s.mem.tail ≤ s.mem.head + size + 1 := hs.tail_le
    exact ⟨hs.dequeued_prefix, by omega, by omega⟩
  · have hpool : uint64 (size + 2) ≤ 1 := by
      unfold uint64
      omega
    have hs := unused_of_exec hpool h
    rw [hs.dequeued_eq, hs.head_eq, hs.tail_eq]
    exact ⟨List.nil_prefix, le_rfl, Nat.zero_le _⟩

/-- The call with the later position writes its slot first and has to wait with `commit_`; a
spurious failure delays the other, and the consumer takes both elements. -/
theorem dequeued_prefix_enqueued_of_three_threads :
    let steps (t : Fin 3) (n : ℕ) : List (Fin 3 × Act ℕ) := List.replicate n (t, .step false)
    ∃ s : State ℕ (Fin 3), exec step (init ℕ (Fin 3) 2)
      ((0, .enqueue 7) :: (1, .enqueue 8) :: steps 0 3 ++ steps 1 5 ++ steps 0 1 ++
        (0, .step true) :: steps 0 1 ++ (2, .dequeue) :: steps 2 4 ++ (2, .dequeue) :: steps 2 1 ++
        steps 1 1 ++ steps 2 3) = some s ∧
      s.mem.dequeued = [7, 8] ∧ s.mem.dequeued <+: s.mem.enqueued.take (s.mem.commit - 1) ∧
      s.mem.head + 1 ≤ s.mem.tail ∧ s.mem.tail - s.mem.head - 1 ≤ 2 :=
  exists_exec_mono (P := fun s => s.mem.dequeued = [7, 8] ∧ s.mem.calls < 2 ^ 64)
    (by decide +kernel) fun s hs hP =>
      ⟨hP.1, dequeued_prefix_enqueued 2 (by decide) _ s hs hP.2⟩

end Fifo

/-! ### Rejected calls -/

section Rejected

variable {V T : Type*} (m : Mem V)

/-- The queue holds, reserved or published, as many elements as `Init` asked for. -/
def Mem.Full (size : ℕ) (m : Mem V) : Prop := m.tail = m.head + size + 1
deriving Decidable

/-- A thread that is about to test its `old_tail` against `head_` will find the slots equal
although the consumers have passed its `old_tail`. -/
def Pc.overtaken (m : Mem V) : Pc V → Bool
  | .enqLoadHead _ oldTail =>
    oldTail < m.head ∧ getIndex m.poolSize (uint64 (oldTail + 1)) = getIndex m.poolSize m.head
  | _ => false

/-- The thread that moves is not overtaken. -/
def NotOvertaken (s : State V T) (e : T × Act V) : Prop := ¬(s.pc e.1).overtaken s.mem
deriving Decidable

theorem rejected_prog {m m' : Mem V} {l : Pc V} {spurious : Bool}
    (h : prog m l (.step spurious) = some (m', .idle .rejected)) :
    ∃ v oldTail, l = .enqLoadHead v oldTail ∧
      getIndex m.poolSize (uint64 (oldTail + 1)) = getIndex m.poolSize m.head := by
  revert h
  generalize ha : Act.step spurious = a
  fun_cases prog m l a <;> simp only [Option.some.injEq, Prod.mk.injEq, reduceCtorEq,
    IsEmpty.forall_iff, and_false, Pc.idle.injEq]
  case case4 v oldTail _ _ heq => exact fun _ => ⟨v, oldTail, rfl, heq⟩

/-- **The test against `head_` finds full queues only**, unless the consumers have overtaken the
thread. -/
theorem Inv.full_of_index_eq {size : ℕ} {s : State V T} (h : Inv size s)
    (hsize : size + 2 < 2 ^ 64) (hcalls : s.mem.calls < 2 ^ 64) {t : T} {v : V} {oldTail : ℕ}
    (ht : s.pc t = .enqLoadHead v oldTail) (hle : s.mem.head ≤ oldTail)
    (heq : getIndex s.mem.poolSize (uint64 (oldTail + 1)) = getIndex s.mem.poolSize s.mem.head) :
    s.mem.Full size := by
  have hlt := h.tail_succ_lt hsize hcalls (t := t) (by rw [ht, Pc.pending])
  have hold : oldTail ≤ s.mem.tail := by
    have hguard := h.guard t
    rwa [ht] at hguard
  have htail : s.mem.tail ≤ s.mem.head + size + 1 := h.sound.tail_le
  rw [uint64_eq_self (by omega), getIndex_eq_mod, getIndex_eq_mod, h.poolSize_eq,
    ← Nat.add_mod_right s.mem.head] at heq
  have hturn := SlotRing.eq_of_mod_eq heq (by omega) (by omega)
  unfold Mem.Full
  omega

/-- The queue is full at some moment of `call`, the last part of a run from `Init`: in the state
before its first event or in a state after one of its events. -/
def FullDuring [Inhabited V] [DecidableEq T] (size : ℕ) (before call : List (T × Act V)) : Prop :=
  ∃ call₁ call₂ s, call = call₁ ++ call₂ ∧
    exec step (init V T size) (before ++ call₁) = some s ∧ s.mem.Full size

/-- `call` is a call of `Enqueue` by the thread `t`, with what the other threads do meanwhile: it
starts with the call, and from then on the thread makes the steps of this call. -/
def IsEnqueueCall (t : T) (call : List (T × Act V)) : Prop :=
  ∃ v mid spurious, call = (t, .enqueue v) :: mid ++ [(t, .step spurious)] ∧
    ∀ e ∈ mid, e.1 = t → ∃ b, e.2 = .step b

/-- **A call that is not overtaken is rejected by a full queue only.** In every run with fewer
than `2 ^ 64` calls in which no test of an `old_tail` is overtaken, a call of `Enqueue` that
returns `false` had a full queue at some moment between its start and its return. -/
theorem rejected_when_full [Inhabited V] [DecidableEq T] (hsize : size + 2 < 2 ^ 64)
    (before call : List (T × Act V)) (t : T) (s : State V T) (hcall : IsEnqueueCall t call)
    (h : exec step (init V T size) (before ++ call) = some s) (hcalls : s.mem.calls < 2 ^ 64)
    (hnot : AllSteps step NotOvertaken (init V T size) (before ++ call))
    (hfalse : s.pc t = .idle .rejected) : FullDuring size before call := by
  obtain ⟨v, mid, spurious, rfl, -⟩ := hcall
  rw [← List.append_assoc] at h hnot
  obtain ⟨s₁, h₁, hstep⟩ := exec_concat_eq_some.mp h
  obtain ⟨m, l, hp, rfl⟩ := Threads.step_eq_some.mp hstep
  obtain rfl : l = .idle .rejected := by simpa only [Function.update_self] using hfalse
  obtain ⟨v', oldTail, hpc, heq⟩ := rejected_prog hp
  have hcalls₁ : s₁.mem.calls < 2 ^ 64 := (calls_le_prog hp).trans_lt hcalls
  -- the condition on the last step is the one on the test that rejects the call
  have hlast : NotOvertaken s₁ (t, .step spurious) := by
    rw [allSteps_append h₁] at hnot
    exact ((allSteps_cons hstep).mp hnot.2).1
  have hle : s₁.mem.head ≤ oldTail := by
    simp only [NotOvertaken, hpc, Pc.overtaken, decide_eq_true_eq] at hlast
    exact not_lt.mp fun hlt => hlast ⟨hlt, heq⟩
  exact ⟨(t, .enqueue v) :: mid, [(t, .step spurious)], s₁, rfl, h₁,
    (inv_of_exec hsize h₁ hcalls₁).full_of_index_eq hsize hcalls₁ hpc hle heq⟩

end Rejected

theorem rejected_when_full_of_size_one :
    FullDuring 1 [(0, .enqueue 7), (0, .step false), (0, .step false), (0, .step false)]
      [((1 : Fin 2), .enqueue 8), (1, .step false), (1, .step false)] := by
  obtain ⟨s, hs, hc, hpc⟩ : ∃ s, exec step (init ℕ (Fin 2) 1)
      [(0, .enqueue 7), (0, .step false), (0, .step false), (0, .step false), (1, .enqueue 8),
        (1, .step false), (1, .step false)] = some s ∧
      s.mem.calls < 2 ^ 64 ∧ s.pc 1 = .idle .rejected := by decide +kernel
  exact rejected_when_full 1 (by decide) _ _ 1 s ⟨8, [(1, .step false)], false, rfl, by simp⟩ hs
    hc (by decide) hpc

/-- Thread `0` loads `tail_`; two elements pass through the queue; thread `0` loads `head_`. -/
def overtakenCall : List (Fin 3 × Act ℕ) :=
  let enqueue : List (Fin 3 × Act ℕ) := (1, .enqueue 5) :: List.replicate 5 (1, .step false)
  let dequeue : List (Fin 3 × Act ℕ) := (2, .dequeue) :: List.replicate 4 (2, .step false)
  [(0, .enqueue 9), (0, .step false)] ++ enqueue ++ dequeue ++ enqueue ++ dequeue ++
    [(0, .step false)]

/-- **An overtaken call.** A queue for two elements rejects a call during which it never holds
more than one. -/
theorem rejected_never_full :
    IsEnqueueCall 0 overtakenCall ∧
      (∃ s, exec step (init ℕ (Fin 3) 2) overtakenCall = some s ∧ s.mem.calls < 2 ^ 64 ∧
        s.pc 0 = .idle .rejected) ∧
      ¬FullDuring 2 [] overtakenCall := by
  refine ⟨⟨9, overtakenCall.tail.dropLast, false, rfl, by decide⟩, by decide +kernel, ?_⟩
  rintro ⟨call₁, call₂, s, hcall, hs, hfull⟩
  have hnever : ∀ c ∈ overtakenCall.inits,
      ¬∃ s, exec step (init ℕ (Fin 3) 2) c = some s ∧ s.mem.Full 2 := by decide +kernel
  exact hnever call₁ ((List.mem_inits _ _).mpr ⟨call₂, hcall.symm⟩) ⟨s, hs, hfull⟩

end Cyber.BoundedQueue
