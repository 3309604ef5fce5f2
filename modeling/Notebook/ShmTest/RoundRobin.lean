import Notebook.Container.RoundRobin
import Notebook.ShmTest.ManagerSafety

/-!
# Which blocks a writer tries

`GetNextWritableBlockIndex` (`shm_src/alloc_memory_base.cpp`) takes a ticket from the 32-bit counter
of the segment with `FetchAddSeq(1)` (`shm_inc/state.h`) and tries the block that the ticket
determines modulo the block count, until it has locked one. Between two wrap-arounds of the counter
the tickets go round the blocks. At a wrap-around they go on with block `0`, whatever the last one
was.
-/

open Interleaving Container

namespace ShmTest

/-- `State::FetchAddSeq(1)` -/
def Segment.fetchAddSeq (seg : Segment) : ℕ × Segment :=
  (seg.seq, { seg with seq := uint32 (seg.seq + 1) })

/-- The results of consecutive calls of `FetchAddSeq(1)`, whoever makes them. -/
def Segment.tickets : ℕ → Segment → List ℕ
  | 0, _ => []
  | k + 1, seg => seg.fetchAddSeq.1 :: tickets k seg.fetchAddSeq.2

variable {seg : Segment}

theorem Segment.map_tickets (n k : ℕ) (hseq : seg.seq < 2 ^ 32) :
    (seg.tickets k).map (· % n) = ticketSlots (2 ^ 32) n seg.seq k := by
  induction k generalizing seg with
  | zero => rfl
  | succ k ih =>
    have hnext : seg.fetchAddSeq.2.seq < 2 ^ 32 := uint32_lt _
    rw [tickets, List.map_cons, ih hnext, ticketSlots_succ hseq]
    rfl

section Writer

variable {self n obj : ℕ}

/-- A writer that has not locked a block has tried the blocks of its tickets. Nobody else takes
tickets in the meantime, and the locking of a block leaves the counter alone. -/
theorem triedBlocks_eq_ticketSlots (hn : 0 < n) {spurious : List (Bool × Bool)} {m : Store}
    (hseg : m.shm obj = some seg) (hseq : seg.seq < 2 ^ 32)
    (hblocks : seg.blocks.length = n)
    (hfail : getNextWritableBlockIndex self n obj spurious m = none) :
    triedBlocks self n obj spurious m = ticketSlots (2 ^ 32) n seg.seq spurious.length := by
  induction spurious generalizing m seg with
  | nil => rfl
  | cons answer rest ih =>
    have hlt : seg.seq % n < seg.blocks.length := by
      rw [hblocks]
      exact Nat.mod_lt _ hn
    have hb := List.getElem?_eq_getElem hlt
    rw [getNextWritableBlockIndex, if_neg hn.ne', hseg] at hfail
    rw [triedBlocks, if_neg hn.ne', hseg, List.length_cons, ticketSlots_succ hseq]
    simp only [hb] at hfail ⊢
    split at hfail
    · cases hfail
    · rename_i hlocked
      have hrest := ih (Store.set_shm ..) (uint32_lt _) (by simpa using hblocks) hfail
      rw [if_neg hlocked]
      exact congrArg _ hrest

end Writer

/-- **Round robin.** As many tickets as there are blocks come to different blocks, and a lone writer
that has failed that often has tried every block, exactly when the counter does not wrap around in
between or the block count divides `2 ^ 32`. -/
theorem tickets_cover_iff {n : ℕ} (hn : 0 < n) (hseq : seg.seq < 2 ^ 32) :
    (((seg.tickets n).map (· % n)).Nodup ↔ seg.seq + n ≤ 2 ^ 32 ∨ n ∣ 2 ^ 32) ∧
      ∀ (self obj : ℕ) (spurious : List (Bool × Bool)) (m : Store),
        m.shm obj = some seg → seg.blocks.length = n → spurious.length = n →
        getNextWritableBlockIndex self n obj spurious m = none →
        ((∀ index < n, index ∈ triedBlocks self n obj spurious m) ↔
          seg.seq + n ≤ 2 ^ 32 ∨ n ∣ 2 ^ 32) := by
  constructor
  · rw [Segment.map_tickets n n hseq]
    exact nodup_ticketSlots_iff hseq
  · intro self obj spurious m hseg hblocks hlen hfail
    rw [triedBlocks_eq_ticketSlots hn hseg hseq hblocks hfail, hlen,
      forall_mem_ticketSlots_iff hn]
    exact nodup_ticketSlots_iff hseq

/-- The segment of three blocks whose counter has the given value. Process `7` writes to the first
two blocks, the third is free. -/
def Segment.twoOfThree (seq : ℕ) : Segment :=
  let busy : Block := ⟨writeExclusive, (List.replicate maxProcessNum 0).set 0 7⟩
  ⟨false, seq, 2, 1024, 3, [busy, busy, .new]⟩

/-- The store with that object. -/
def Store.twoOfThree (seq : ℕ) : Store :=
  Store.set ⟨fun _ => none, 1, fun _ => some 0, fun _ => false⟩ 0 (.twoOfThree seq)

/-- Away from the wrap-around, three tickets come to the three blocks, and so does a writer whose
exchange on the free block fails spuriously. -/
theorem tickets_cover_five :
    (((Segment.twoOfThree 5).tickets 3).map (· % 3)).Nodup ∧
      ∀ index < 3, index ∈ triedBlocks 8 3 0 (List.replicate 3 (true, true)) (.twoOfThree 5) := by
  have hseq : (Segment.twoOfThree 5).seq < 2 ^ 32 := by decide
  obtain ⟨hnodup, hcover⟩ := tickets_cover_iff (Nat.succ_pos 2) hseq
  have hfail : getNextWritableBlockIndex 8 3 0 (List.replicate 3 (true, true)) (.twoOfThree 5) =
      none := Option.isNone_iff_eq_none.mp (by decide +kernel)
  exact ⟨hnodup.mpr (.inl (by decide)),
    (hcover 8 0 _ (.twoOfThree 5) rfl rfl rfl hfail).mpr (.inl (by decide))⟩

/-- At the wrap-around, a writer fails three times, on the blocks `0`, `0` and `1`. Block `2` is
free and has not been tried. -/
theorem tickets_miss_block :
    ((Segment.twoOfThree (2 ^ 32 - 1)).tickets 3).map (· % 3) = [0, 0, 1] ∧
      (getNextWritableBlockIndex 8 3 0 (List.replicate 3 (false, false))
        (.twoOfThree (2 ^ 32 - 1))).isNone ∧
      2 ∉ triedBlocks 8 3 0 (List.replicate 3 (false, false)) (.twoOfThree (2 ^ 32 - 1)) := by
  decide +kernel

end ShmTest
