import Mathlib.Data.List.AList

/-!
# Signals and listener handlers

A `Signal` (`base/signal.h`) is a list of slots; connecting a callback appends a slot and gives a
connection to it, and calling the signal calls the callbacks of the slots in order. A
`ListenerHandler` (`transport/message/listener_handler.h`) is a signal with a map from the ids of
readers to their connections, through which a reader is disconnected again.

A callback is identified with the id of the reader that it was connected for, and calling a signal
gives the list of these ids. The pointers to slots are numbers.
-/

open List

namespace Cyber

/-- A slot, with its address and the reader of its callback. -/
structure Slot where
  addr : ℕ
  cb : ℕ
  connected : Bool
deriving DecidableEq, Repr

/-- A signal; `next` is an address that no slot has had. -/
structure Signal where
  slots : List Slot
  next : ℕ

namespace Signal

/-- A new signal. -/
def empty : Signal := ⟨[], 0⟩

variable (s : Signal)

/-- `operator()`: the callbacks of the connected slots are called in order. -/
def call : List ℕ := (s.slots.filter (·.connected)).map (·.cb)

/-- `Connect`, with the address of the new slot. -/
def connect (cb : ℕ) : ℕ × Signal :=
  (s.next, ⟨s.slots ++ [⟨s.next, cb, true⟩], s.next + 1⟩)

/-- `ClearDisconnectedSlots` -/
def clearDisconnectedSlots : Signal :=
  { s with slots := s.slots.filter (·.connected) }

/-- `Disconnect` of the connection to the slot at `addr`. -/
def disconnect (addr : ℕ) : Signal :=
  let marked : Signal :=
    { s with slots := s.slots.map fun slot =>
        if slot.addr = addr then { slot with connected := false } else slot }
  if s.slots.any (·.addr = addr) then marked.clearDisconnectedSlots else marked

end Signal

/-- The signal and the connections of a `ListenerHandler`, without those for one opposite reader. -/
structure ListenerHandler where
  signal : Signal
  signalConns : AList fun _ : ℕ => ℕ

namespace ListenerHandler

/-- A new handler. -/
def empty : ListenerHandler := ⟨.empty, ∅⟩

/-- `Connect` -/
def connect (h : ListenerHandler) (selfId : ℕ) : ListenerHandler :=
  let r := h.signal.connect selfId
  ⟨r.2, h.signalConns.insert selfId r.1⟩

/-- `Disconnect` -/
def disconnect (h : ListenerHandler) (selfId : ℕ) : ListenerHandler :=
  match h.signalConns.lookup selfId with
  | none => h
  | some addr => ⟨h.signal.disconnect addr, h.signalConns.erase selfId⟩

/-- `Run`: the readers that are called. -/
def run (h : ListenerHandler) : List ℕ := h.signal.call

/-- The slots are connected and have different addresses, and the connections lead from the
readers to their slots. -/
structure WF (h : ListenerHandler) : Prop where
  connected : ∀ slot ∈ h.signal.slots, slot.connected = true
  addr_lt : ∀ slot ∈ h.signal.slots, slot.addr < h.signal.next
  addr_inj : ∀ slot ∈ h.signal.slots, ∀ slot' ∈ h.signal.slots, slot.addr = slot'.addr →
    slot = slot'
  lookup_iff : ∀ selfId addr, h.signalConns.lookup selfId = some addr ↔
    ∃ slot ∈ h.signal.slots, slot.cb = selfId ∧ slot.addr = addr

theorem wf_empty : empty.WF where
  connected := by simp [empty, Signal.empty]
  addr_lt := by simp [empty, Signal.empty]
  addr_inj := by simp [empty, Signal.empty]
  lookup_iff := by simp [empty, Signal.empty]

@[simp] theorem run_empty : empty.run = [] := rfl

@[simp] theorem run_connect (h : ListenerHandler) (selfId : ℕ) :
    (h.connect selfId).run = h.run ++ [selfId] := by
  simp [run, connect, Signal.call, Signal.connect]

variable {h : ListenerHandler} {selfId : ℕ}

theorem WF.run_eq (hwf : h.WF) : h.run = h.signal.slots.map (·.cb) := by
  rw [run, Signal.call, filter_eq_self.mpr hwf.connected]

theorem WF.connect (hwf : h.WF) (hnew : selfId ∉ h.run) : (h.connect selfId).WF := by
  have hslots : ∀ slot ∈ h.signal.slots, slot.cb ≠ selfId := fun slot hs heq =>
    hnew (hwf.run_eq ▸ mem_map.mpr ⟨slot, hs, heq⟩)
  refine ⟨?_, ?_, ?_, ?_⟩
  · intro slot hs
    rcases mem_append.mp hs with hs | hs
    · exact hwf.connected slot hs
    · rw [mem_singleton.mp hs]
  · intro slot hs
    rcases mem_append.mp hs with hs | hs
    · exact Nat.lt_succ_of_lt (hwf.addr_lt slot hs)
    · rw [mem_singleton.mp hs]
      exact Nat.lt_succ_self _
  · intro slot hs slot' hs' heq
    rcases mem_append.mp hs with hs | hs <;> rcases mem_append.mp hs' with hs' | hs'
    · exact hwf.addr_inj slot hs slot' hs' heq
    · rw [mem_singleton.mp hs'] at heq
      exact absurd heq (ne_of_lt (hwf.addr_lt slot hs))
    · rw [mem_singleton.mp hs] at heq
      exact absurd heq.symm (ne_of_lt (hwf.addr_lt slot' hs'))
    · rw [mem_singleton.mp hs, mem_singleton.mp hs']
  · intro id addr
    simp only [ListenerHandler.connect, Signal.connect, mem_append, mem_singleton,
      or_and_right, exists_or, exists_eq_left]
    by_cases hid : id = selfId
    · subst hid
      rw [AList.lookup_insert, Option.some.injEq]
      refine ⟨fun heq => .inr ⟨rfl, heq⟩, ?_⟩
      rintro (⟨slot, hs, hcb, -⟩ | ⟨-, heq⟩)
      · exact absurd hcb (hslots slot hs)
      · exact heq
    · rw [AList.lookup_insert_ne hid, hwf.lookup_iff]
      simp [Ne.symm hid]

theorem slots_disconnect {s : Signal} (hs : ∀ slot ∈ s.slots, slot.connected = true) (addr : ℕ) :
    (s.disconnect addr).slots = s.slots.filter (·.addr ≠ addr) := by
  have hkeep : ∀ slots : List Slot, (∀ slot ∈ slots, slot.connected = true) →
      (slots.map fun slot => if slot.addr = addr then { slot with connected := false } else
        slot).filter (·.connected) = slots.filter (·.addr ≠ addr) := by
    intro slots hslots
    induction slots with
    | nil => rfl
    | cons slot slots ih =>
      have hslot := hslots slot mem_cons_self
      have hrest := ih fun slot' h' => hslots slot' (mem_cons_of_mem slot h')
      by_cases ha : slot.addr = addr
      · simpa [ha] using hrest
      · simpa [ha, hslot] using hrest
  rw [Signal.disconnect]
  split_ifs with hany
  · exact hkeep s.slots hs
  · have hne : ∀ slot ∈ s.slots, slot.addr ≠ addr := by simpa using hany
    rw [filter_eq_self.mpr (by simpa using hne)]
    exact (map_congr_left fun slot hslot => if_neg (hne slot hslot)).trans (map_id _)

theorem signalConns_disconnect (h : ListenerHandler) (selfId : ℕ) :
    (h.disconnect selfId).signalConns = h.signalConns.erase selfId := by
  rw [disconnect]
  split
  · next hnone =>
    rw [AList.lookup_eq_none] at hnone
    exact (AList.ext (kerase_of_notMem_keys hnone)).symm
  · rfl

theorem next_disconnect (h : ListenerHandler) (selfId : ℕ) :
    (h.disconnect selfId).signal.next = h.signal.next := by
  rw [disconnect]
  split
  · rfl
  · simp only [Signal.disconnect]
    split <;> rfl

theorem WF.slots_disconnect (hwf : h.WF) (selfId : ℕ) :
    (h.disconnect selfId).signal.slots = h.signal.slots.filter (·.cb ≠ selfId) := by
  rw [disconnect]
  split
  · next hnone =>
    refine (filter_eq_self.mpr fun slot hs => ?_).symm
    simp only [ne_eq, decide_not, Bool.not_eq_true', decide_eq_false_iff_not]
    intro hcb
    have hsome := (hwf.lookup_iff selfId slot.addr).mpr ⟨slot, hs, hcb, rfl⟩
    rw [hnone] at hsome
    exact absurd hsome (by simp)
  · next addr hsome =>
    obtain ⟨slot₀, hs₀, hcb₀, haddr₀⟩ := (hwf.lookup_iff selfId addr).mp hsome
    rw [ListenerHandler.slots_disconnect hwf.connected]
    refine filter_congr fun slot hs => decide_eq_decide.mpr (not_congr ⟨?_, ?_⟩)
    · intro haddr
      rw [hwf.addr_inj slot hs slot₀ hs₀ (haddr.trans haddr₀.symm), hcb₀]
    · intro hcb
      have hslot := (hwf.lookup_iff selfId slot.addr).mpr ⟨slot, hs, hcb, rfl⟩
      exact Option.some.inj (hslot.symm.trans hsome)

theorem WF.disconnect (hwf : h.WF) (selfId : ℕ) : (h.disconnect selfId).WF := by
  have hmem : ∀ slot, slot ∈ (h.disconnect selfId).signal.slots ↔
      slot ∈ h.signal.slots ∧ slot.cb ≠ selfId := by
    intro slot
    rw [hwf.slots_disconnect, mem_filter, decide_eq_true_iff]
  refine ⟨fun slot hs => hwf.connected slot ((hmem slot).mp hs).1, fun slot hs => ?_,
    fun slot hs slot' hs' => hwf.addr_inj slot ((hmem slot).mp hs).1 slot' ((hmem slot').mp hs').1,
    fun id addr => ?_⟩
  · rw [next_disconnect]
    exact hwf.addr_lt slot ((hmem slot).mp hs).1
  · rw [signalConns_disconnect]
    by_cases hid : id = selfId
    · subst hid
      rw [AList.lookup_erase]
      refine ⟨fun hnone => absurd hnone (by simp), ?_⟩
      rintro ⟨slot, hs, hcb, -⟩
      exact absurd hcb ((hmem slot).mp hs).2
    · rw [AList.lookup_erase_ne hid, hwf.lookup_iff]
      refine exists_congr fun slot => and_congr_left fun hslot => ?_
      rw [hmem slot, hslot.1]
      exact (and_iff_left hid).symm

theorem WF.run_disconnect (hwf : h.WF) (selfId : ℕ) :
    (h.disconnect selfId).run = h.run.filter (· ≠ selfId) := by
  rw [(hwf.disconnect selfId).run_eq, hwf.run_eq, hwf.slots_disconnect, filter_map]
  rfl

end ListenerHandler

end Cyber
