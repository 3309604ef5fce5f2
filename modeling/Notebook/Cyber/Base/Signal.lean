import Notebook.Cyber.Transport.Message.ListenerHandler
import Notebook.Interleaving.Run

/-!
# Signals whose callbacks use the signal

A callback that a `Signal` (`base/signal.h`) calls may itself connect and disconnect slots of the
signal, its own included, and call the signal again. `operator()` copies the list of slots before it
calls them; a slot is skipped if its flag `connected_`, which the copy shares with the list of the
signal, is cleared before its turn. At the end of every call, also of a nested one, the disconnected
slots are erased from the list of the signal.

The code that uses the signal is a sequence of operations: those of the callback that runs, or of
the outermost code. The slots and the calls are numbered in the order in which they are made, and
the function of a slot is not empty.

## Main definitions

* `Emission.step` — the operations of the code and the loop of `operator()`.
* `connectedAfter`, `turnsOf` — the slots that a history has connected, and those that had a turn.
* `Inv` — the list of the signal and its calls are as the history says.

## Main results

* `Inv.step` — the invariant is kept by every step.
* `calls_connected` — which slots a call of the signal calls, and in which order.
-/

open Interleaving Function List Option

namespace Cyber.Emission

/-- What has happened: slots were connected and disconnected, calls of the signal began and ended,
and the turn of a slot came in a call, where it was called or skipped. -/
inductive Entry
  | connect (c : ℕ)
  | disconnect (c : ℕ)
  | start (e : ℕ)
  | turn (e c : ℕ) (called : Bool)
  | finish (e : ℕ)
deriving DecidableEq, Repr

/-- A call of `operator()` that has not returned: the slots of `local` whose turn has not come, and
whether a callback runs. -/
structure Frame where
  emission : ℕ
  rest : List ℕ
  calling : Bool
deriving DecidableEq, Repr

/-- A signal with its calls, the innermost first, and its history. `connected` are the flags of the
slots. -/
structure State where
  slots : List ℕ
  connected : ℕ → Bool
  next : ℕ
  emissions : ℕ
  frames : List Frame
  log : List Entry

/-- A new signal. -/
def init : State where
  slots := []
  connected := fun _ => false
  next := 0
  emissions := 0
  frames := []
  log := []

variable (c : ℕ)

namespace State

variable (s : State)

/-- `Connect` -/
def connect : State :=
  { s with
    slots := s.slots ++ [s.next]
    connected := update s.connected s.next true
    next := s.next + 1
    log := s.log ++ [.connect s.next] }

/-- `ClearDisconnectedSlots` -/
def clearDisconnectedSlots : State := { s with slots := s.slots.filter s.connected }

/-- `Disconnect` of the connection to the slot `c`. -/
def disconnect (c : ℕ) : State :=
  let s' : State :=
    if c ∈ s.slots then
      { s with connected := update s.connected c false }.clearDisconnectedSlots
    else s
  { s' with log := s.log ++ [.disconnect c] }

/-- `operator()` up to its loop. -/
def emit : State :=
  { s with
    emissions := s.emissions + 1
    frames := ⟨s.emissions, s.slots, false⟩ :: s.frames
    log := s.log ++ [.start s.emissions] }

/-- A callback runs, or the outermost code. -/
def atCode : Bool := s.frames.head?.elim true Frame.calling

end State

/-- What happens next: an operation of the code that runs, its return to the loop that has called
it, or a round of this loop. -/
inductive Event
  | connect
  | disconnect (c : ℕ)
  | emit
  | ret
  | loop
deriving DecidableEq, Repr

/-- One step. A connection is there after `Connect` has returned it. -/
def step (s : State) : Event → Option State
  | .connect => if s.atCode then some s.connect else none
  | .disconnect c => if s.atCode ∧ c < s.next then some (s.disconnect c) else none
  | .emit => if s.atCode then some s.emit else none
  | .ret =>
    match s.frames with
    | ⟨e, rest, true⟩ :: frames => some { s with frames := ⟨e, rest, false⟩ :: frames }
    | _ => none
  | .loop =>
    match s.frames with
    | ⟨e, c :: rest, false⟩ :: frames =>
      some { s with
        frames := ⟨e, rest, s.connected c⟩ :: frames
        log := s.log ++ [.turn e c (s.connected c)] }
    | ⟨e, [], false⟩ :: frames =>
      some { s.clearDisconnectedSlots with frames := frames, log := s.log ++ [.finish e] }
    | _ => none

/-! ### The operations of a signal -/

/-- The signal of a listener handler; the callback of a slot is named by its number. -/
def State.toSignal (s : State) : Signal :=
  ⟨s.slots.map fun c => ⟨c, c, s.connected c⟩, s.next⟩

theorem toSignal_connect {s : State} (hnext : s.next ∉ s.slots) :
    s.connect.toSignal = (s.toSignal.connect s.next).2 := by
  have hslots : s.slots.map (fun c => (⟨c, c, update s.connected s.next true c⟩ : Slot)) =
      s.slots.map fun c => ⟨c, c, s.connected c⟩ := by
    refine map_congr_left fun c hc => ?_
    have hne : c ≠ s.next := fun heq => hnext (heq ▸ hc)
    rw [update_of_ne hne]
  simp [State.toSignal, State.connect, Signal.connect, hslots]

theorem toSignal_disconnect (s : State) (c : ℕ) :
    (s.disconnect c).toSignal = s.toSignal.disconnect c := by
  have hmark : (s.slots.map fun x => (⟨x, x, s.connected x⟩ : Slot)).map
      (fun slot => if slot.addr = c then { slot with connected := false } else slot) =
      s.slots.map fun x => ⟨x, x, update s.connected c false x⟩ := by
    rw [List.map_map]
    refine map_congr_left fun x _ => ?_
    by_cases hx : x = c
    · simp [hx]
    · simp [hx]
  rw [State.toSignal, State.toSignal, Signal.disconnect]
  dsimp only
  rw [hmark]
  by_cases hc : c ∈ s.slots
  · rw [State.disconnect, if_pos hc, if_pos (by simpa using hc)]
    simp [State.clearDisconnectedSlots, Signal.clearDisconnectedSlots, List.filter_map,
      comp_def]
  · rw [State.disconnect, if_neg hc, if_neg (by simpa using hc)]
    have hsame : ∀ x ∈ s.slots, update s.connected c false x = s.connected x :=
      fun x hx => update_of_ne (ne_of_mem_of_not_mem hx hc) _ _
    simp only [Signal.mk.injEq, and_true]
    exact map_congr_left fun x hx => by rw [hsame x hx]

/-! ### The history -/

/-- The slots that are connected after a history, in the order of their connection. -/
def connectedAfter (log : List Entry) : List ℕ :=
  log.foldl (fun l entry =>
    match entry with
    | .connect c => l ++ [c]
    | .disconnect c => l.erase c
    | _ => l) []

variable (e : ℕ)

/-- The slots whose turn came in the call `e` of the signal. -/
def turnsOf (e : ℕ) (log : List Entry) : List ℕ :=
  log.filterMap fun
    | .turn e' c _ => if e' = e then some c else none
    | _ => none

/-- The slots whose turn has not come in the call `e`. -/
def restOf : List Frame → ℕ → List ℕ
  | [], _ => []
  | frame :: frames, e => if frame.emission = e then frame.rest else restOf frames e

/-- Slots are numbered in the order of their connection, and are not disconnected before. -/
def Numbered : List Entry → Prop :=
  Always fun pre entry => ∀ c, entry = .connect c →
    ∀ x, .connect x ∈ pre ∨ .disconnect x ∈ pre → x < c

variable {log : List Entry}

@[simp] theorem connectedAfter_connect :
    connectedAfter (log ++ [.connect c]) = connectedAfter log ++ [c] := by
  rw [connectedAfter, foldl_concat]
  rfl

@[simp] theorem connectedAfter_disconnect :
    connectedAfter (log ++ [.disconnect c]) = (connectedAfter log).erase c := by
  rw [connectedAfter, foldl_concat]
  rfl

@[simp] theorem connectedAfter_start : connectedAfter (log ++ [.start e]) = connectedAfter log := by
  rw [connectedAfter, foldl_concat]
  rfl

@[simp] theorem connectedAfter_turn (e c : ℕ) (called : Bool) :
    connectedAfter (log ++ [.turn e c called]) = connectedAfter log := by
  rw [connectedAfter, foldl_concat]
  rfl

@[simp] theorem connectedAfter_finish :
    connectedAfter (log ++ [.finish e]) = connectedAfter log := by
  rw [connectedAfter, foldl_concat]
  rfl

theorem turnsOf_append (log log' : List Entry) :
    turnsOf e (log ++ log') = turnsOf e log ++ turnsOf e log' := filterMap_append

/-- **The connected slots.** They are those that were connected and not disconnected, in the order
of their numbers. -/
theorem connectedAfter_spec (h : Numbered log) : (connectedAfter log).Pairwise (· < ·) ∧
    ∀ c, c ∈ connectedAfter log ↔ .connect c ∈ log ∧ .disconnect c ∉ log := by
  induction log using List.reverseRecOn with
  | nil => simp [connectedAfter]
  | append_singleton log entry ih =>
    obtain ⟨hlog, hentry⟩ := always_concat.mp h
    obtain ⟨hsorted, hmem⟩ := ih hlog
    cases entry with
    | connect c =>
      have hlt := hentry c rfl
      rw [connectedAfter_connect]
      constructor
      · refine pairwise_append.mpr ⟨hsorted, pairwise_singleton _ _, ?_⟩
        intro x hx y hy
        obtain rfl := mem_singleton.mp hy
        exact hlt x (.inl ((hmem x).mp hx).1)
      · intro x
        have hnew : Entry.disconnect c ∉ log := fun hd => lt_irrefl c (hlt c (.inr hd))
        simp only [mem_append, mem_singleton, hmem, Entry.connect.injEq, reduceCtorEq,
          or_false]
        constructor
        · rintro (⟨hc, hd⟩ | rfl)
          · exact ⟨.inl hc, hd⟩
          · exact ⟨.inr rfl, hnew⟩
        · rintro ⟨hc | rfl, hd⟩
          · exact .inl ⟨hc, hd⟩
          · exact .inr rfl
    | disconnect c =>
      have hnodup : (connectedAfter log).Nodup := hsorted.imp ne_of_lt
      rw [connectedAfter_disconnect]
      refine ⟨hsorted.sublist erase_sublist, fun x => ?_⟩
      rw [hnodup.mem_erase_iff, hmem]
      simp only [mem_append, mem_singleton, reduceCtorEq, or_false,
        Entry.disconnect.injEq, not_or]
      tauto
    | start | turn | finish => simpa using ⟨hsorted, hmem⟩

/-! ### The slots -/

/-- The list of the signal and the flags are as the history says. -/
structure SlotsOk (s : State) : Prop where
  slots_eq : s.slots = connectedAfter s.log
  connected_iff : ∀ c, s.connected c = true ↔ c ∈ s.slots
  numbered : Numbered s.log
  lt_next : ∀ c, .connect c ∈ s.log ∨ .disconnect c ∈ s.log → c < s.next

variable {s s' : State}

section

variable (h : SlotsOk s)

include h

theorem SlotsOk.sorted : s.slots.Pairwise (· < ·) :=
  h.slots_eq ▸ (connectedAfter_spec h.numbered).1

theorem SlotsOk.clear_eq : s.clearDisconnectedSlots = s := by
  rw [State.clearDisconnectedSlots, filter_eq_self.mpr fun c hc => (h.connected_iff c).mpr hc]

theorem SlotsOk.of_entry {entry : Entry} (hslots : s'.slots = s.slots)
    (hconnected : s'.connected = s.connected) (hnext : s'.next = s.next)
    (hlog : s'.log = s.log ++ [entry])
    (hentry : ∀ c, entry ≠ .connect c ∧ entry ≠ .disconnect c) : SlotsOk s' := by
  have hafter : connectedAfter (s.log ++ [entry]) = connectedAfter s.log := by
    cases entry with
    | connect c => exact absurd rfl (hentry c).1
    | disconnect c => exact absurd rfl (hentry c).2
    | start e => exact connectedAfter_start e
    | turn e c called => exact connectedAfter_turn e c called
    | finish e => exact connectedAfter_finish e
  refine ⟨?_, ?_, ?_, ?_⟩
  · rw [hslots, hlog, hafter, h.slots_eq]
  · rw [hslots, hconnected]
    exact h.connected_iff
  · rw [hlog]
    exact always_concat.mpr ⟨h.numbered, fun c hc => absurd hc (hentry c).1⟩
  · intro c
    rw [hlog, hnext]
    simp only [mem_append, mem_singleton, (hentry c).1.symm, (hentry c).2.symm, or_false]
    exact h.lt_next c

theorem SlotsOk.connect : SlotsOk s.connect where
  slots_eq := by
    rw [State.connect, connectedAfter_connect, ← h.slots_eq]
  connected_iff := by
    intro c
    rw [State.connect]
    dsimp only
    by_cases hc : c = s.next
    · simp [hc]
    · simp [hc, h.connected_iff]
  numbered := by
    refine always_concat.mpr ⟨h.numbered, fun c hc x hx => ?_⟩
    rw [← Entry.connect.inj hc]
    exact h.lt_next x hx
  lt_next := by
    intro c
    simp only [State.connect, mem_append, mem_singleton, Entry.connect.injEq,
      reduceCtorEq, or_false]
    rintro ((hc | rfl) | hc)
    · exact Nat.lt_succ_of_lt (h.lt_next c (.inl hc))
    · exact Nat.lt_succ_self _
    · exact Nat.lt_succ_of_lt (h.lt_next c (.inr hc))

theorem SlotsOk.slots_disconnect : (s.disconnect c).slots = s.slots.erase c ∧
      ∀ x, (s.disconnect c).connected x = true ↔ x ∈ s.slots.erase c := by
  have hnodup : s.slots.Nodup := h.sorted.imp ne_of_lt
  by_cases hc : c ∈ s.slots
  · have hflag : ∀ x, update s.connected c false x = true ↔ x ∈ s.slots.erase c := by
      intro x
      rw [hnodup.mem_erase_iff, ← h.connected_iff]
      by_cases hx : x = c
      · simp [hx]
      · simp [hx]
    rw [State.disconnect, if_pos hc]
    refine ⟨?_, hflag⟩
    rw [hnodup.erase_eq_filter]
    refine filter_congr fun x hx => ?_
    by_cases hxc : x = c
    · simp [hxc]
    · simp [hxc, (h.connected_iff x).mpr hx]
  · rw [State.disconnect, if_neg hc, erase_of_not_mem hc]
    exact ⟨rfl, h.connected_iff⟩

theorem SlotsOk.disconnect {c : ℕ} (hc : c < s.next) : SlotsOk (s.disconnect c) := by
  obtain ⟨hslots, hconnected⟩ := h.slots_disconnect c
  have hnext : (s.disconnect c).next = s.next := by
    rw [State.disconnect]
    split_ifs <;> rfl
  have hlog : (s.disconnect c).log = s.log ++ [.disconnect c] := rfl
  refine ⟨?_, ?_, ?_, ?_⟩
  · rw [hslots, hlog, connectedAfter_disconnect, h.slots_eq]
  · rw [hslots]
    exact hconnected
  · rw [hlog]
    exact always_concat.mpr ⟨h.numbered, fun x hx => by simp at hx⟩
  · intro x
    rw [hlog, hnext]
    simp only [mem_append, mem_singleton, reduceCtorEq, or_false, Entry.disconnect.injEq]
    rintro (hx | hx | rfl)
    · exact h.lt_next x (.inl hx)
    · exact h.lt_next x (.inr hx)
    · exact hc

end

/-! ### The calls -/

/-- The slots whose turn came in a call, followed by those whose turn has not come, are those that
were connected when the call began; a slot whose turn came was called if it was connected then. -/
structure CallsOk (s : State) : Prop where
  lt_emissions : ∀ e, .start e ∈ s.log ∨ .finish e ∈ s.log ∨
    e ∈ s.frames.map Frame.emission → e < s.emissions
  nodup : (s.frames.map Frame.emission).Nodup
  finished : ∀ e, .finish e ∈ s.log → e ∉ s.frames.map Frame.emission
  called_iff : Always (fun pre entry => ∀ e c called, entry = .turn e c called →
    (called = true ↔ c ∈ connectedAfter pre)) s.log
  turns_eq : ∀ pre x post, s.log = pre ++ x :: post → ∀ e, x = .start e →
    turnsOf e post ++ restOf s.frames e = connectedAfter pre

variable {frames : List Frame}

theorem restOf_of_notMem {e : ℕ} (h : e ∉ frames.map Frame.emission) : restOf frames e = [] := by
  induction frames with
  | nil => rfl
  | cons frame frames ih =>
    rw [map_cons, mem_cons, not_or] at h
    rw [restOf, if_neg (Ne.symm h.1), ih h.2]

theorem CallsOk.of_entry (h : CallsOk s) {entry : Entry} (hframes : s'.frames = s.frames)
    (hemissions : s'.emissions = s.emissions) (hlog : s'.log = s.log ++ [entry])
    (hentry : ∃ c, entry = .connect c ∨ entry = .disconnect c) : CallsOk s' := by
  have hstart : ∀ e, Entry.start e ∈ s'.log ↔ Entry.start e ∈ s.log := by
    intro e
    obtain ⟨c, rfl | rfl⟩ := hentry <;> simp [hlog]
  have hfinish : ∀ e, Entry.finish e ∈ s'.log ↔ Entry.finish e ∈ s.log := by
    intro e
    obtain ⟨c, rfl | rfl⟩ := hentry <;> simp [hlog]
  have hturns : ∀ e log, turnsOf e (log ++ [entry]) = turnsOf e log := by
    intro e log
    rw [turnsOf_append]
    obtain ⟨c, rfl | rfl⟩ := hentry <;> exact append_nil _
  refine ⟨fun e he => ?_, hframes ▸ h.nodup, fun e he => ?_, ?_, ?_⟩
  · rw [hstart, hfinish, hframes] at he
    exact hemissions ▸ h.lt_emissions e he
  · rw [hframes]
    exact h.finished e ((hfinish e).mp he)
  · rw [hlog]
    refine always_concat.mpr ⟨h.called_iff, fun e c called heq => ?_⟩
    obtain ⟨c, rfl | rfl⟩ := hentry <;> cases heq
  · rw [hlog, forall_split_concat, hframes]
    refine ⟨fun e heq => ?_, fun pre x post heq e hx => ?_⟩
    · obtain ⟨c, rfl | rfl⟩ := hentry <;> cases heq
    · rw [hturns, ← h.turns_eq pre x post heq e hx]

/-- A new call starts with a copy of the slots. -/
theorem CallsOk.emit (h : CallsOk s) (hslots : SlotsOk s) : CallsOk s.emit where
  lt_emissions := by
    intro e he
    have hold : e = s.emissions ∨ .start e ∈ s.log ∨ .finish e ∈ s.log ∨
        e ∈ s.frames.map Frame.emission := by
      simp only [State.emit, map_cons, mem_append, mem_cons, Entry.start.injEq,
        reduceCtorEq, not_mem_nil, or_false] at he
      rcases he with (hstart | rfl) | hfinish | rfl | hmem
      · exact .inr (.inl hstart)
      · exact .inl rfl
      · exact .inr (.inr (.inl hfinish))
      · exact .inl rfl
      · exact .inr (.inr (.inr hmem))
    rcases hold with rfl | hold
    · exact Nat.lt_succ_self _
    · exact Nat.lt_succ_of_lt (h.lt_emissions e hold)
  nodup := by
    refine nodup_cons.mpr ⟨fun hmem => ?_, h.nodup⟩
    exact lt_irrefl _ (h.lt_emissions _ (.inr (.inr hmem)))
  finished := by
    intro e he
    simp only [State.emit, mem_append, mem_singleton, reduceCtorEq, or_false] at he
    rw [State.emit, map_cons, mem_cons, not_or]
    exact ⟨(h.lt_emissions e (.inr (.inl he))).ne, h.finished e he⟩
  called_iff := always_concat.mpr ⟨h.called_iff, by simp⟩
  turns_eq := by
    rw [State.emit, forall_split_concat]
    constructor
    · intro e he
      rw [← Entry.start.inj he, restOf, if_pos rfl]
      exact hslots.slots_eq
    · intro pre x post heq e hx
      have hstart : .start e ∈ s.log := by simp [heq, hx]
      have hne : s.emissions ≠ e := (h.lt_emissions e (.inl hstart)).ne'
      rw [turnsOf_append, restOf, if_neg hne, ← h.turns_eq pre x post heq e hx]
      simp [turnsOf]

variable {calling : Bool}

theorem CallsOk.ret (h : CallsOk s) {e : ℕ} {rest : List ℕ}
    (hframes : s.frames = ⟨e, rest, calling⟩ :: frames) (calling' : Bool) :
    CallsOk { s with frames := ⟨e, rest, calling'⟩ :: frames } := by
  obtain ⟨slots, connected, next, emissions, frames', log⟩ := s
  subst hframes
  exact ⟨h.lt_emissions, h.nodup, h.finished, h.called_iff, h.turns_eq⟩

theorem CallsOk.turn (h : CallsOk s) (hslots : SlotsOk s) {e c : ℕ} {rest : List ℕ}
    (hframes : s.frames = ⟨e, c :: rest, calling⟩ :: frames) :
    CallsOk { s with
      frames := ⟨e, rest, s.connected c⟩ :: frames
      log := s.log ++ [.turn e c (s.connected c)] } := by
  obtain ⟨slots, connected, next, emissions, frames', log⟩ := s
  subst hframes
  refine ⟨?_, h.nodup, ?_, ?_, ?_⟩
  · simpa using h.lt_emissions
  · simpa using h.finished
  · refine always_concat.mpr ⟨h.called_iff, fun e' c' called heq => ?_⟩
    obtain ⟨-, rfl, rfl⟩ := Entry.turn.inj heq
    rw [hslots.connected_iff, hslots.slots_eq]
  · rw [forall_split_concat]
    refine ⟨by simp, fun pre x post heq e' hx => ?_⟩
    have hturns := h.turns_eq pre x post heq e' hx
    rw [turnsOf_append, ← hturns]
    by_cases he : e = e'
    · simp [turnsOf, restOf, he]
    · simp [turnsOf, restOf, he]

/-- A call ends after the turns of all its slots. -/
theorem CallsOk.finish (h : CallsOk s) {e : ℕ} (hframes : s.frames = ⟨e, [], calling⟩ :: frames) :
    CallsOk { s with frames := frames, log := s.log ++ [.finish e] } := by
  obtain ⟨slots, connected, next, emissions, frames', log⟩ := s
  subst hframes
  obtain ⟨hnotMem, hnodup⟩ := nodup_cons.mp h.nodup
  refine ⟨?_, hnodup, ?_, ?_, ?_⟩
  · intro e' he'
    have hold := h.lt_emissions e'
    simp only [mem_append, mem_singleton, reduceCtorEq, or_false,
      Entry.finish.injEq] at he'
    simp only [map_cons, mem_cons] at hold
    rcases he' with hstart | (hfinish | rfl) | hmem
    · exact hold (.inl hstart)
    · exact hold (.inr (.inl hfinish))
    · exact hold (.inr (.inr (.inl rfl)))
    · exact hold (.inr (.inr (.inr hmem)))
  · intro e' he'
    simp only [mem_append, mem_singleton, Entry.finish.injEq] at he'
    rcases he' with he' | rfl
    · exact fun hmem => h.finished e' he' (mem_cons_of_mem _ hmem)
    · exact hnotMem
  · exact always_concat.mpr ⟨h.called_iff, by simp⟩
  · rw [forall_split_concat]
    refine ⟨by simp, fun pre x post heq e' hx => ?_⟩
    have hturns := h.turns_eq pre x post heq e' hx
    rw [turnsOf_append, ← hturns]
    by_cases he : e = e'
    · subst he
      simp [turnsOf, restOf, restOf_of_notMem hnotMem]
    · simp [turnsOf, restOf, he]

/-! ### Runs -/

/-- The invariant. -/
structure Inv (s : State) : Prop where
  slots : SlotsOk s
  calls : CallsOk s

theorem inv_init : Inv init where
  slots := ⟨rfl, by simp [init], always_nil, by simp [init]⟩
  calls := ⟨by simp [init], by simp [init], by simp [init], always_nil, by simp [init]⟩

/-- **The invariant is kept by every step.** -/
theorem Inv.step (h : Inv s) {ev : Event} (hstep : Emission.step s ev = some s') : Inv s' := by
  obtain ⟨hslots, hcalls⟩ := h
  cases ev with
  | connect =>
    simp only [Emission.step, ite_none_right_eq_some, some.injEq] at hstep
    obtain ⟨-, rfl⟩ := hstep
    exact ⟨hslots.connect, hcalls.of_entry rfl rfl rfl ⟨_, .inl rfl⟩⟩
  | disconnect c =>
    simp only [Emission.step, ite_none_right_eq_some, some.injEq] at hstep
    obtain ⟨⟨-, hc⟩, rfl⟩ := hstep
    refine ⟨hslots.disconnect hc, hcalls.of_entry ?_ ?_ rfl ⟨c, .inr rfl⟩⟩
    all_goals
      rw [State.disconnect]
      split_ifs <;> rfl
  | emit =>
    simp only [Emission.step, ite_none_right_eq_some, some.injEq] at hstep
    obtain ⟨-, rfl⟩ := hstep
    exact ⟨hslots.of_entry rfl rfl rfl rfl (by simp), hcalls.emit hslots⟩
  | ret =>
    simp only [Emission.step] at hstep
    split at hstep
    next e rest frames hframes =>
      obtain rfl := some.inj hstep
      exact ⟨⟨hslots.slots_eq, hslots.connected_iff, hslots.numbered, hslots.lt_next⟩,
        hcalls.ret hframes false⟩
    next => cases hstep
  | loop =>
    simp only [Emission.step] at hstep
    split at hstep
    next e c rest frames hframes =>
      obtain rfl := some.inj hstep
      exact ⟨hslots.of_entry rfl rfl rfl rfl (by simp), hcalls.turn hslots hframes⟩
    next e frames hframes =>
      rw [hslots.clear_eq] at hstep
      obtain rfl := some.inj hstep
      exact ⟨hslots.of_entry rfl rfl rfl rfl (by simp), hcalls.finish hframes⟩
    next => cases hstep

theorem inv_of_exec {es : List Event} (h : exec step init es = some s) : Inv s :=
  exec_invariant Inv (fun _ _ _ hs hstep => hs.step hstep) inv_init h

/-! ### The slots that a call calls -/

/-- **A call of the signal.** In every run, after the slots in `connectedAfter pre` are connected,
which are those connected and not disconnected before, in the order of their connection, let the
call `e` begin. The turns of the slots in this call come in that order, all of them if the call has
ended; a slot is called when its turn comes exactly if it has not been disconnected since; and a
slot that is connected since has no turn. -/
theorem calls_connected {es : List Event} {s : State} (h : exec step init es = some s) {e : ℕ}
    {pre post : List Entry} (hlog : s.log = pre ++ Entry.start e :: post) :
    (∀ c, c ∈ connectedAfter pre ↔ .connect c ∈ pre ∧ .disconnect c ∉ pre) ∧
      (connectedAfter pre).Pairwise (· < ·) ∧
      turnsOf e post <+: connectedAfter pre ∧
      (.finish e ∈ s.log → turnsOf e post = connectedAfter pre) ∧
      (∀ p q c called, post = p ++ Entry.turn e c called :: q →
        (called = true ↔ .disconnect c ∉ p)) ∧
      ∀ c, .connect c ∈ post → c ∉ turnsOf e post := by
  obtain ⟨hslots, hcalls⟩ := inv_of_exec h
  have hnumbered : Numbered (pre ++ .start e :: post) := hlog ▸ hslots.numbered
  obtain ⟨hsorted, hmem⟩ := connectedAfter_spec hnumbered.of_append
  have hturns := hcalls.turns_eq pre (.start e) post hlog e rfl
  have hturned : turnsOf e post <+: connectedAfter pre := ⟨_, hturns⟩
  refine ⟨hmem, hsorted, hturned, fun hfinish => ?_, fun p q c called hpost => ?_, fun c hc => ?_⟩
  · rw [← hturns, restOf_of_notMem (hcalls.finished e hfinish), append_nil]
  · -- the slot was connected when the call began
    have hc : c ∈ connectedAfter pre := by
      refine hturned.subset ?_
      rw [hpost, turnsOf_append]
      simp [turnsOf]
    have hsplit : s.log = (pre ++ .start e :: p) ++ .turn e c called :: q := by
      rw [hlog, hpost, append_assoc, cons_append]
    have hnumbered' : Numbered (pre ++ .start e :: p) := by
      have hall := hslots.numbered
      rw [hsplit] at hall
      exact hall.of_append
    rw [hcalls.called_iff _ _ q hsplit e c called rfl, (connectedAfter_spec hnumbered').2]
    simp only [mem_append, mem_cons, reduceCtorEq, false_or, not_or]
    exact ⟨fun hcon => hcon.2.2, fun hd => ⟨.inl ((hmem c).mp hc).1, ((hmem c).mp hc).2, hd⟩⟩
  · -- its number is larger than those of the slots before
    intro hturn
    obtain ⟨p, q, rfl⟩ := append_of_mem hc
    have hlt := hslots.numbered (pre ++ .start e :: p) (.connect c) q
      (by rw [hlog, append_assoc, cons_append]) c rfl c
    have hpre := ((hmem c).mp (hturned.subset hturn)).1
    exact lt_irrefl c (hlt (.inl (mem_append_left _ hpre)))

/-- Two slots are connected and the signal is called. The callback of the first one connects a
third, disconnects the second, and calls the signal again. -/
def nestedCall : List Event :=
  [.connect, .connect, .emit, .loop, .connect, .disconnect 1, .emit, .loop, .disconnect 0, .ret,
    .loop, .ret, .loop, .ret, .loop, .loop]

/-- The history of this run after the call has begun. -/
def nestedLog : List Entry :=
  [.turn 0 0 true, .connect 2, .disconnect 1, .start 1, .turn 1 0 true, .disconnect 0,
    .turn 1 2 true, .finish 1, .turn 0 1 false, .finish 0]

theorem calls_connected_nested : ∃ s, exec step init nestedCall = some s ∧
    s.log = Entry.connect 0 :: Entry.connect 1 :: Entry.start 0 :: nestedLog ∧
    turnsOf 0 nestedLog = connectedAfter [.connect 0, .connect 1] := by
  refine ⟨_, rfl, rfl, ?_⟩
  have hlog : Entry.connect 0 :: Entry.connect 1 :: Entry.start 0 :: nestedLog =
    [.connect 0, .connect 1] ++ Entry.start 0 :: nestedLog := rfl
  exact (calls_connected (rfl : exec step init nestedCall = some _) hlog).2.2.2.1 (by decide)

end Cyber.Emission
