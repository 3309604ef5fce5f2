import Notebook.Container.Decimal
import Mathlib.Data.List.Basic

/-!
# The channels of history messages

A reader that joins late gets the messages that a writer has kept. `HybridTransmitter`
(`transport/transmitter/hybrid_transmitter.h`) sends them through an `RtpsTransmitter` of their own
on a channel that is named by the decimal renderings of the writer's id and the reader's id, one
after the other. `HybridReceiver` (`transport/receiver/hybrid_receiver.h`) listens on the channel
with the name that it makes of the same ids.

A name does not say where the first id ends. The writer `1` with the reader `23` uses the channel of
the writer `12` with the reader `3`.
-/

open Container List

namespace Cyber.History

/-- `QosDurabilityPolicy` -/
inductive Durability
  | systemDefault
  | transientLocal
  | volatile
deriving DecidableEq, Repr

/-- The fields of `RoleAttributes` that are read or written here. -/
structure RoleAttributes where
  id : UInt64
  channelName : String
  channelId : ℕ
  durability : Durability
deriving DecidableEq, Repr

/-- The channel name in `ThreadFunc` of the transmitter with the attributes `attr`. -/
def transmitterChannel (attr oppositeAttr : RoleAttributes) : String :=
  toString attr.id.toNat ++ toString oppositeAttr.id.toNat

/-- The channel name in `ThreadFunc` of the receiver with the attributes `attr`. -/
def receiverChannel (attr oppositeAttr : RoleAttributes) : String :=
  toString oppositeAttr.id.toNat ++ toString attr.id.toNat

variable (registerChannel : String → ℕ)

/-- `TransmitHistoryMsg` and `ThreadFunc`: the attributes of the transmitter for the kept messages
`unsentMsgs`, if any are sent. `registerChannel` gives the id of a channel. -/
def transmitHistoryMsg {M : Type*} (attr oppositeAttr : RoleAttributes) (unsentMsgs : List M) :
    Option (RoleAttributes × List M) :=
  if attr.durability ≠ .transientLocal then none
  else if unsentMsgs.isEmpty then none
  else
    let name := transmitterChannel attr oppositeAttr
    some ({ attr with channelName := name, channelId := registerChannel name }, unsentMsgs)

/-- `ReceiveHistoryMsg` and `ThreadFunc`: the attributes of the receiver for kept messages, if it
listens to any. -/
def receiveHistoryMsg (attr oppositeAttr : RoleAttributes) : Option RoleAttributes :=
  if oppositeAttr.durability ≠ .transientLocal then none
  else
    let name := receiverChannel attr oppositeAttr
    some { attr with
      channelName := name
      channelId := registerChannel name
      durability := oppositeAttr.durability }

/-- A writer sends the messages that it has kept to a reader. -/
structure Replay (M : Type*) where
  writer : RoleAttributes
  reader : RoleAttributes
  msgs : List M

/-- The history messages that `reader` gets while it listens to `writer`: those that are sent on a
channel with the name of its own. -/
def received {M : Type*} (reader writer : RoleAttributes) (replays : List (Replay M)) : List M :=
  match receiveHistoryMsg registerChannel reader writer with
  | none => []
  | some rx =>
    replays.flatMap fun replay =>
      match transmitHistoryMsg registerChannel replay.writer replay.reader replay.msgs with
      | none => []
      | some (tx, msgs) => if tx.channelName = rx.channelName then msgs else []

/-- The messages that are addressed to `reader` by `writer`. -/
def addressed {M : Type*} (reader writer : RoleAttributes) (replays : List (Replay M)) : List M :=
  replays.flatMap fun replay =>
    if replay.writer.durability = .transientLocal ∧ replay.writer.id = writer.id ∧
      replay.reader.id = reader.id then replay.msgs
    else []

/-! ### Names -/

/-- The decimal rendering of an id. -/
def decimal (id : UInt64) : List Char := Nat.toDigits 10 id.toNat

/-- The id `writer'` continues `writer` by digits with which `reader` begins, before `reader'`. -/
def Shifted (writer reader writer' reader' : UInt64) : Prop :=
  ∃ u ≠ [], decimal writer' = decimal writer ++ u ∧ decimal reader = u ++ decimal reader'

theorem toString_append_eq_iff {a b c d : ℕ} :
    toString a ++ toString b = toString c ++ toString d ↔
      Nat.toDigits 10 a ++ Nat.toDigits 10 b = Nat.toDigits 10 c ++ Nat.toDigits 10 d := by
  rw [← String.toList_inj, String.toList_append, String.toList_append]
  simp only [Nat.toString_eq_repr, Nat.toList_repr]

/-- The ids of two pairs are shifted against each other. -/
def Collides (writer reader writer' reader' : UInt64) : Prop :=
  Shifted writer reader writer' reader' ∨ Shifted writer' reader' writer reader

/-- **The pairs that use the same channel**: the same pair, or pairs of shifted ids. -/
theorem channel_eq_iff (writer reader writer' reader' : RoleAttributes) :
    transmitterChannel writer reader = receiverChannel reader' writer' ↔
      (writer.id = writer'.id ∧ reader.id = reader'.id) ∨
      Collides writer.id reader.id writer'.id reader'.id := by
  rw [transmitterChannel, receiverChannel, toString_append_eq_iff, toDigits_append_inj_iff,
    UInt64.toNat_inj, UInt64.toNat_inj]
  rfl

theorem Shifted.length_lt {writer reader writer' reader' : UInt64}
    (h : Shifted writer reader writer' reader') :
    (decimal writer).length < (decimal writer').length := by
  obtain ⟨u, hu, hwriter, -⟩ := h
  rw [hwriter, length_append]
  exact Nat.lt_add_of_pos_right (length_pos_iff.mpr hu)

theorem not_collides_of_length_eq {writer reader writer' reader' : UInt64}
    (h : (decimal writer).length = (decimal writer').length) :
    ¬Collides writer reader writer' reader' := by
  rintro (hshift | hshift)
  · exact hshift.length_lt.ne h
  · exact hshift.length_lt.ne h.symm

/-! ### Messages -/

variable {M : Type*}

/-- A replay reaches a reader exactly if it is addressed to it, unless their ids collide. -/
theorem received_eq_addressed {reader writer : RoleAttributes}
    {replays : List (Replay M)} (hdurable : writer.durability = .transientLocal)
    (hno : ∀ replay ∈ replays,
      ¬Collides replay.writer.id replay.reader.id writer.id reader.id) :
    received registerChannel reader writer replays = addressed reader writer replays := by
  rw [received, receiveHistoryMsg, if_neg (not_not.mpr hdurable), addressed]
  refine flatMap_congr fun replay hreplay => ?_
  have hname : transmitterChannel replay.writer replay.reader = receiverChannel reader writer ↔
      replay.writer.id = writer.id ∧ replay.reader.id = reader.id := by
    rw [channel_eq_iff, or_iff_left (hno replay hreplay)]
  rw [transmitHistoryMsg]
  by_cases hlocal : replay.writer.durability = .transientLocal
  · rw [if_neg (not_not.mpr hlocal)]
    by_cases hmsgs : replay.msgs = []
    · simp [hmsgs]
    · simp [hmsgs, hlocal, hname]
  · simp [hlocal]

/-- **The history of a late joiner.** Both ends of a pair use the same channel. Another pair uses it
too exactly if its ids collide with those of the pair, which they do not if the ids of the writers
have as many digits as each other. A reader that listens to a writer receives what this writer
addresses to it and nothing else, if no history is sent between ids that collide with theirs. -/
theorem history_private (writer reader writer' reader' : RoleAttributes)
    (replays : List (Replay M)) :
    transmitterChannel writer reader = receiverChannel reader writer ∧
      (transmitterChannel writer reader = receiverChannel reader' writer' ↔
        (writer.id = writer'.id ∧ reader.id = reader'.id) ∨
        Collides writer.id reader.id writer'.id reader'.id) ∧
      ((decimal writer.id).length = (decimal writer'.id).length →
        ¬Collides writer.id reader.id writer'.id reader'.id) ∧
      (writer.durability = .transientLocal →
        (∀ replay ∈ replays,
          ¬Collides replay.writer.id replay.reader.id writer.id reader.id) →
        received registerChannel reader writer replays = addressed reader writer replays) :=
  ⟨rfl, channel_eq_iff writer reader writer' reader', not_collides_of_length_eq,
    fun hdurable hno => received_eq_addressed registerChannel hdurable hno⟩

/-- The attributes of a writer or reader that keeps its messages. -/
def keeper (id : UInt64) : RoleAttributes := ⟨id, "chatter", 0, .transientLocal⟩

theorem history_private_of_two_digits :
    received (fun _ => 7) (keeper 31) (keeper 12)
      [⟨keeper 12, keeper 31, [5, 6]⟩, ⟨keeper 13, keeper 31, [8]⟩] = [5, 6] := by
  refine ((history_private (fun _ => 7) (keeper 12) (keeper 31) (keeper 12) (keeper 31)
    [⟨keeper 12, keeper 31, [5, 6]⟩, ⟨keeper 13, keeper 31, [8]⟩]).2.2.2 rfl ?_).trans (by decide)
  intro replay hreplay
  refine not_collides_of_length_eq ?_
  simp only [mem_cons, not_mem_nil, or_false] at hreplay
  rcases hreplay with rfl | rfl <;> decide

/-- The writer `1` sends its history to the reader `23`. The reader `3`, which listens to the writer
`12`, receives it. -/
theorem history_of_another_pair :
    transmitterChannel (keeper 1) (keeper 23) = receiverChannel (keeper 3) (keeper 12) ∧
      received (fun _ => 7) (keeper 3) (keeper 12) [⟨keeper 1, keeper 23, [5, 6]⟩] = [5, 6] ∧
      addressed (keeper 3) (keeper 12) [⟨keeper 1, keeper 23, [5, 6]⟩] = [] := by
  decide

end Cyber.History
