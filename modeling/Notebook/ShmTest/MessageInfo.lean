import Notebook.Container.ByteMemory

/-!
# The message infos of `SHM_TEST`

A `MessageInfo` (`shm_src/message_info.cpp`, `shm_inc/message_info.h`) has a topic name of
`MAX_TOPIC_LEN` bytes, a sequence number and a sender id. It can be copied, assigned, and written to
a string or a buffer and read back. The four ways treat the three fields differently:

* the copy constructor and the assignment leave out the sender id: the copy gets the default `0`,
  the object that is assigned to keeps its own;
* `SerializeTo(string)` writes the sequence number only, and `DeserializeFrom` accepts nothing but
  `VAILD_MESSAGEINFO_SIZE` bytes;
* `SerializeTo(len, dst)` and `DeserializeFrom` leave out the topic name, for which
  `VAILD_MESSAGEINFO_SIZE` provides.

Besides, `operator==` compares the two arrays `m_topicName` by their addresses. It holds of an
object and itself only. So the model has the objects at their addresses.
-/

open ByteMemory Function Option

namespace ShmTest

/-- `MAX_TOPIC_LEN` -/
def maxTopicLen : ℕ := 255

/-- `ID_SIZE` -/
def idSize : ℕ := 8

/-- `MessageInfo`, with the array `m_topicName`. -/
structure MessageInfo where
  topicName : List UInt8
  seqNum : UInt64
  senderId : UInt64
  length_topicName : topicName.length = maxTopicLen
deriving DecidableEq

namespace MessageInfo

/-- `VAILD_MESSAGEINFO_SIZE` -/
def vaildMessageinfoSize : ℕ := 2 * idSize + maxTopicLen

/-- `MessageInfo()`, which leaves the array as the memory is. -/
def new (topicName : List UInt8) (h : topicName.length = maxTopicLen) : MessageInfo :=
  ⟨topicName, 0, 0, h⟩

/-- `SetSenderId` -/
def setSenderId (info : MessageInfo) (senderId : UInt64) : MessageInfo := { info with senderId }

/-- `SetSeqNum` -/
def setSeqNum (info : MessageInfo) (seqNum : UInt64) : MessageInfo := { info with seqNum }

/-- `SetTopicName`. The bytes after the new name stay what they were. -/
def setTopicName (info : MessageInfo) (topicName : List UInt8) : Bool × MessageInfo :=
  if h : maxTopicLen < topicName.length then (false, info)
  else (true,
    { info with
      topicName := topicName ++ info.topicName.drop topicName.length
      length_topicName := by
        rw [List.length_append, List.length_drop, info.length_topicName]
        omega })

/-- The copy constructor. The sender id has its initialiser. -/
def copy (another : MessageInfo) : MessageInfo := { another with senderId := 0 }

/-- `operator=` for another object. -/
def assign (this another : MessageInfo) : MessageInfo := { another with senderId := this.senderId }

/-- `SerializeTo(dst)` for a string. -/
def serializeToString (info : MessageInfo) : List UInt8 := toBytes 8 info.seqNum.toNat

/-- `SerializeTo(len, dst)`, where `dst` can be null. -/
def serializeTo (info : MessageInfo) (len : ℕ) : Option (ℕ → UInt8) → Option (ℕ → UInt8)
  | none => none
  | some dst =>
    if len < vaildMessageinfoSize then none
    else
      let dst := write dst 0 (toBytes 8 info.senderId.toNat)
      some (write dst 8 (toBytes 8 info.seqNum.toNat))

/-- `DeserializeFrom(src, len)`, where `src` can be null. -/
def deserializeFrom (info : MessageInfo) (len : ℕ) : Option (ℕ → UInt8) → Option MessageInfo
  | none => none
  | some src =>
    if len ≠ vaildMessageinfoSize then none
    else some
      { info with
        senderId := .ofNat (ofBytes (read src 0 8))
        seqNum := .ofNat (ofBytes (read src 8 8)) }

/-- `DeserializeFrom(src)` for a string. -/
def deserializeFromString (info : MessageInfo) (src : List UInt8) : Option MessageInfo :=
  info.deserializeFrom src.length (some fun i => src.getD i 0)

variable (info : MessageInfo)

theorem ofNat_ofBytes_toBytes (x : UInt64) : UInt64.ofNat (ofBytes (toBytes 8 x.toNat)) = x := by
  have hlt : x.toNat < 256 ^ 8 := x.toNat_lt
  rw [ofBytes_toBytes, Nat.mod_eq_of_lt hlt, UInt64.ofNat_toNat]

/-- What `DeserializeFrom` makes of the buffer that `SerializeTo` has filled. -/
theorem deserializeFrom_of_serializeTo {original : MessageInfo} {len : ℕ} {buf dst : ℕ → UInt8}
    (h : original.serializeTo len (some buf) = some dst) :
    info.deserializeFrom vaildMessageinfoSize (some dst) =
      some { original with
        topicName := info.topicName, length_topicName := info.length_topicName } := by
  rw [serializeTo] at h
  split at h
  · cases h
  · obtain rfl := some.inj h
    have hfirst : Stored (write buf 0 (toBytes 8 original.senderId.toNat)) 0
        (toBytes 8 original.senderId.toNat) := stored_write
    generalize write buf 0 (toBytes 8 original.senderId.toNat) = out at hfirst
    -- the sequence number is written behind the sender id
    have hsender : Stored (write out 8 (toBytes 8 original.seqNum.toNat)) 0
        (toBytes 8 original.senderId.toNat) := hfirst.write_of_le (by rw [length_toBytes])
    have hseq : Stored (write out 8 (toBytes 8 original.seqNum.toNat)) 8
        (toBytes 8 original.seqNum.toNat) := stored_write
    rw [Stored, length_toBytes] at hsender hseq
    rw [deserializeFrom, if_neg (by simp), hsender, hseq, ofNat_ofBytes_toBytes,
      ofNat_ofBytes_toBytes]

end MessageInfo

/-! ### Objects -/

/-- `operator==` on the objects at two addresses. `m_topicName` stands for the address of an array,
so two objects with equal names differ. -/
def eqAt (mem : ℕ → MessageInfo) (this another : ℕ) : Bool :=
  this == another && (mem this).seqNum == (mem another).seqNum

theorem eqAt_eq_true_iff {mem : ℕ → MessageInfo} {this another : ℕ} :
    eqAt mem this another = true ↔ this = another := by
  simp only [eqAt, Bool.and_eq_true, beq_iff_eq, and_iff_left_iff_imp]
  rintro rfl
  rfl

/-- The ways from one object to another: the copy constructor, the assignment, a string, and a
buffer with the lengths that `SerializeTo` and `DeserializeFrom` are called with. -/
inductive Transfer
  | copy
  | assign
  | string
  | buffer (buf : ℕ → UInt8) (len n : ℕ)

namespace Transfer

/-- The object at `dst` is made from the one at `src`. There is no result when one of the calls
returns `false`, and none of a copy in the place of its original. -/
def run (mem : ℕ → MessageInfo) (src dst : ℕ) : Transfer → Option (ℕ → MessageInfo)
  | copy => if dst = src then none else some (update mem dst (mem src).copy)
  | assign =>
    if dst = src then some mem else some (update mem dst ((mem dst).assign (mem src)))
  | string =>
    ((mem dst).deserializeFromString (mem src).serializeToString).map (update mem dst)
  | buffer buf len n =>
    ((mem src).serializeTo len (some buf)).bind fun buf =>
      ((mem dst).deserializeFrom n (some buf)).map (update mem dst)

/-- The exact condition for the fields of `original` to arrive, where `target` is what `dst` has
been before. -/
def Keeps (same : Prop) (original target : MessageInfo) : Transfer → Prop
  | copy => ¬same ∧ original.senderId = 0
  | assign => target.senderId = original.senderId
  | string => False
  | buffer _ len n =>
    MessageInfo.vaildMessageinfoSize ≤ len ∧ n = MessageInfo.vaildMessageinfoSize ∧
      target.topicName = original.topicName

variable {mem : ℕ → MessageInfo} {src dst : ℕ}

theorem exists_update_iff {info : MessageInfo} :
    (∃ mem', some (update mem dst info) = some mem' ∧ mem' dst = mem src) ↔
      info = mem src := by
  simp only [some.injEq, exists_eq_left', update_self]

theorem exists_run_buffer_iff (buf : ℕ → UInt8) (len n : ℕ) :
    (∃ mem', (buffer buf len n).run mem src dst = some mem' ∧ mem' dst = mem src) ↔
      (buffer buf len n).Keeps (dst = src) (mem src) (mem dst) := by
  rw [run, Keeps]
  by_cases hlen : len < MessageInfo.vaildMessageinfoSize
  · simp [MessageInfo.serializeTo, hlen, Nat.not_le_of_lt hlen]
  by_cases hn : n = MessageInfo.vaildMessageinfoSize
  · subst hn
    obtain ⟨out, hout⟩ : ∃ out, (mem src).serializeTo len (some buf) = some out :=
      ⟨_, if_neg hlen⟩
    rw [hout, bind_some, MessageInfo.deserializeFrom_of_serializeTo (mem dst) hout,
      map_some, exists_update_iff]
    have heq : ({ mem src with
        topicName := (mem dst).topicName
        length_topicName := (mem dst).length_topicName } : MessageInfo) = mem src ↔
        (mem dst).topicName = (mem src).topicName := by
      rw [MessageInfo.mk.injEq]
      exact and_iff_left ⟨rfl, rfl⟩
    rw [heq]
    exact ⟨fun h => ⟨Nat.le_of_not_lt hlen, rfl, h⟩, fun h => h.2.2⟩
  · simp [MessageInfo.serializeTo, MessageInfo.deserializeFrom, hn]

/-- **Which transfers keep the fields.** -/
theorem exists_run_iff (t : Transfer) :
    (∃ mem', t.run mem src dst = some mem' ∧ mem' dst = mem src) ↔
      t.Keeps (dst = src) (mem src) (mem dst) := by
  cases t with
  | copy =>
    rw [run, Keeps]
    by_cases hsame : dst = src
    · simp [hsame]
    · rw [if_neg hsame, exists_update_iff, MessageInfo.copy, MessageInfo.mk.injEq]
      simp [hsame, eq_comm]
  | assign =>
    rw [run, Keeps]
    by_cases hsame : dst = src
    · subst hsame
      simp
    · rw [if_neg hsame, exists_update_iff, MessageInfo.assign, MessageInfo.mk.injEq]
      simp
  | string =>
    rw [run, Keeps, MessageInfo.deserializeFromString, MessageInfo.serializeToString,
      length_toBytes]
    exact iff_of_false nofun nofun
  | buffer buf len n => exact exists_run_buffer_iff buf len n

/-- **Transfers.** The copy constructor keeps the three fields exactly of a `MessageInfo` whose
sender id is `0`, the assignment exactly when the two objects have the same sender id before, the
string never, and the buffer, with lengths that are accepted, exactly when the target has the topic
name already. None of them yields an object that compares equal to the original, unless it is the
original itself. -/
theorem intact_iff (mem : ℕ → MessageInfo) (src dst : ℕ) (t : Transfer) :
    ((∃ mem', t.run mem src dst = some mem' ∧ mem' dst = mem src) ↔
      t.Keeps (dst = src) (mem src) (mem dst)) ∧
    ((∃ mem', t.run mem src dst = some mem' ∧ mem' dst = mem src ∧ eqAt mem' dst src) ↔
      dst = src ∧ t.Keeps (dst = src) (mem src) (mem dst)) := by
  refine ⟨exists_run_iff t, ?_⟩
  rw [← exists_run_iff t]
  constructor
  · rintro ⟨mem', hrun, hfields, heq⟩
    exact ⟨eqAt_eq_true_iff.mp heq, mem', hrun, hfields⟩
  · rintro ⟨hsame, mem', hrun, hfields⟩
    exact ⟨mem', hrun, hfields, eqAt_eq_true_iff.mpr hsame⟩

/-- A `MessageInfo` in memory that has been zero. -/
def blank : MessageInfo := .new (List.replicate maxTopicLen 0) List.length_replicate

/-- A sender id, a sequence number and a topic name that has replaced a longer one. -/
def original : MessageInfo :=
  let info := (blank.setTopicName [97, 98, 99]).2
  ((info.setTopicName [97, 98]).2.setSenderId 7).setSeqNum 1

/-- The original at address `0`, and new objects elsewhere. -/
def originalAtZero (address : ℕ) : MessageInfo := if address = 0 then original else blank

/-- Transferred to address `1`, the original loses its sender id, its topic name or everything. -/
theorem transfers_lose_fields :
    (copy.run originalAtZero 0 1).map (fun mem => (mem 1).senderId) = some 0 ∧
      (assign.run originalAtZero 0 1).map (fun mem => (mem 1).senderId) = some 0 ∧
      (string.run originalAtZero 0 1).isNone ∧
      ((buffer (fun _ => 0) 271 271).run originalAtZero 0 1).map
        (fun mem => decide ((mem 1).topicName = original.topicName)) = some false ∧
      ∀ t ∈ [copy, assign, buffer (fun _ => 0) 271 271],
        (t.run originalAtZero 0 1).map (fun mem => eqAt mem 1 0) = some false := by
  decide +kernel

end Transfer

end ShmTest
