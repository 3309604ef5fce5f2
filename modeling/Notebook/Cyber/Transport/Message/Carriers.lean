import Notebook.Cyber.Transport.Message.MessageInfo
import Notebook.Cyber.Transport.Shm.ConditionNotifier

/-!
# How the metadata of a message travels

The `MessageInfo` of a message takes three ways. In shared memory and in files it is written by one
of two overloads of `SerializeTo` (`transport/message/message_info.cc`). Over RTPS it is packed into
the related sample identity of the sample (`transport/transmitter/rtps_transmitter.h`): the two
identities fill the 16 bytes of the writer guid, and the sequence number is cut into a signed high
word and an unsigned low word, which the subscriber (`transport/rtps/sub_listener.cc`) puts together
again. The block of a message is announced by a `ReadableInfo` (`transport/shm/readable_info.cc`).

The words of a sequence number are converted as two's complement.
-/

open ByteMemory Interleaving List

namespace Cyber

/-- The bytes of a string in memory. -/
def bytesAt (s : List UInt8) (i : ℕ) : UInt8 := s.getD i 0

theorem stored_bytesAt (s : List UInt8) : Stored (bytesAt s) 0 s := by
  refine ext_getElem (by simp) fun i h _ => ?_
  have hi : i < s.length := by simpa using h
  simp [ByteMemory.read, bytesAt, hi]

/-! ### Strings -/

namespace MessageInfo

/-- `SerializeTo(std::string*)`: the string afterwards. -/
def serializeToString (info : MessageInfo) : List UInt8 :=
  info.senderId.data ++ toBytes 8 info.seqNum.toNat ++ info.spareId.data

/-- `DeserializeFrom` of a string: the result and the object afterwards. -/
def deserialize (info : MessageInfo) (src : List UInt8) : Bool × MessageInfo :=
  if src.length ≠ kSize then (false, info)
  else
    (true, { info with
      senderId := .setData (bytesAt src) 0
      seqNum := .ofNat (ofBytes (read (bytesAt src) idSize 8))
      spareId := .setData (bytesAt src) (idSize + 8) })

variable (info obj : MessageInfo)

theorem length_serializeToString : info.serializeToString.length = kSize := by
  rw [serializeToString, length_append, length_append, info.senderId.length_data,
    info.spareId.length_data, length_toBytes]
  rfl

theorem deserialize_fst (src : List UInt8) :
    (obj.deserialize src).1 = true ↔ src.length = kSize := by
  rw [deserialize]
  split_ifs with hlen
  · simpa using hlen
  · simpa using hlen

/-- What `SerializeTo` has written is read back into any object; its channel id stays. -/
theorem deserialize_serializeToString : obj.deserialize info.serializeToString =
    (true, { info with channelId := obj.channelId }) := by
  have hread := deserializeFrom_of_stored (rfl : info.serializeTo kSize = _)
    (stored_bytesAt info.serializeToString)
  rw [deserializeFrom, if_neg (not_not.mpr rfl), Option.some.injEq, zero_add] at hread
  have hfields := MessageInfo.mk.inj hread
  rw [deserialize, if_neg (not_not.mpr info.length_serializeToString), hfields.1, hfields.2.2.1,
    hfields.2.2.2]

end MessageInfo

/-! ### Samples of RTPS -/

/-- `SequenceNumber_t`: an `int32_t` and a `uint32_t`. -/
structure SequenceNumber where
  high : ℤ
  low : ℕ
deriving DecidableEq, Repr

namespace SequenceNumber

/-- The words that `Transmit` makes of a sequence number. Both are converted to `int32_t`, and the
low word then to `uint32_t`. -/
def ofUInt64 (seqNum : UInt64) : SequenceNumber where
  high := int32 ((seqNum.toNat &&& 0xFFFFFFFF00000000) >>> 32 : ℕ)
  low := (int32 (seqNum.toNat &&& 0xFFFFFFFF : ℕ) % 2 ^ 32).toNat

/-- The sequence number that the subscriber makes of the words: the high word is extended to an
`int64_t` and shifted. -/
def toUInt64 (n : SequenceNumber) : UInt64 :=
  .ofNat ((n.high * 2 ^ 32 % 2 ^ 64).toNat ||| n.low)

theorem high_mask {n : ℕ} (hn : n < 2 ^ 64) : (n &&& 0xFFFFFFFF00000000) >>> 32 = n / 2 ^ 32 := by
  have hmask : 0xFFFFFFFF00000000 >>> 32 = 2 ^ 32 - 1 := by decide
  rw [Nat.shiftRight_and_distrib, hmask, Nat.and_two_pow_sub_one_eq_mod, Nat.shiftRight_eq_div_pow]
  omega

theorem low_mask (n : ℕ) : n &&& 0xFFFFFFFF = n % 2 ^ 32 := Nat.and_two_pow_sub_one_eq_mod n 32

theorem int32_shift {n : ℕ} (hn : n < 2 ^ 32) :
    (int32 n * 2 ^ 32 % 2 ^ 64).toNat = 2 ^ 32 * n ∧ (int32 n % 2 ^ 32).toNat = n := by
  unfold int32
  omega

/-- **The words of a sequence number** give it back, also if their sign bits are set. -/
theorem toUInt64_ofUInt64 (seqNum : UInt64) : (ofUInt64 seqNum).toUInt64 = seqNum := by
  have hlt := seqNum.toNat_lt
  have hlow : seqNum.toNat % 2 ^ 32 < 2 ^ 32 := Nat.mod_lt _ (Nat.two_pow_pos 32)
  rw [toUInt64, ofUInt64, high_mask hlt, low_mask, (int32_shift (by omega)).1,
    (int32_shift hlow).2, ← Nat.two_pow_add_eq_or_of_lt hlow, Nat.div_add_mod, UInt64.ofNat_toNat]

end SequenceNumber

/-- `SampleIdentity`: a guid of 16 bytes and a sequence number. -/
structure SampleIdentity where
  writerGuid : List UInt8
  sequenceNumber : SequenceNumber
deriving DecidableEq, Repr

namespace MessageInfo

/-- The related sample identity with which `Transmit` writes a message. -/
def toSample (info : MessageInfo) : SampleIdentity where
  writerGuid := info.senderId.data ++ info.spareId.data
  sequenceNumber := .ofUInt64 info.seqNum

/-- `onNewDataMessage`: the object with the fields of a sample. -/
def onNewDataMessage (info : MessageInfo) (sample : SampleIdentity) : MessageInfo :=
  { info with
    senderId := .setData (bytesAt sample.writerGuid) 0
    spareId := .setData (bytesAt sample.writerGuid) idSize
    seqNum := sample.sequenceNumber.toUInt64 }

theorem onNewDataMessage_toSample (info obj : MessageInfo) :
    obj.onNewDataMessage info.toSample = { info with channelId := obj.channelId } := by
  obtain ⟨hsender, hspare⟩ := stored_append.mp
    (stored_bytesAt (info.senderId.data ++ info.spareId.data))
  rw [zero_add, info.senderId.length_data] at hspare
  rw [onNewDataMessage, toSample, setData_of_stored hsender, setData_of_stored hspare,
    SequenceNumber.toUInt64_ofUInt64]

end MessageInfo

/-! ### Announcements of blocks -/

namespace ReadableInfo

/-- `ReadableInfo::kSize` -/
def kSize : ℕ := 8 * 2 + 4

/-- `SerializeTo`: the string afterwards. -/
def serializeTo (info : ReadableInfo) : List UInt8 :=
  toBytes 8 info.hostId ++ toBytes 4 info.blockIndex ++ toBytes 8 info.channelId

/-- `DeserializeFrom` of a string: the result and the object afterwards. -/
def deserialize (info : ReadableInfo) (src : List UInt8) : Bool × ReadableInfo :=
  if src.length ≠ kSize then (false, info)
  else
    (true, { info with
      hostId := ofBytes (ByteMemory.read (bytesAt src) 0 8)
      blockIndex := ofBytes (ByteMemory.read (bytesAt src) 8 4)
      channelId := ofBytes (ByteMemory.read (bytesAt src) 12 8) })

theorem deserialize_serializeTo {info : ReadableInfo} (hhost : info.hostId < 2 ^ 64)
    (hblock : info.blockIndex < 2 ^ 32) (hchannel : info.channelId < 2 ^ 64) (obj : ReadableInfo) :
    obj.deserialize info.serializeTo = (true, info) := by
  have hlen : info.serializeTo.length = kSize := by simp [serializeTo, kSize]
  have hstored := stored_bytesAt info.serializeTo
  nth_rewrite 2 [serializeTo] at hstored
  rw [stored_append, stored_append] at hstored
  obtain ⟨⟨hh, hb⟩, hc⟩ := hstored
  simp only [Stored, length_append, length_toBytes, zero_add] at hh hb hc
  have hhost' : info.hostId < 256 ^ 8 := hhost
  have hblock' : info.blockIndex < 256 ^ 4 := hblock
  have hchannel' : info.channelId < 256 ^ 8 := hchannel
  rw [deserialize, if_neg (not_not.mpr hlen), hh, hb, hc, ofBytes_toBytes, ofBytes_toBytes,
    ofBytes_toBytes, Nat.mod_eq_of_lt hhost', Nat.mod_eq_of_lt hblock', Nat.mod_eq_of_lt hchannel']

end ReadableInfo

/-- **The metadata of a message on every carrier.** The overloads of `SerializeTo` give the same
`kSize` bytes; `DeserializeFrom` accepts exactly the strings of `kSize` bytes, leaves the object as
it was otherwise, and gives the sender id, the sequence number and the spare id back. So does a
sample of RTPS, and a `ReadableInfo` is given back by its string. -/
theorem metadata_round_trip (info obj : MessageInfo) (hostId channelId : UInt64)
    (blockIndex : UInt32) (readable : ReadableInfo) :
    info.serializeToString.length = MessageInfo.kSize ∧
      (∀ len, info.serializeTo len =
        if len < MessageInfo.kSize then none else some info.serializeToString) ∧
      (∀ src, (obj.deserialize src).1 = true ↔ src.length = MessageInfo.kSize) ∧
      (∀ src, (obj.deserialize src).1 = false → (obj.deserialize src).2 = obj) ∧
      obj.deserialize info.serializeToString =
        (true, { info with channelId := obj.channelId }) ∧
      obj.onNewDataMessage info.toSample = { info with channelId := obj.channelId } ∧
      readable.deserialize
          (ReadableInfo.serializeTo ⟨hostId.toNat, blockIndex.toNat, channelId.toNat⟩) =
        (true, ⟨hostId.toNat, blockIndex.toNat, channelId.toNat⟩) := by
  refine ⟨info.length_serializeToString, fun _ => rfl, obj.deserialize_fst, fun src h => ?_,
    info.deserialize_serializeToString obj, info.onNewDataMessage_toSample obj, ?_⟩
  · rw [MessageInfo.deserialize] at h ⊢
    split_ifs at h ⊢
    rfl
  · exact ReadableInfo.deserialize_serializeTo hostId.toNat_lt blockIndex.toNat_lt
      channelId.toNat_lt readable

end Cyber
