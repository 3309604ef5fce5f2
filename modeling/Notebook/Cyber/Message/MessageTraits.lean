import Notebook.Cyber.Message.MessageHeader
import Notebook.Interleaving.Threads

/-!
# Messages that describe themselves

`SerializeToHC` (`message/message_traits.h`) writes a message behind a header with the name of its
type and its size, and `ParseFromHC` reads it back. Both are templates over the type of the message,
which has its own `SerializeToArray` and `ParseFromArray`. `RawMessage` (`message/raw_message.h`) is
a message of arbitrary bytes, but its `ParseFromArray` refuses an empty array.

`ParseFromHC` gets bytes that anyone may have sent. It checks the size in the header against the
number of bytes, and converts the pointer to the name of the type into a string, which scans the
bytes up to a zero without a bound.
-/

open ByteMemory Container Interleaving List

namespace Cyber

open MessageHeader

/-- A type of messages: `ByteSize`, `MessageType`, `SetTypeName` (which does nothing for most
types), `SerializeToArray` with its result and the bytes that it writes, and `ParseFromArray` with
its result and the message afterwards. -/
structure MessageType (M : Type*) where
  byteSize : M → ℤ
  typeName : M → List UInt8
  setTypeName : List UInt8 → M → M
  serializeToArray : M → ℤ → Bool × List UInt8
  parseFromArray : List UInt8 → M → Bool × M

/-- What bytes are read for. -/
inductive Purpose
  | contentSize
  | msgType
  | payload
deriving DecidableEq, Repr

/-- Bytes of the input that are read or handed to `ParseFromArray`. -/
structure Access where
  purpose : Purpose
  offset : ℕ
  length : ℕ
deriving DecidableEq, Repr

namespace MessageType

variable {M : Type*} (T : MessageType M)

/-- `FullByteSize` -/
def fullByteSize (m : M) : ℤ :=
  if T.byteSize m < 0 then T.byteSize m else int32 (T.byteSize m + headerSize)

/-- The header that `SerializeToHC` writes. -/
def headerOf (m : M) : MessageHeader :=
  (new.setMsgType (T.typeName m)).setContentSize (T.byteSize m).toNat

/-- `SerializeToHC`: its result and the bytes that it writes. The size is converted to a `size_t`
before it is compared. -/
def serializeToHC (m : M) (size : ℤ) : Bool × List UInt8 :=
  if T.byteSize m < 0 then (false, [])
  else if headerSize > size % 2 ^ 64 then (false, [])
  else
    let r := T.serializeToArray m (int32 (size - headerSize))
    (r.1, (T.headerOf m).bytes ++ r.2)

/-- `ParseFromHC`: the bytes that it reads, its result and the message afterwards. There is no
result if the scan for the end of the name leaves the data. -/
def parseFromHC (data : List UInt8) (size : ℤ) (m : M) : List Access × Option (Bool × M) :=
  if size < headerSize then ([], some (false, m))
  else
    let sizeField : Access := ⟨.contentSize, contentSizeOffset, 4⟩
    if size - headerSize < contentSizeAt data then ([sizeField], some (false, m))
    else
      let name : Access := ⟨.msgType, msgTypeOffset, cStringScan (data.drop msgTypeOffset)⟩
      match msgTypeAt data with
      | none => ([sizeField, name], none)
      | some typeName =>
        ([sizeField, name, sizeField, ⟨.payload, headerSize, contentSizeAt data⟩],
          some (T.parseFromArray ((data.drop headerSize).take (contentSizeAt data))
            (T.setTypeName typeName m)))

variable {T} {m m₀ : M} {payload : List UInt8}

/-! ### The frame of a message -/

theorem serializeToHC_eq (hsize : 0 ≤ T.byteSize m) (hlt : T.byteSize m + headerSize < 2 ^ 31)
    (hpayload : T.serializeToArray m (T.byteSize m) = (true, payload)) :
    T.serializeToHC m (T.fullByteSize m) = (true, (T.headerOf m).bytes ++ payload) := by
  have hfull : T.fullByteSize m = T.byteSize m + headerSize := by
    rw [fullByteSize, if_neg (not_lt.mpr hsize)]
    exact int32_eq_self (by unfold headerSize; omega) hlt
  have hcast : ¬(headerSize : ℤ) > (T.byteSize m + headerSize) % 2 ^ 64 := by
    unfold headerSize at *
    omega
  have hleft : int32 (T.byteSize m + headerSize - headerSize) = T.byteSize m := by
    rw [add_sub_cancel_right]
    exact int32_eq_self (by omega) (by unfold headerSize at hlt; omega)
  rw [serializeToHC, if_neg (not_lt.mpr hsize), hfull, if_neg hcast]
  dsimp only
  rw [hleft, hpayload]

theorem parseFromHC_frame (hlen : (payload.length : ℤ) = T.byteSize m)
    (hlt : T.byteSize m + headerSize < 2 ^ 31) :
    (T.parseFromHC ((T.headerOf m).bytes ++ payload)
      ((T.headerOf m).bytes ++ payload).length m₀).2 =
      some (T.parseFromArray payload (T.setTypeName (nameOf (T.typeName m)) m₀)) := by
  have hlength : (((T.headerOf m).bytes ++ payload).length : ℤ) =
      headerSize + payload.length := by
    rw [length_append, length_bytes, Nat.cast_add]
  have hcontent : contentSizeAt ((T.headerOf m).bytes ++ payload) = payload.length := by
    have hnat : (T.byteSize m).toNat = payload.length := by omega
    rw [headerOf, contentSizeAt_bytes, hnat]
    unfold headerSize at hlt
    exact Nat.mod_eq_of_lt (by omega)
  have hname : msgTypeAt ((T.headerOf m).bytes ++ payload) = some (nameOf (T.typeName m)) :=
    msgTypeAt_bytes payload (T.typeName m) _
  rw [parseFromHC, hlength, if_neg (by omega)]
  dsimp only
  rw [hcontent, if_neg (by omega), hname]
  dsimp only
  rw [drop_left' (length_bytes _), take_length]

/-- The array serializer and the array parser of a type are inverse to each other: the serializer
fills a buffer of the size of the message, and the parser makes the same message of these bytes,
whatever the object was before. -/
def Inverse (T : MessageType M) (Same : M → M → Prop) : Prop :=
  ∀ m, 0 ≤ T.byteSize m → ∃ payload, (payload.length : ℤ) = T.byteSize m ∧
    T.serializeToArray m (T.byteSize m) = (true, payload) ∧
    ∀ m₀, ∃ m', T.parseFromArray payload m₀ = (true, m') ∧ Same m' m

end MessageType

/-! ### Raw messages -/

/-- `RawMessage` -/
structure RawMessage where
  message : List UInt8
  timestamp : ℕ := 0
deriving DecidableEq, Repr

/-- `RawMessage::TypeName` -/
def rawMessageName : List UInt8 :=
  "apollo.cyber.message.RawMessage".toList.map fun c => UInt8.ofNat c.toNat

/-- The functions of `RawMessage`. It has no `SetTypeName`. -/
def rawMessageType : MessageType RawMessage where
  byteSize := fun m => int32 m.message.length
  typeName := fun _ => rawMessageName
  setTypeName := fun _ m => m
  serializeToArray := fun m size =>
    if size < int32 m.message.length then (false, []) else (true, m.message)
  parseFromArray := fun data m =>
    if data.length ≤ 0 then (false, m) else (true, { m with message := data })

open MessageType

theorem parseFromArray_raw (data : List UInt8) (m : RawMessage) :
    (∃ m', rawMessageType.parseFromArray data m = (true, m') ∧ m'.message = data) ↔ data ≠ [] := by
  by_cases hdata : data = []
  · refine iff_of_false ?_ (not_not.mpr hdata)
    rintro ⟨m', h, -⟩
    rw [hdata] at h
    cases h
  · refine iff_of_true ⟨{ m with message := data }, if_neg ?_, rfl⟩ hdata
    rw [Nat.le_zero, length_eq_zero_iff]
    exact hdata

theorem byteSize_raw {raw : RawMessage} (h : raw.message.length + headerSize < 2 ^ 31) :
    rawMessageType.byteSize raw = raw.message.length := by
  rw [headerSize] at h
  change int32 raw.message.length = raw.message.length
  rw [int32_eq_self (by omega) (by omega)]

/-- A frame is read back as its payload is, and carries the names that its header does. -/
theorem MessageType.frame_spec {M : Type*} {T : MessageType M} {m : M} {payload : List UInt8}
    (hsize : 0 ≤ T.byteSize m) (hlt : T.byteSize m + headerSize < 2 ^ 31)
    (hlen : (payload.length : ℤ) = T.byteSize m)
    (hpayload : T.serializeToArray m (T.byteSize m) = (true, payload)) :
    ∃ frame, (frame.length : ℤ) = T.fullByteSize m ∧
      T.serializeToHC m (T.fullByteSize m) = (true, frame) ∧
      (∀ m₀, (T.parseFromHC frame frame.length m₀).2 =
        some (T.parseFromArray payload (T.setTypeName (nameOf (T.typeName m)) m₀))) ∧
      msgTypeAt frame = some (nameOf (T.typeName m)) := by
  refine ⟨(T.headerOf m).bytes ++ payload, ?_, serializeToHC_eq hsize hlt hpayload,
    fun m₀ => parseFromHC_frame hlen hlt, msgTypeAt_bytes payload (T.typeName m) _⟩
  rw [fullByteSize, if_neg (not_lt.mpr hsize), int32_eq_self (by unfold headerSize; omega) hlt,
    length_append, length_bytes, Nat.cast_add, hlen, add_comm]

/-- **The round trip of a frame.** A raw message that fits is always written, and it is read back
exactly if it is not empty. For every type whose array functions are inverse to each other, every
message that fits is read back, and the header carries the name of the type exactly if the name has
at most 128 bytes and no zero. -/
theorem framing_round_trip (raw raw₀ : RawMessage)
    (hraw : raw.message.length + headerSize < 2 ^ 31) {M : Type*} (T : MessageType M)
    {Same : M → M → Prop} (hinverse : T.Inverse Same) (m m₀ : M) (hsize : 0 ≤ T.byteSize m)
    (hlt : T.byteSize m + headerSize < 2 ^ 31) :
    (∃ frame, (frame.length : ℤ) = rawMessageType.fullByteSize raw ∧
      rawMessageType.serializeToHC raw (rawMessageType.fullByteSize raw) = (true, frame) ∧
      ((∃ raw', (rawMessageType.parseFromHC frame frame.length raw₀).2 = some (true, raw') ∧
        raw'.message = raw.message) ↔ raw.message ≠ [])) ∧
    ∃ frame, (frame.length : ℤ) = T.fullByteSize m ∧
      T.serializeToHC m (T.fullByteSize m) = (true, frame) ∧
      (∃ m', (T.parseFromHC frame frame.length m₀).2 = some (true, m') ∧ Same m' m) ∧
      (msgTypeAt frame = some (T.typeName m) ↔
        (T.typeName m).length ≤ 128 ∧ 0 ∉ T.typeName m) := by
  constructor
  · have hbyteSize := byteSize_raw hraw
    obtain ⟨frame, hlen, hwrite, hread, -⟩ := frame_spec (by omega) (by omega) hbyteSize.symm
      (by simp [rawMessageType])
    refine ⟨frame, hlen, hwrite, ?_⟩
    rw [hread raw₀]
    simp only [Option.some.injEq]
    exact parseFromArray_raw raw.message raw₀
  · obtain ⟨payload, hlen, hpayload, hparse⟩ := hinverse m hsize
    obtain ⟨frame, hframe, hwrite, hread, hname⟩ := frame_spec hsize hlt hlen hpayload
    obtain ⟨m', hm', hsame⟩ := hparse (T.setTypeName (nameOf (T.typeName m)) m₀)
    refine ⟨frame, hframe, hwrite, ⟨m', ?_, hsame⟩, ?_⟩
    · rw [hread m₀, hm']
    · rw [hname, Option.some.injEq, nameOf_eq_iff]

/-- A message of one byte. -/
def byteMessageType : MessageType UInt8 where
  byteSize := fun _ => 1
  typeName := fun _ => [66]
  setTypeName := fun _ m => m
  serializeToArray := fun m size => if size < 1 then (false, []) else (true, [m])
  parseFromArray := fun data m => if data.length = 1 then (true, data.headD m) else (false, m)

theorem framing_round_trip_byte :
    (∃ frame, rawMessageType.serializeToHC ⟨[1, 2], 0⟩ 194 = (true, frame) ∧
      ∃ m', (rawMessageType.parseFromHC frame frame.length ⟨[], 7⟩).2 = some (true, m') ∧
        m'.message = [1, 2]) ∧
    ∃ frame, byteMessageType.serializeToHC 5 193 = (true, frame) ∧
      msgTypeAt frame = some [66] := by
  have hinverse : byteMessageType.Inverse (· = ·) := by
    intro m _
    exact ⟨[m], rfl, rfl, fun m₀ => ⟨m, rfl, rfl⟩⟩
  obtain ⟨⟨frame, -, hwrite, hread⟩, frame', -, hwrite', -, hname⟩ :=
    framing_round_trip ⟨[1, 2], 0⟩ ⟨[], 7⟩ (by decide) byteMessageType hinverse 5 0 (by decide)
      (by decide)
  exact ⟨⟨frame, hwrite, hread.mpr (by decide)⟩, frame', hwrite', hname.mpr (by decide)⟩

/-- The frame of an empty raw message is written but not read back. -/
theorem framing_empty_raw : rawMessageType.fullByteSize ⟨[], 0⟩ = 192 ∧
    (rawMessageType.serializeToHC ⟨[], 0⟩ 192).1 = true ∧
    (rawMessageType.serializeToHC ⟨[], 0⟩ 192).2.length = 192 ∧
    (rawMessageType.parseFromHC (rawMessageType.serializeToHC ⟨[], 0⟩ 192).2 192 ⟨[9], 0⟩).2 =
      some (false, ⟨[9], 0⟩) := by
  decide +kernel

/-! ### Reads outside the input -/

theorem MessageType.reads_eq {M : Type*} (T : MessageType M) {data : List UInt8} {size : ℤ} (m : M)
    (hsize : ¬size < headerSize) (hcontent : ¬size - headerSize < contentSizeAt data) :
    ∃ rest, (T.parseFromHC data size m).1 = ⟨.contentSize, contentSizeOffset, 4⟩ ::
        ⟨.msgType, msgTypeOffset, cStringScan (data.drop msgTypeOffset)⟩ :: rest ∧
      ∀ a ∈ rest, a = ⟨.contentSize, contentSizeOffset, 4⟩ ∨
        a = ⟨.payload, headerSize, contentSizeAt data⟩ := by
  rw [parseFromHC, if_neg hsize]
  dsimp only
  rw [if_neg hcontent]
  cases msgTypeAt data with
  | none => exact ⟨[], rfl, forall_mem_nil _⟩
  | some typeName => exact ⟨_, rfl, by simp⟩

/-- **The reads of `ParseFromHC`.** For every byte string whose length is passed as the size, the
bytes that are read or handed on lie within the string, and those of the name within the field of
the name, exactly if the string is refused for its size or there is a zero in this field. -/
theorem MessageType.reads_inside_iff {M : Type*} (T : MessageType M) (data : List UInt8) (m : M) :
    (∀ a ∈ (T.parseFromHC data (int32 data.length) m).1, a.offset + a.length ≤ data.length ∧
      (a.purpose = .msgType → msgTypeOffset ≤ a.offset ∧
        a.offset + a.length ≤ msgTypeOffset + msgTypeSize)) ↔
    int32 data.length < headerSize ∨ int32 data.length - headerSize < contentSizeAt data ∨
      0 ∈ (data.drop msgTypeOffset).take msgTypeSize := by
  have hle : int32 data.length ≤ data.length := int32_le_self (Int.natCast_nonneg _)
  generalize int32 data.length = size at hle ⊢
  by_cases hsize : size < headerSize
  · rw [parseFromHC, if_pos hsize]
    exact iff_of_true (forall_mem_nil _) (.inl hsize)
  obtain ⟨hsizeField, hnameField⟩ : contentSizeOffset + 4 ≤ data.length ∧
      msgTypeOffset + msgTypeSize ≤ data.length := by
    unfold headerSize at hsize
    unfold contentSizeOffset msgTypeOffset msgTypeSize
    omega
  by_cases hcontent : size - headerSize < contentSizeAt data
  · refine iff_of_true ?_ (.inr (.inl hcontent))
    simp only [parseFromHC, if_neg hsize, if_pos hcontent]
    exact forall_mem_singleton.mpr ⟨hsizeField, by simp⟩
  obtain ⟨rest, hreads, hrest⟩ := T.reads_eq m hsize hcontent
  -- the scan stays in the field of the name exactly if there is a zero in it
  have hscan : cStringScan (data.drop msgTypeOffset) ≤ msgTypeSize ↔
      0 ∈ (data.drop msgTypeOffset).take msgTypeSize :=
    cStringScan_le_iff (by rw [length_drop]; omega)
  have hpayload : headerSize + contentSizeAt data ≤ data.length := by omega
  rw [hreads, or_iff_right hsize, or_iff_right hcontent, ← hscan, forall_mem_cons,
    forall_mem_cons]
  constructor
  · rintro ⟨-, hname, -⟩
    exact Nat.le_of_add_le_add_left (hname.2 rfl).2
  · intro hname
    have hend := Nat.add_le_add_left hname msgTypeOffset
    refine ⟨⟨hsizeField, by simp⟩, ⟨hend.trans hnameField, fun _ => ⟨le_rfl, hend⟩⟩, ?_⟩
    intro a ha
    rcases hrest a ha with rfl | rfl
    · exact ⟨hsizeField, by simp⟩
    · exact ⟨hpayload, by simp⟩

theorem contentSizeAt_replicate {n : ℕ} (hn : headerSize ≤ n) :
    contentSizeAt (List.replicate n 1) = 16843009 := by
  have hmin : min 4 (n - contentSizeOffset) = 4 := by
    unfold contentSizeOffset headerSize at *
    omega
  rw [contentSizeAt, drop_replicate, take_replicate, hmin]
  rfl

theorem cStringScan_replicate (n : ℕ) : cStringScan (List.replicate n 1) = n + 1 := by
  rw [cStringScan, takeWhile_eq_self_iff.mpr fun b hb => ?_, length_replicate]
  rw [eq_of_mem_replicate hb]
  decide

theorem exists_read_outside {n : ℕ} (hn : headerSize + 16843009 ≤ n) (hn' : n < 2 ^ 31) :
    ∃ a ∈ (rawMessageType.parseFromHC (List.replicate n 1) n ⟨[], 0⟩).1,
      n < a.offset + a.length := by
  have hcontent : contentSizeAt (List.replicate n 1) = 16843009 :=
    contentSizeAt_replicate (le_trans (Nat.le_add_right _ _) hn)
  obtain ⟨rest, hreads, -⟩ := rawMessageType.reads_eq ⟨[], 0⟩
    (show ¬(n : ℤ) < headerSize by omega)
    (show ¬(n : ℤ) - headerSize < contentSizeAt (List.replicate n 1) by rw [hcontent]; omega)
  refine ⟨_, by rw [hreads]; exact mem_cons_of_mem _ mem_cons_self, ?_⟩
  dsimp only
  rw [drop_replicate, cStringScan_replicate]
  unfold headerSize at hn
  unfold msgTypeOffset
  omega

/-- A name that fills its field is read with the bytes behind the field, and a string without any
zero is read beyond its end. -/
theorem reads_outside :
    (⟨.msgType, 40, 130⟩ : Access) ∈ (rawMessageType.parseFromHC
      (List.replicate 169 97 ++ List.replicate 23 0) 192 ⟨[], 0⟩).1 ∧
    ∃ a ∈ (rawMessageType.parseFromHC (List.replicate 16843201 1) 16843201 ⟨[], 0⟩).1,
      16843201 < a.offset + a.length := by
  refine ⟨by decide +kernel, ?_⟩
  exact exists_read_outside (by decide) (by decide)

end Cyber
