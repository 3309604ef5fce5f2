import Notebook.Container.ByteMemory
import Notebook.Container.Terminator

/-!
# The header of a message

A message that describes itself begins with a `MessageHeader` (`message/message_header.h`), a record
of byte arrays. `set_msg_type` copies the name of the type of the message into an array of 129
bytes, of which it leaves at least the last one zero, and `set_content_size` writes the size of the
message in network order. The receiver uses the bytes in place: `content_size` reads the last four
bytes, and `msg_type` is a pointer to the first byte of the name.
-/

open ByteMemory Container List

namespace Cyber

/-- `MessageHeader`. Its arrays have fixed lengths. -/
structure MessageHeader where
  magicNum : List UInt8
  seq : List UInt8
  timestampNs : List UInt8
  srcId : List UInt8
  dstId : List UInt8
  msgType : List UInt8
  res : List UInt8
  contentSize : List UInt8
  layout : [magicNum, seq, timestampNs, srcId, dstId, msgType, res, contentSize].map List.length =
    [8, 8, 8, 8, 8, 129, 19, 4]

namespace MessageHeader

/-- `sizeof(MessageHeader)` -/
def headerSize : ℕ := 192

/-- The offset of `msg_type_`. -/
def msgTypeOffset : ℕ := 40

/-- `sizeof(msg_type_)` -/
def msgTypeSize : ℕ := 129

/-- The offset of `content_size_`. -/
def contentSizeOffset : ℕ := 188

/-- The constructor. The magic number is `"BDACBDAC"`. -/
def new : MessageHeader where
  magicNum := [66, 68, 65, 67, 66, 68, 65, 67]
  seq := List.replicate 8 0
  timestampNs := List.replicate 8 0
  srcId := List.replicate 8 0
  dstId := List.replicate 8 0
  msgType := List.replicate 129 0
  res := List.replicate 19 0
  contentSize := List.replicate 4 0
  layout := rfl

/-- The number of bytes of a name that `set_msg_type` copies. -/
def realLen (name : List UInt8) : ℕ :=
  if msgTypeSize ≤ name.length then msgTypeSize - 1 else name.length

theorem realLen_lt (name : List UInt8) : realLen name < msgTypeSize := by
  unfold realLen msgTypeSize
  split_ifs <;> omega

theorem realLen_le (name : List UInt8) : realLen name ≤ name.length := by
  unfold realLen msgTypeSize
  split_ifs <;> omega

/-- `set_msg_type` -/
def setMsgType (h : MessageHeader) (name : List UInt8) : MessageHeader :=
  if name = [] then h
  else
    { h with
      msgType := name.take (realLen name) ++ List.replicate (msgTypeSize - realLen name) 0
      layout := by
        have hlt := realLen_lt name
        have hle := realLen_le name
        have hold := h.layout
        simp only [map_cons, map_nil, List.cons.injEq] at hold ⊢
        refine ⟨hold.1, hold.2.1, hold.2.2.1, hold.2.2.2.1, hold.2.2.2.2.1, ?_,
          hold.2.2.2.2.2.2⟩
        rw [length_append, length_take, length_replicate]
        unfold msgTypeSize at *
        omega }

/-- `set_content_size`: the bytes of a `uint32_t` in network order. -/
def setContentSize (h : MessageHeader) (contentSize : ℕ) : MessageHeader :=
  { h with
    contentSize := (toBytes 4 contentSize).reverse
    layout := by
      have hold := h.layout
      simp only [map_cons, map_nil, List.cons.injEq, length_reverse,
        length_toBytes] at hold ⊢
      exact ⟨hold.1, hold.2.1, hold.2.2.1, hold.2.2.2.1, hold.2.2.2.2.1, hold.2.2.2.2.2.1,
        hold.2.2.2.2.2.2.1, trivial⟩ }

/-- The bytes before `msg_type_`. -/
def ids (h : MessageHeader) : List UInt8 :=
  h.magicNum ++ h.seq ++ h.timestampNs ++ h.srcId ++ h.dstId

/-- The bytes of a header. -/
def bytes (h : MessageHeader) : List UInt8 := h.ids ++ (h.msgType ++ (h.res ++ h.contentSize))

/-- `content_size` of the header at the beginning of `data`. -/
def contentSizeAt (data : List UInt8) : ℕ :=
  ofBytes ((data.drop contentSizeOffset).take 4).reverse

/-- The string that `msg_type` of the header at the beginning of `data` points to. -/
def msgTypeAt (data : List UInt8) : Option (List UInt8) := cString (data.drop msgTypeOffset)

/-! ### What is read from a header -/

variable (h : MessageHeader) (payload : List UInt8)

theorem length_parts : h.ids.length = 40 ∧ h.msgType.length = 129 ∧ h.res.length = 19 ∧
    h.contentSize.length = 4 := by
  have hold := h.layout
  simp only [map_cons, map_nil, List.cons.injEq] at hold
  simp only [ids, length_append]
  omega

theorem length_bytes : h.bytes.length = headerSize := by
  obtain ⟨hids, htype, hres, hsize⟩ := h.length_parts
  rw [bytes, length_append, length_append, length_append, hids, htype, hres, hsize]
  rfl

theorem drop_msgTypeOffset : (h.bytes ++ payload).drop msgTypeOffset =
    h.msgType ++ (h.res ++ h.contentSize ++ payload) := by
  rw [bytes, append_assoc, append_assoc, msgTypeOffset,
    drop_left' h.length_parts.1]

theorem contentSizeAt_eq : contentSizeAt (h.bytes ++ payload) = ofBytes h.contentSize.reverse := by
  obtain ⟨hids, htype, hres, hsize⟩ := h.length_parts
  have hdrop : (h.bytes ++ payload).drop contentSizeOffset = h.contentSize ++ payload := by
    have hsplit : h.bytes ++ payload =
        (h.ids ++ (h.msgType ++ h.res)) ++ (h.contentSize ++ payload) := by
      simp only [bytes, append_assoc]
    rw [hsplit]
    refine drop_left' ?_
    rw [length_append, length_append, hids, htype, hres]
    rfl
  rw [contentSizeAt, hdrop, take_left' hsize]

/-- **The size that a receiver reads.** -/
theorem contentSizeAt_bytes (n : ℕ) :
    contentSizeAt ((h.setContentSize n).bytes ++ payload) = n % 2 ^ 32 := by
  rw [contentSizeAt_eq, setContentSize, reverse_reverse, ofBytes_toBytes]
  rfl

/-- The name that a receiver gets for the name of a type: at most 128 bytes of it, up to a zero. -/
def nameOf (name : List UInt8) : List UInt8 := (name.take 128).takeWhile (· ≠ 0)

theorem take_realLen (name : List UInt8) : name.take (realLen name) = name.take 128 := by
  unfold realLen msgTypeSize
  split_ifs with hlong
  · rfl
  · rw [take_length, take_of_length_le (by omega)]

theorem exists_msgType_eq (name : List UInt8) :
    ∃ zeros, (new.setMsgType name).msgType = name.take 128 ++ 0 :: zeros := by
  by_cases hname : name = []
  · refine ⟨List.replicate 128 0, ?_⟩
    rw [setMsgType, if_pos hname, hname]
    rfl
  · have hlt := realLen_lt name
    refine ⟨List.replicate (msgTypeSize - realLen name - 1) 0, ?_⟩
    rw [setMsgType, if_neg hname, ← replicate_succ, Nat.sub_add_cancel (by omega)]
    exact congrArg (· ++ _) (take_realLen name)

/-- **The name that a receiver reads.** -/
theorem msgTypeAt_bytes (name : List UInt8) (n : ℕ) :
    msgTypeAt (((new.setMsgType name).setContentSize n).bytes ++ payload) = some (nameOf name) := by
  obtain ⟨zeros, hzeros⟩ := exists_msgType_eq name
  have htype : ((new.setMsgType name).setContentSize n).msgType = name.take 128 ++ 0 :: zeros :=
    hzeros
  rw [msgTypeAt, drop_msgTypeOffset, htype, append_assoc, cons_append,
    cString_append_zero, nameOf]

/-- **The names that a header carries**: those of at most 128 bytes without a zero. -/
theorem nameOf_eq_iff {name : List UInt8} : nameOf name = name ↔ name.length ≤ 128 ∧ 0 ∉ name := by
  constructor
  · intro heq
    have hlen : name.length ≤ 128 := by
      have hle := (List.takeWhile_prefix (· ≠ 0) (l := name.take 128)).length_le
      rw [← nameOf, heq, length_take] at hle
      omega
    rw [nameOf, take_of_length_le hlen] at heq
    exact ⟨hlen, takeWhile_ne_eq_self_iff.mp heq⟩
  · rintro ⟨hlen, hzero⟩
    rw [nameOf, take_of_length_le hlen]
    exact takeWhile_ne_eq_self_iff.mpr hzero

end MessageHeader

end Cyber
