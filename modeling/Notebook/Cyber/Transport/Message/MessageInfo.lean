import Notebook.Container.ByteMemory

/-!
# Message infos

A message travels with a `MessageInfo` (`transport/message/message_info.cc`): who has sent it,
under which number, and a second identity that services use. `SerializeTo` writes the two
identities and the number, and `DeserializeFrom` reads them back into a new `MessageInfo`. The
channel id is not written. An `Identity` is given by its `data_`, which is what `operator==`
compares.
-/

open ByteMemory

namespace Cyber

/-- `ID_SIZE` -/
def idSize : ℕ := 8

/-- `Identity` -/
structure Identity where
  data : List UInt8
  length_data : data.length = idSize
deriving DecidableEq, Repr

/-- `set_data` -/
def Identity.setData (src : ℕ → UInt8) (off : ℕ) : Identity := ⟨read src off idSize, length_read⟩

/-- `Identity(false)` -/
def Identity.zero : Identity := ⟨List.replicate idSize 0, List.length_replicate⟩

/-- `MessageInfo`; its default is the constructor without arguments. -/
structure MessageInfo where
  senderId : Identity := .zero
  channelId : ℕ := 0
  seqNum : UInt64 := 0
  spareId : Identity := .zero
deriving DecidableEq, Repr

namespace MessageInfo

/-- `MessageInfo::kSize`: two identities of `ID_SIZE = 8` bytes and a sequence number. -/
def kSize : ℕ := 2 * 8 + 8

/-- The bytes that `SerializeTo` writes into a buffer of `len` bytes. -/
def serializeTo (info : MessageInfo) (len : ℕ) : Option (List UInt8) :=
  if len < kSize then none
  else some (info.senderId.data ++ toBytes 8 info.seqNum.toNat ++ info.spareId.data)

/-- `DeserializeFrom` of `len` bytes at the offset `off`, called on a new `MessageInfo`. -/
def deserializeFrom (src : ℕ → UInt8) (off len : ℕ) : Option MessageInfo :=
  if len ≠ kSize then none
  else some
    { senderId := .setData src off
      seqNum := .ofNat (ofBytes (read src (off + idSize) 8))
      spareId := .setData src (off + idSize + 8) }

variable {info : MessageInfo} {src : ℕ → UInt8} {off : ℕ} {bs : List UInt8}

theorem setData_of_stored {x : Identity} (h : Stored src off x.data) :
    Identity.setData src off = x := by
  obtain ⟨data, hlen⟩ := x
  have hread : read src off idSize = data := hlen ▸ h
  exact Identity.mk.injEq .. ▸ hread

/-- **A `MessageInfo` is read back** from the bytes that `SerializeTo` has written, without its
channel id. -/
theorem deserializeFrom_of_stored (hbs : info.serializeTo kSize = some bs) (h : Stored src off bs) :
    deserializeFrom src off kSize = some { info with channelId := 0 } := by
  obtain rfl := Option.some.inj hbs
  rw [stored_append, stored_append, List.length_append, info.senderId.length_data,
    length_toBytes] at h
  obtain ⟨⟨hsender, hseq⟩, hspare⟩ := h
  have hread : read src (off + idSize) 8 = toBytes 8 info.seqNum.toNat := by
    simpa [Stored] using hseq
  have hnum : UInt64.ofNat (ofBytes (toBytes 8 info.seqNum.toNat)) = info.seqNum := by
    have hlt : info.seqNum.toNat < 256 ^ 8 := info.seqNum.toNat_lt
    rw [ofBytes_toBytes, Nat.mod_eq_of_lt hlt, UInt64.ofNat_toNat]
  rw [deserializeFrom, if_neg (by simp), hread, hnum, setData_of_stored hsender,
    setData_of_stored (Nat.add_assoc .. ▸ hspare)]

end MessageInfo

end Cyber
