import Notebook.Cyber.Transport.Message.MessageInfo

/-!
# The layout of a shared-memory segment

`ShmConf` (`transport/shm/shm_conf.cc`) decides how a segment is laid out: the size of the
messages it is meant for is rounded up to one of six classes, and the class gives the size of a
block buffer, the number of blocks and the size of the segment. The largest class stands for
every larger message as well, so above it the rounding is down.
-/

namespace Cyber

/-- `ShmConf` -/
structure ShmConf where
  ceilingMsgSize : ℕ
  blockBufSize : ℕ
  blockNum : ℕ
  managedShmSize : ℕ
deriving DecidableEq, Repr

namespace ShmConf

/-- `EXTRA_SIZE` -/
def extraSize : ℕ := 1024 * 4

/-- `STATE_SIZE` -/
def stateSize : ℕ := 1024

/-- `BLOCK_SIZE` -/
def blockSize : ℕ := 1024

/-- `MESSAGE_INFO_SIZE` -/
def messageInfoSize : ℕ := 1024

/-- `MESSAGE_SIZE_16K` -/
def messageSize16K : ℕ := 1024 * 16

/-- `MESSAGE_SIZE_128K` -/
def messageSize128K : ℕ := 1024 * 128

/-- `MESSAGE_SIZE_1M` -/
def messageSize1M : ℕ := 1024 * 1024

/-- `MESSAGE_SIZE_8M` -/
def messageSize8M : ℕ := 1024 * 1024 * 8

/-- `MESSAGE_SIZE_16M` -/
def messageSize16M : ℕ := 1024 * 1024 * 16

/-- `MESSAGE_SIZE_MORE` -/
def messageSizeMore : ℕ := 1024 * 1024 * 32

/-- `GetCeilingMessageSize` -/
def getCeilingMessageSize (realMsgSize : ℕ) : ℕ :=
  if realMsgSize ≤ messageSize16K then messageSize16K
  else if realMsgSize ≤ messageSize128K then messageSize128K
  else if realMsgSize ≤ messageSize1M then messageSize1M
  else if realMsgSize ≤ messageSize8M then messageSize8M
  else if realMsgSize ≤ messageSize16M then messageSize16M
  else messageSizeMore

/-- `GetBlockBufSize` -/
def getBlockBufSize (ceilingMsgSize : ℕ) : ℕ := ceilingMsgSize + messageInfoSize

/-- `GetBlockNum`, with the six constants `BLOCK_NUM_16K` to `BLOCK_NUM_MORE`. -/
def getBlockNum (ceilingMsgSize : ℕ) : ℕ :=
  if ceilingMsgSize = messageSize16K then 512
  else if ceilingMsgSize = messageSize128K then 128
  else if ceilingMsgSize = messageSize1M then 64
  else if ceilingMsgSize = messageSize8M then 32
  else if ceilingMsgSize = messageSize16M then 16
  else if ceilingMsgSize = messageSizeMore then 8
  else 0

/-- `Update` -/
def update (realMsgSize : ℕ) : ShmConf :=
  let ceilingMsgSize := getCeilingMessageSize realMsgSize
  let blockBufSize := getBlockBufSize ceilingMsgSize
  let blockNum := getBlockNum ceilingMsgSize
  { ceilingMsgSize, blockBufSize, blockNum
    managedShmSize := extraSize + stateSize + (blockSize + blockBufSize) * blockNum }

/-! ### The size classes -/

variable (n : ℕ)

theorem getCeilingMessageSize_cases :
    getCeilingMessageSize n = messageSize16K ∨ getCeilingMessageSize n = messageSize128K ∨
      getCeilingMessageSize n = messageSize1M ∨ getCeilingMessageSize n = messageSize8M ∨
      getCeilingMessageSize n = messageSize16M ∨ getCeilingMessageSize n = messageSizeMore := by
  unfold getCeilingMessageSize
  split_ifs <;> simp

theorem getCeilingMessageSize_pos : 0 < getCeilingMessageSize n := by
  rcases getCeilingMessageSize_cases n with h | h | h | h | h | h <;> rw [h] <;> decide

theorem getCeilingMessageSize_idem :
    getCeilingMessageSize (getCeilingMessageSize n) = getCeilingMessageSize n := by
  rcases getCeilingMessageSize_cases n with h | h | h | h | h | h <;> rw [h] <;> decide

/-- Up to the largest class the rounding is up; above it is the largest class. -/
theorem getCeilingMessageSize_spec :
    n ≤ getCeilingMessageSize n ∨
      messageSizeMore < n ∧ getCeilingMessageSize n = messageSizeMore := by
  unfold getCeilingMessageSize
  split_ifs <;> omega

theorem getCeilingMessageSize_le : getCeilingMessageSize n ≤ messageSizeMore := by
  rcases getCeilingMessageSize_cases n with h | h | h | h | h | h <;> rw [h] <;> decide

@[simp] theorem blockBufSize_update :
    (update n).blockBufSize = getCeilingMessageSize n + messageInfoSize := rfl

/-- Every class has blocks, so the modulus in `GetNextWritableBlockIndex` is not zero. -/
theorem blockNum_update_pos : 0 < (update n).blockNum := by
  change 0 < getBlockNum (getCeilingMessageSize n)
  rcases getCeilingMessageSize_cases n with h | h | h | h | h | h <;> rw [h] <;> decide

/-- A process that reads the ceiling stored in a segment computes the layout that the creator of
the segment used. -/
@[simp] theorem update_ceilingMsgSize : update (update n).ceilingMsgSize = update n := by
  simp only [update, getCeilingMessageSize_idem]

/-! ### Room for a message -/

/-- A block buffer has `MESSAGE_INFO_SIZE` bytes beyond its class, of which the message info
takes `kSize`; the rest can still take payload. -/
theorem fits_iff (ceiling : ℕ) :
    n + MessageInfo.kSize ≤ ceiling + messageInfoSize ↔ n ≤ ceiling + 1000 := by
  unfold MessageInfo.kSize messageInfoSize
  omega

/-- A message fits a block of its own class up to a thousand bytes above the largest class. -/
theorem fits_update_iff :
    n + MessageInfo.kSize ≤ (update n).blockBufSize ↔ n ≤ messageSizeMore + 1000 := by
  rw [blockBufSize_update, fits_iff]
  have hle := getCeilingMessageSize_le n
  rcases getCeilingMessageSize_spec n with h | ⟨-, h⟩ <;> omega

end ShmConf

end Cyber
