import Notebook.Hela.HelaTask
import Notebook.Hela.DoHelaTask

/-!
# The handle of a pc task

`DoHelaPcTaskHandle` (`do_hela_pc_task.cc`) copies one pc from its source to the target disks, part
by part: a part is read into a buffer and then written to one target after the other. A handler runs
to its end without waiting. Before it returns it sets up what comes next, a timer or a request with
its response and timeout handlers, or it posts the result of the task to the loop of the manager.

## Implementation notes

The fields of the handle are in three groups: `Cursor` says how far the copy is, `Agenda` what has
been set up, and `DoHelaPcTask` has the rest. The asserts are compiled out. A handler that looks up
a shard without a router, or divides by a shard size of zero, has no result. The accounting of bytes
and accesses in the loop and the flow monitor is left out; what the monitor answers is in `Env`.
-/

open Container Interleaving

namespace Hela

/-! ### Back-off -/

/-- `ExponentialBackoff<std::chrono::milliseconds>` -/
structure ExponentialBackoff where
  initialBackoff : ℤ
  maxBackoff : ℤ
  stepBackoff : ℤ
  currentBackoff : ℤ
deriving DecidableEq, Repr

namespace ExponentialBackoff

variable (b : ExponentialBackoff)

/-- `CanDiscard`; the lifetime of a task is not `-1`. -/
def canDiscard : Bool := b.currentBackoff ≥ b.maxBackoff

/-- `ReportSuccess` -/
def reportSuccess : ExponentialBackoff := { b with currentBackoff := 0 }

/-- `ReportError`; with a step the new value goes through an `int`. -/
def reportError : ExponentialBackoff :=
  { b with
    currentBackoff :=
      if b.currentBackoff = 0 then b.initialBackoff
      else if b.stepBackoff = 0 then min b.maxBackoff (2 * b.currentBackoff)
      else min b.maxBackoff (int32 (b.currentBackoff + 2000)) }

end ExponentialBackoff

/-! ### The job -/

/-- A `TinyPcTaskInfo`: a target, by the chunk that has its pc. -/
structure Target where
  chunkId : ℕ
  offline : Bool
deriving DecidableEq, Repr

/-- What the handle reads from its pc task, and from the configuration. -/
structure PcJob where
  pc : ℕ
  pc_lt : pc < 2 ^ 32
  lcSize : ℕ
  pcSize : ℕ
  pcSize_lt : pcSize < 2 ^ 64
  shardSize : ℕ
  clusterVersion : ℕ
  srcType : ResourceType
  source : Server
  sourceChunkId : ℕ
  sourceOffline : Bool
  koalaRouters : KoalaRouteMap
  infoList : List Target
  operateSize : ℕ
  operateSize_lt : operateSize < 2 ^ 32
  pendingChangeKoalaTimes : ℤ
  hugeImagePendingTimes : ℤ
  backOff : ExponentialBackoff

/-- What a handler learns from outside: the cluster that the loop knows, whether the flow monitor
grants a transfer, whether there is a connection to the target, whether a message could be sent, the
least busy ark server (`GetIdleARKRoute`), and how often the current one was accessed. No handler
asks for a grant, a connection or a message more than once. -/
structure Env where
  clusterVersion : ℕ
  chunkOffline : ℕ → Bool
  grant : Bool
  connected : Bool
  sent : Bool
  idleArkRoute : Map String ℕ → Server
  accessNumber : ℤ

/-- The target is marked when the cluster says that its chunk is offline. -/
def Target.check (env : Env) (t : Target) : Target :=
  if env.chunkOffline t.chunkId then { t with offline := true } else t

/-- A request of the handle. A write carries the data of the read that filled the buffer. -/
inductive Request
  | readKoala (sector sectorNum shardIdx : ℕ)
  | readChunk (offset length : ℕ)
  | write (target offset length : ℕ) (data : Request)
deriving DecidableEq, Repr

/-- The return codes of koala. -/
inductive KoalaRet
  | success | empty | eioError | busy | sourceUnavailable | other
deriving DecidableEq, Repr

/-- The return codes of a chunk. -/
inductive ChunkRet
  | ok | resetConnection | clusterVersionErr | chunkNotReady | aioReadTimeout | aioWriteTimeout
  | helaQueueFull | other
deriving DecidableEq, Repr

/-- The callback of a timer: `HandleRetryCb` or `HandlePendingCb`. -/
inductive Callback
  | retry | pending
deriving DecidableEq, Repr

/-! ### The handle -/

/-- How far the copy is. `buffer` is the read whose data the buffer has; `succeeded` are the
requests that have been answered with success, `empties` the reads answered with `VDISK_RET_EMPTY`.
-/
structure Cursor where
  infoList : List Target
  iter : ℕ
  startSector : ℕ
  sectorNum : ℕ
  nextReadSector : ℕ
  endSector : ℕ
  buffer : Option Request
  succeeded : List Request
  empties : List Request
deriving DecidableEq, Repr

/-- What has been set up: the flags for the timer callbacks, the armed timers by their ids, the
requests without an answer, and the results that have been posted. -/
structure Agenda where
  retryRead : Bool
  retryWrite : Bool
  pendingRead : Bool
  pendingWrite : Bool
  timerId : ℕ
  timers : List (ℕ × Callback)
  requests : List Request
  posted : List Retcode
deriving DecidableEq, Repr

/-- A `DoHelaPcTaskHandle`. `srcType` and `statusFail` are read from the pc task, which the batch
shares. `connections` records what `GetOutConnection` returned, and `usedMissing` that a handler has
called a connection that it did not get. -/
structure DoHelaPcTask where
  started : Bool
  srcType : ResourceType
  statusFail : Bool
  changeArkImmediately : Bool
  server : Server
  clusterVersion : ℕ
  sourceOffline : Bool
  currentArkRouter : Map String ℕ
  hugeImagePendingTimes : ℤ
  backOff : ExponentialBackoff
  connections : List Bool
  usedMissing : Bool
  agenda : Agenda
  cursor : Cursor

/-- `DEFAULT_SECTOR_SIZE`, from a header that is not in the repository: the default of 2048 sectors
in `hela_context.h` is an operation of 1MB, the least `shard_size_` according to
`do_hela_pc_task.cc`. -/
abbrev defaultSectorSize : ℕ := 512

namespace PcJob

variable (job : PcJob)

/-- The first sector that is read, `pc_ * pc_size_ / DEFAULT_SECTOR_SIZE`. -/
def firstSector : ℕ := uint64 (job.pc * job.pcSize) / defaultSectorSize

/-- `(pc_ + 1) * pc_size_ / DEFAULT_SECTOR_SIZE`, where `pc_ + 1` is a `uint32_t`. -/
def endSector : ℕ := uint64 (uint32 (job.pc + 1) * job.pcSize) / defaultSectorSize

/-- The sectors of a part. -/
def sectorNum : ℕ := job.operateSize / defaultSectorSize

/-- The offset of a sector in its pc, as `BuildChunkReadRequest` and `BuildChunkWriteRequest` have
it. -/
def offset (sector : ℕ) : ℕ :=
  sector % (job.pcSize / defaultSectorSize) * defaultSectorSize

/-- `BuildKoalaReadRequest` -/
def buildKoalaReadRequest (startSector sectorNum : ℕ) : Request :=
  .readKoala startSector sectorNum (uint64 (startSector * defaultSectorSize) / job.shardSize)

/-- `BuildChunkReadRequest` -/
def buildChunkReadRequest (startSector : ℕ) : Request :=
  .readChunk (job.offset startSector) job.operateSize

/-- `BuildChunkWriteRequest`, with the data of the buffer. -/
def buildChunkWriteRequest (target startSector : ℕ) (data : Request) : Request :=
  .write target (job.offset startSector) job.operateSize data

end PcJob

namespace DoHelaPcTask

/-- `DoHelaPcTaskHandle::DoHelaPcTaskHandle` -/
def init (job : PcJob) : DoHelaPcTask where
  started := false
  srcType := job.srcType
  statusFail := false
  changeArkImmediately := false
  server := ⟨"", 0⟩
  clusterVersion := 0
  sourceOffline := false
  currentArkRouter := ∅
  hugeImagePendingTimes := 0
  backOff := job.backOff
  connections := []
  usedMissing := false
  agenda := ⟨false, false, false, false, 0, [], [], []⟩
  cursor := ⟨[], 0, 0, 0, 0, 0, none, [], []⟩

/-! ### Setting up what comes next -/

variable (job : PcJob) (env : Env) (h : DoHelaPcTask)

/-- `FinishHelaPcTask` -/
def finishHelaPcTask (retcode : Retcode) : DoHelaPcTask :=
  { h with
    backOff := h.backOff.reportSuccess
    agenda := { h.agenda with
      timers := h.agenda.timers.filter fun t => t.1 ≠ h.agenda.timerId
      posted := h.agenda.posted ++ [retcode] } }

/-- `RunAfter`: a timer with a new id. -/
def runAfter (callback : Callback) : DoHelaPcTask :=
  { h with
    agenda := { h.agenda with
      timerId := h.agenda.timerId + 1
      timers := h.agenda.timers ++ [(h.agenda.timerId + 1, callback)] } }

/-- What `set_retry_read(true)` and `set_retry_write(true)` do after they have set their flag: the
task ends when the back-off is used up. -/
def retryAfterBackoff (retcode : Retcode) : DoHelaPcTask :=
  if h.backOff.canDiscard then h.finishHelaPcTask retcode
  else { h with backOff := h.backOff.reportError }.runAfter .retry

/-- `set_retry_read` -/
def setRetryRead (retryRead : Bool) : DoHelaPcTask :=
  let h := { h with agenda := { h.agenda with retryRead } }
  if retryRead then
    h.retryAfterBackoff (if h.srcType = .koala then .fail else .sourceUnavailable)
  else h

/-- `set_retry_write` -/
def setRetryWrite (retryWrite : Bool) : DoHelaPcTask :=
  let h := { h with agenda := { h.agenda with retryWrite } }
  if retryWrite then h.retryAfterBackoff .fail else h

/-- `set_pending_read` -/
def setPendingRead (pendingRead : Bool) : DoHelaPcTask :=
  let h := { h with agenda := { h.agenda with pendingRead } }
  if pendingRead then h.runAfter .pending else h

/-- `set_pending_write` -/
def setPendingWrite (pendingWrite : Bool) : DoHelaPcTask :=
  let h := { h with agenda := { h.agenda with pendingWrite } }
  if pendingWrite then h.runAfter .pending else h

/-- A request is sent, and its handlers are registered. -/
def sendRequest (r : Request) : DoHelaPcTask :=
  { h with agenda := { h.agenda with requests := h.agenda.requests ++ [r] } }

/-! ### Reading -/

/-- `CheckCluster`: the flag that it returns, and the handle. `cluster_version_` is a `uint32_t`. -/
def checkCluster : Bool × DoHelaPcTask :=
  let h :=
    if h.clusterVersion ≠ env.clusterVersion then
      { h with
        clusterVersion := uint32 env.clusterVersion
        sourceOffline :=
          h.sourceOffline || (h.srcType ≠ .koala && env.chunkOffline job.sourceChunkId)
        cursor := { h.cursor with infoList := h.cursor.infoList.map (Target.check env) } }
    else h
  (h.sourceOffline, h)

/-- `FillKoalaSourceRouter`. The index of the shard is an `int`, the ports are `uint16_t`. -/
def fillKoalaSourceRouter : Option DoHelaPcTask :=
  if job.shardSize = 0 then none
  else
    let shardIndex :=
      int32 (uint64 (h.cursor.nextReadSector * defaultSectorSize) / job.shardSize : ℕ)
    (job.koalaRouters.lookup shardIndex).map fun router =>
      { h with
        currentArkRouter := (router.server :: router.peerServers).foldl
          (fun m server => m.insert server.ip ((server.port + 3) % 2 ^ 16)) ∅ }

/-- `ReadDataFromKoala` -/
def readDataFromKoala : DoHelaPcTask :=
  if env.grant then
    let start := h.cursor.nextReadSector
    let h := { h with cursor := { h.cursor with startSector := start, sectorNum := job.sectorNum } }
    if env.sent then h.sendRequest (job.buildKoalaReadRequest start job.sectorNum)
    else h.setRetryRead true
  else h.setPendingRead true

/-- The first case of `DecideKoalaSource`: the routers of a new sector. -/
def newKoalaSource : Option DoHelaPcTask :=
  (fillKoalaSourceRouter job h).map fun h =>
    { h with server := env.idleArkRoute h.currentArkRouter }

/-- The second case of `DecideKoalaSource`: the current server is left out, until there is no other
one. -/
def changeKoalaSource : Option DoHelaPcTask :=
  let h := { h with currentArkRouter := h.currentArkRouter.erase h.server.ip }
  if h.currentArkRouter.keys = [] then newKoalaSource job env h
  else some { h with server := env.idleArkRoute h.currentArkRouter }

/-- `DecideKoalaSource` -/
def decideKoalaSource (newSector change : Bool) (h : DoHelaPcTask) : Option DoHelaPcTask :=
  (if newSector then newKoalaSource job env h else some h).bind fun h =>
    (if change then changeKoalaSource job env h else some h).map fun h =>
      readDataFromKoala job env h

/-- `ReadDataFromChunk`. The flow monitor has different limits for local and remote chunks. -/
def readDataFromChunk : DoHelaPcTask :=
  let checked := checkCluster job env h
  if checked.1 then checked.2.finishHelaPcTask .sourceUnavailable
  else
    let h := checked.2
    if env.grant then
      let start := h.cursor.nextReadSector
      let h :=
        { h with cursor := { h.cursor with startSector := start, sectorNum := job.sectorNum } }
      if env.sent then h.sendRequest (job.buildChunkReadRequest start)
      else h.setRetryRead true
    else h.setPendingRead true

/-- The handle reads again from its source. -/
def readAgain (newSector change : Bool) (h : DoHelaPcTask) : Option DoHelaPcTask :=
  if h.srcType = .koala then decideKoalaSource job env newSector change h
  else some (readDataFromChunk job env h)

/-- `ReadNextPart` -/
def readNextPart : Option DoHelaPcTask :=
  let next := uint64 (h.cursor.startSector + h.cursor.sectorNum)
  let h := { h with cursor := { h.cursor with nextReadSector := next } }
  if next < h.cursor.endSector then readAgain job env true false h
  else some (h.finishHelaPcTask .success)

/-! ### Writing -/

/-- `WriteDataToChunk`. Without a connection the retry is set up, and the connection is used all the
same. A buffer without data is a null pointer. -/
def writeDataToChunk : Option DoHelaPcTask :=
  if env.grant then
    let h := { h with connections := h.connections ++ [env.connected] }
    if env.connected then
      h.cursor.buffer.map fun data =>
        if env.sent then
          h.sendRequest (job.buildChunkWriteRequest h.cursor.iter h.cursor.startSector data)
        else h.setRetryWrite true
    else some { h.setRetryWrite true with usedMissing := true }
  else some (h.setPendingWrite true)

/-- `HandleWriteChunk` with `left` targets from the iterator to the end of the list. -/
def handleWriteChunkLoop : ℕ → DoHelaPcTask → Option DoHelaPcTask
  | 0, h => readNextPart job env { h with cursor := { h.cursor with buffer := none, iter := 0 } }
  | left + 1, h =>
    let checked := checkCluster job env h
    if checked.1 then some (checked.2.finishHelaPcTask .sourceUnavailable)
    else
      let h := checked.2
      h.cursor.infoList[h.cursor.iter]?.bind fun info =>
        if info.offline then
          handleWriteChunkLoop left { h with cursor := { h.cursor with iter := h.cursor.iter + 1 } }
        else writeDataToChunk job env h

/-- `HandleWriteChunk` -/
def handleWriteChunk : Option DoHelaPcTask :=
  handleWriteChunkLoop job env (h.cursor.infoList.length - h.cursor.iter) h

/-! ### Responses and timeouts -/

/-- `HandleReadKoalaResponse`; `data` is the request that the response belongs to. -/
def handleReadKoalaResponse (data : Request) (h : DoHelaPcTask) : KoalaRet → Option DoHelaPcTask
  | .success =>
    handleWriteChunk job env
      { h with
        cursor := { h.cursor with buffer := some data }, backOff := h.backOff.reportSuccess }
  | .empty => readNextPart job env { h with backOff := h.backOff.reportSuccess }
  | .eioError => some (h.setRetryRead true)
  | .busy => some (h.setPendingRead true)
  | .sourceUnavailable => some ({ h with changeArkImmediately := true }.setPendingRead true)
  | .other => some (h.setRetryRead true)

/-- `HandleReadChunkResponse` -/
def handleReadChunkResponse (data : Request) (h : DoHelaPcTask) : ChunkRet → Option DoHelaPcTask
  | .ok => handleWriteChunk job env { h with cursor := { h.cursor with buffer := some data } }
  | .resetConnection => some (h.setRetryRead true)
  | .clusterVersionErr => some (h.finishHelaPcTask .sourceUnavailable)
  | .chunkNotReady => some (h.setPendingRead true)
  | .aioReadTimeout => some (h.setPendingRead true)
  | .helaQueueFull => some (h.setPendingRead true)
  | .aioWriteTimeout => some (h.setRetryRead true)
  | .other => some (h.setRetryRead true)

/-- `HandleWriteChunkResponse`, which reads the target at the iterator first. -/
def handleWriteChunkResponse (retcode : ChunkRet) : Option DoHelaPcTask :=
  if h.cursor.iter < h.cursor.infoList.length then
    match retcode with
    | .ok =>
      handleWriteChunk job env
        { h with
          cursor := { h.cursor with iter := h.cursor.iter + 1 }
          backOff := h.backOff.reportSuccess }
    | .clusterVersionErr =>
      let checked := checkCluster job env h
      if checked.1 then some (checked.2.finishHelaPcTask .sourceUnavailable)
      else some (checked.2.setPendingWrite true)
    | _ => some (h.setPendingWrite true)
  else none

/-- `ReadKoalaTimeOut` -/
def readKoalaTimeOut : DoHelaPcTask :=
  if job.lcSize > kKoalaImageSize40G then
    let times := h.hugeImagePendingTimes
    let h := { h with hugeImagePendingTimes := times + 1 }
    if times < job.hugeImagePendingTimes then h.setPendingRead true else h.setRetryRead true
  else h.setRetryRead true

/-- `ReadKoalaTimeOut`, `ReadChunkTimeOut` and `WriteChunkTimeOut`. -/
def requestTimeOut : Request → DoHelaPcTask
  | .readKoala .. => readKoalaTimeOut job h
  | .readChunk .. => h.setRetryRead true
  | .write .. => h.setPendingWrite true

/-! ### Timers -/

/-- `HandleRetryCb` -/
def handleRetryCb : Option DoHelaPcTask :=
  if h.statusFail then some h
  else if h.agenda.retryWrite then handleWriteChunk job env (h.setRetryWrite false)
  else if h.agenda.retryRead then readAgain job env false true (h.setRetryRead false)
  else some h

/-- Whether `HandlePendingCb` changes the ark server. -/
def changesArk : Bool :=
  h.changeArkImmediately || env.accessNumber > job.pendingChangeKoalaTimes

/-- `HandlePendingCb` -/
def handlePendingCb : Option DoHelaPcTask :=
  if h.statusFail then some h
  else if h.agenda.pendingWrite then handleWriteChunk job env (h.setPendingWrite false)
  else if h.agenda.pendingRead then
    let h := h.setPendingRead false
    if h.srcType = .koala then
      decideKoalaSource job env false (changesArk job env h)
        { h with changeArkImmediately := false }
    else some (readDataFromChunk job env h)
  else some h

/-! ### Events -/

/-- `Start` -/
def start : Option DoHelaPcTask :=
  let h := { h with
    started := true
    clusterVersion := uint32 job.clusterVersion
    sourceOffline := job.sourceOffline
    cursor := { h.cursor with
      infoList := job.infoList
      iter := 0
      nextReadSector := job.firstSector
      endSector := job.endSector } }
  if h.srcType = .koala then decideKoalaSource job env true false h
  else some (readDataFromChunk job env { h with server := job.source })

/-- What the loops hand to the handle. -/
inductive Event
  /-- The transmission loop starts the task. -/
  | start
  /-- A timer runs out. -/
  | timer (id : ℕ)
  /-- Koala answers a read. -/
  | koalaResponse (sector sectorNum shardIdx : ℕ) (retcode : KoalaRet)
  /-- A chunk answers a read. -/
  | readResponse (offset length : ℕ) (retcode : ChunkRet)
  /-- A chunk answers a write. -/
  | writeResponse (target offset length : ℕ) (data : Request) (retcode : ChunkRet)
  /-- A request is not answered in time. -/
  | requestTimeOut (r : Request)
  /-- The batch has handled the posted result (`HandlePcTaskResult`). -/
  | resultHandled
deriving DecidableEq, Repr

/-- The timer `id` is no longer armed. -/
def removeTimer (id : ℕ) : DoHelaPcTask :=
  { h with agenda := { h.agenda with timers := h.agenda.timers.filter fun t => t.1 ≠ id } }

/-- A request has its answer or timeout. -/
def removeRequest (r : Request) : DoHelaPcTask :=
  { h with agenda := { h.agenda with requests := h.agenda.requests.erase r } }

/-- The answer is recorded when it is a success. -/
def record (r : Request) (success : Bool) : DoHelaPcTask :=
  if success then { h with cursor := { h.cursor with succeeded := r :: h.cursor.succeeded } }
  else h

/-- The answer is recorded when the source is empty. -/
def recordEmpty (r : Request) (empty : Bool) : DoHelaPcTask :=
  if empty then { h with cursor := { h.cursor with empties := r :: h.cursor.empties } } else h

/-- `HandlePcTaskResult` of the batch, as far as the handle can see it. -/
def resultHandled : Retcode → DoHelaPcTask
  | .success => h
  | .sourceUnavailable => { h with srcType := .koala }
  | .fail => { h with statusFail := true }

/-- One event, and what the handler learns from outside. Each request gets one response or timeout.
The process does not go on after a handler has called a connection that it did not get. -/
def step (e : Event × Env) : Option DoHelaPcTask :=
  if h.usedMissing then none
  else
    match e.1 with
    | .start => if h.started then none else start job e.2 h
    | .timer id =>
      match h.agenda.timers.find? fun t => t.1 = id with
      | none => none
      | some (_, .retry) => handleRetryCb job e.2 (h.removeTimer id)
      | some (_, .pending) => handlePendingCb job e.2 (h.removeTimer id)
    | .koalaResponse sector sectorNum shardIdx retcode =>
      let r := Request.readKoala sector sectorNum shardIdx
      if r ∈ h.agenda.requests then
        handleReadKoalaResponse job e.2 r
          (((h.removeRequest r).record r (retcode = .success)).recordEmpty r (retcode = .empty))
          retcode
      else none
    | .readResponse offset length retcode =>
      let r := Request.readChunk offset length
      if r ∈ h.agenda.requests then
        handleReadChunkResponse job e.2 r ((h.removeRequest r).record r (retcode = .ok)) retcode
      else none
    | .writeResponse target offset length data retcode =>
      let r := Request.write target offset length data
      if r ∈ h.agenda.requests then
        handleWriteChunkResponse job e.2 ((h.removeRequest r).record r (retcode = .ok)) retcode
      else none
    | .requestTimeOut r =>
      if r ∈ h.agenda.requests then some (requestTimeOut job (h.removeRequest r) r) else none
    | .resultHandled => h.agenda.posted.head?.map h.resultHandled

end DoHelaPcTask

/-! ### A small job -/

/-- A pc that is read from a local chunk and written to one target. -/
def PcJob.ofLocalChunk (pc pcSize operateSize : ℕ) (hpc : pc < 2 ^ 32) (hpcSize : pcSize < 2 ^ 64)
    (hoperateSize : operateSize < 2 ^ 32) : PcJob where
  pc := pc
  pc_lt := hpc
  lcSize := 20
  pcSize := pcSize
  pcSize_lt := hpcSize
  shardSize := 4194304
  clusterVersion := 1
  srcType := .localChunk
  source := ⟨"chunk", 1000⟩
  sourceChunkId := 5
  sourceOffline := false
  koalaRouters := ∅
  infoList := [⟨6, false⟩]
  operateSize := operateSize
  operateSize_lt := hoperateSize
  pendingChangeKoalaTimes := 10
  hugeImagePendingTimes := 10
  backOff := ⟨2000, 20000, 0, 0⟩

/-- Everything is granted and sent, and all chunks are online. -/
def Env.granting (connected : Bool) : Env where
  clusterVersion := 1
  chunkOffline := fun _ => false
  grant := true
  connected := connected
  sent := true
  idleArkRoute := fun _ => ⟨"", 0⟩
  accessNumber := 0

end Hela
